-- The laws of UTF-8 over lists of bytes: a text is decoded from exactly the
-- bytes that it is encoded to. A text of ASCII characters has one byte for
-- each of them, and every other character has no ASCII byte.
import Mathlib.Algebra.Ring.Nat
import Mathlib.Data.List.Basic
import Mathlib.Tactic.Common

namespace Licensecc.Codec

abbrev Bytes := List UInt8

instance lawfulBEq_bytes : LawfulBEq Bytes := inferInstance

instance lawfulBEq_text : LawfulBEq (List Char) := inferInstance

/-! ## Encoding and decoding -/

/-- The UTF-8 encoding of a text. -/
def utf8 (s : List Char) : Bytes := s.flatMap String.utf8EncodeChar

/-- The text of the first characters of some bytes, each with its place. -/
def decodeUtf8From : Nat → Bytes → Option (List Char)
  | _, [] => some []
  | 0, _ :: _ => none
  | n + 1, b :: bs => do
    let c ← (b :: bs).toByteArray.utf8DecodeChar? 0
    let s ← decodeUtf8From n ((b :: bs).drop c.utf8Size)
    return c :: s

/-- The text of some bytes, when they are the encoding of one. -/
def decodeUtf8 (bs : Bytes) : Option (List Char) := decodeUtf8From bs.length bs

@[simp] theorem utf8_nil : utf8 [] = [] := rfl

@[simp] theorem utf8_cons (c : Char) (s : List Char) :
    utf8 (c :: s) = String.utf8EncodeChar c ++ utf8 s := rfl

@[simp] theorem utf8_append (s t : List Char) : utf8 (s ++ t) = utf8 s ++ utf8 t :=
  List.flatMap_append

theorem utf8EncodeChar_ne_nil (c : Char) : String.utf8EncodeChar c ≠ [] := by
  intro h
  have hlen := congrArg List.length h
  rw [String.length_utf8EncodeChar] at hlen
  have := c.utf8Size_pos
  simp at hlen
  omega

theorem utf8_eq_nil {s : List Char} : utf8 s = [] ↔ s = [] := by
  cases s with
  | nil => simp
  | cons c s => simp

/-- The first character of some bytes is the one whose encoding they start
with. -/
theorem decodeChar_eq_some {bs : Bytes} {c : Char} :
    bs.toByteArray.utf8DecodeChar? 0 = some c ↔
      bs = String.utf8EncodeChar c ++ bs.drop c.utf8Size := by
  constructor
  · intro h
    obtain ⟨l, hl⟩ := ByteArray.exists_of_utf8DecodeChar?_eq_some h
    have hbs : bs = String.utf8EncodeChar c ++ l.data.toList := by
      have h1 := congrArg (fun b => b.data.toList) hl
      simpa using h1
    have hdrop : bs.drop c.utf8Size = l.data.toList := by
      rw [hbs, ← String.length_utf8EncodeChar c, List.drop_left]
    rw [hdrop]
    exact hbs
  · intro h
    rw [h, List.toByteArray_append]
    exact ByteArray.utf8DecodeChar?_utf8EncodeChar_append

theorem decodeUtf8From_eq_some {n : Nat} {bs : Bytes} {s : List Char} (hn : bs.length ≤ n) :
    decodeUtf8From n bs = some s ↔ utf8 s = bs := by
  induction n generalizing bs s with
  | zero =>
    obtain rfl := List.length_eq_zero_iff.mp (Nat.le_zero.mp hn)
    rw [utf8_eq_nil]
    exact ⟨fun h => (Option.some.inj h).symm, fun h => congrArg some h.symm⟩
  | succ n ih =>
    cases bs with
    | nil =>
      rw [utf8_eq_nil]
      exact ⟨fun h => (Option.some.inj h).symm, fun h => congrArg some h.symm⟩
    | cons b bs =>
      have hstep : decodeUtf8From (n + 1) (b :: bs) = some s ↔ ∃ c t,
          (b :: bs).toByteArray.utf8DecodeChar? 0 = some c ∧
          decodeUtf8From n ((b :: bs).drop c.utf8Size) = some t ∧ c :: t = s := by
        simp only [decodeUtf8From, bind, Option.bind_eq_some_iff, pure, Option.some.injEq]
        constructor
        · rintro ⟨c, hc, t, ht, he⟩
          exact ⟨c, t, hc, ht, he⟩
        · rintro ⟨c, t, hc, ht, he⟩
          exact ⟨c, hc, t, ht, he⟩
      have hshort : ∀ c : Char, ((b :: bs).drop c.utf8Size).length ≤ n := by
        intro c
        have := c.utf8Size_pos
        rw [List.length_drop]
        omega
      rw [hstep]
      constructor
      · rintro ⟨c, t, hc, ht, rfl⟩
        rw [ih (hshort c)] at ht
        rw [utf8_cons, ht]
        exact (decodeChar_eq_some.mp hc).symm
      · intro h
        cases s with
        | nil => cases h
        | cons c t =>
          have hdrop : (b :: bs).drop c.utf8Size = utf8 t := by
            rw [← h, utf8_cons, ← String.length_utf8EncodeChar c, List.drop_left]
          refine ⟨c, t, decodeChar_eq_some.mpr ?_, (ih (hshort c)).mpr hdrop.symm, rfl⟩
          rw [hdrop]
          exact h.symm

/-- A text is decoded from exactly the bytes that it is encoded to. -/
theorem decodeUtf8_eq_some {bs : Bytes} {s : List Char} : decodeUtf8 bs = some s ↔ utf8 s = bs :=
  decodeUtf8From_eq_some (Nat.le_refl _)

@[simp] theorem decodeUtf8_utf8 (s : List Char) : decodeUtf8 (utf8 s) = some s :=
  decodeUtf8_eq_some.mpr rfl

theorem utf8_injective {s t : List Char} (h : utf8 s = utf8 t) : s = t := by
  have hs := decodeUtf8_utf8 s
  rw [h, decodeUtf8_utf8] at hs
  exact (Option.some.inj hs).symm

/-! ## ASCII -/

/-- The bytes of a text of bytes. -/
def bytesOf (s : List Char) : Bytes := s.map fun c => UInt8.ofNat c.toNat

/-- The text with one character for each byte. -/
def binary (bs : Bytes) : List Char := bs.map fun b => Char.ofNat b.toNat

def Ascii (s : List Char) : Prop := ∀ c ∈ s, c.toNat < 128

theorem ascii_of_all {s : List Char} (h : s.all (fun c => c.toNat < 128) = true) : Ascii s := by
  intro c hc
  exact of_decide_eq_true (List.all_eq_true.mp h c hc)

@[simp] theorem bytesOf_append (s t : List Char) : bytesOf (s ++ t) = bytesOf s ++ bytesOf t :=
  List.map_append

@[simp] theorem length_bytesOf (s : List Char) : (bytesOf s).length = s.length := List.length_map _

@[simp] theorem length_binary (bs : Bytes) : (binary bs).length = bs.length := List.length_map _

theorem toNat_ofNat {n : Nat} (h : n < 0xd800) : (Char.ofNat n).toNat = n := by
  have hv : n.isValidChar := .inl h
  unfold Char.ofNat
  rw [dif_pos hv]
  rfl

@[simp] theorem toNat_byteOf (b : UInt8) : (Char.ofNat b.toNat).toNat = b.toNat :=
  toNat_ofNat (by have := b.toNat_lt; omega)

@[simp] theorem bytesOf_binary (bs : Bytes) : bytesOf (binary bs) = bs := by
  unfold bytesOf binary
  rw [List.map_map]
  conv => rhs; rw [← List.map_id bs]
  refine List.map_congr_left fun b _ => ?_
  simp

theorem binary_bytesOf {s : List Char} (h : Ascii s) : binary (bytesOf s) = s := by
  unfold bytesOf binary
  rw [List.map_map]
  conv => rhs; rw [← List.map_id s]
  refine List.map_congr_left fun c hc => ?_
  have hlt := h c hc
  apply Char.toNat_inj.mp
  rw [Function.comp_apply, id_eq, UInt8.toNat_ofNat', Nat.mod_eq_of_lt (by omega)]
  exact toNat_ofNat (by omega)

/-- The encoding of an ASCII character is its byte. -/
theorem utf8EncodeChar_ascii {c : Char} (h : c.toNat < 128) :
    String.utf8EncodeChar c = [UInt8.ofNat c.toNat] := by
  have h1 : c.val.toNat ≤ 0x7f := Nat.lt_succ_iff.mp h
  unfold String.utf8EncodeChar
  rw [if_pos h1]
  rfl

/-- The encoding of any other character has no ASCII byte. -/
theorem utf8EncodeChar_high {c : Char} (h : ¬ c.toNat < 128) :
    ∀ b ∈ String.utf8EncodeChar c, 128 ≤ b.toNat := by
  have h1 : ¬ c.val.toNat ≤ 0x7f := fun hle => h (Nat.lt_succ_iff.mpr hle)
  intro b hb
  unfold String.utf8EncodeChar at hb
  simp only [h1, if_false] at hb
  split at hb
  · simp only [List.mem_cons, List.not_mem_nil, or_false] at hb
    rcases hb with rfl | rfl <;> simp only [UInt8.toNat_ofNat'] <;> omega
  split at hb
  · simp only [List.mem_cons, List.not_mem_nil, or_false] at hb
    rcases hb with rfl | rfl | rfl <;> simp only [UInt8.toNat_ofNat'] <;> omega
  · simp only [List.mem_cons, List.not_mem_nil, or_false] at hb
    rcases hb with rfl | rfl | rfl | rfl <;> simp only [UInt8.toNat_ofNat'] <;> omega

/-- No byte of an encoding is above 0xf7. -/
theorem utf8EncodeChar_lt (c : Char) : ∀ b ∈ String.utf8EncodeChar c, b.toNat < 0xf8 := by
  intro b hb
  unfold String.utf8EncodeChar at hb
  dsimp only at hb
  split at hb
  · simp only [List.mem_cons, List.not_mem_nil, or_false] at hb
    rw [hb, UInt8.toNat_ofNat']
    omega
  split at hb
  · simp only [List.mem_cons, List.not_mem_nil, or_false] at hb
    rcases hb with rfl | rfl <;> simp only [UInt8.toNat_ofNat'] <;> omega
  split at hb
  · simp only [List.mem_cons, List.not_mem_nil, or_false] at hb
    rcases hb with rfl | rfl | rfl <;> simp only [UInt8.toNat_ofNat'] <;> omega
  · simp only [List.mem_cons, List.not_mem_nil, or_false] at hb
    rcases hb with rfl | rfl | rfl | rfl <;> simp only [UInt8.toNat_ofNat'] <;> omega

theorem utf8_lt {s : List Char} {b : UInt8} (h : b ∈ utf8 s) : b.toNat < 0xf8 := by
  obtain ⟨c, -, hc⟩ := List.mem_flatMap.mp h
  exact utf8EncodeChar_lt c b hc

theorem utf8_ascii {s : List Char} (h : Ascii s) : utf8 s = bytesOf s := by
  induction s with
  | nil => rfl
  | cons c s ih =>
    rw [utf8_cons, utf8EncodeChar_ascii (h c List.mem_cons_self),
      ih fun d hd => h d (List.mem_cons_of_mem _ hd)]
    rfl

/-- A class of ASCII codes holds of every byte of a text when it holds of every
character. -/
theorem utf8_all {p : Nat → Bool} (hp : ∀ n, p n = true → n < 128) (s : List Char) :
    (utf8 s).all (fun b => p b.toNat) = s.all fun c => p c.toNat := by
  induction s with
  | nil => rfl
  | cons c s ih =>
    rw [utf8_cons, List.all_append, List.all_cons, ih]
    by_cases hc : c.toNat < 128
    · rw [utf8EncodeChar_ascii hc]
      have : c.toNat % 256 = c.toNat := by omega
      simp [this]
    · have hfalse : p c.toNat = false := by
        by_contra hne
        exact hc (hp _ (by simpa using hne))
      obtain ⟨b, bs, hb⟩ := List.exists_cons_of_ne_nil (utf8EncodeChar_ne_nil c)
      have hhigh := utf8EncodeChar_high hc b (hb ▸ List.mem_cons_self)
      have hb' : p b.toNat = false := by
        by_contra hne
        have := hp _ (by simpa using hne)
        omega
      rw [hfalse, hb, List.all_cons, hb']
      simp

/-- Bytes that are all in a class of ASCII codes are the encoding of their
text. -/
theorem utf8_binary {bs : Bytes} (h : ∀ b ∈ bs, b.toNat < 128) : utf8 (binary bs) = bs := by
  have hascii : Ascii (binary bs) := by
    intro c hc
    obtain ⟨b, hb, rfl⟩ := List.mem_map.mp hc
    rw [toNat_byteOf]
    exact h b hb
  rw [utf8_ascii hascii, bytesOf_binary]

end Licensecc.Codec
