-- The laws of base64 without padding. Three bytes are four digits of six bits,
-- and the digits of some bytes give the bytes back. A text of digits is the
-- encoding of its bytes when its last digit has no bits to spare.
import Licensecc.Codec.Utf8
import Mathlib.Data.List.DropRight
import Mathlib.Data.List.GetD
import Mathlib.Data.List.Nodup

namespace Licensecc.Codec

/-! ## Digits -/

/-- The digits of six bits of some bytes. -/
def sextets : Bytes → List Nat
  | [] => []
  | [a] => [a.toNat / 4, a.toNat % 4 * 16]
  | [a, b] => [a.toNat / 4, a.toNat % 4 * 16 + b.toNat / 16, b.toNat % 16 * 4]
  | a :: b :: c :: rest =>
    a.toNat / 4 :: (a.toNat % 4 * 16 + b.toNat / 16) :: (b.toNat % 16 * 4 + c.toNat / 64) ::
      c.toNat % 64 :: sextets rest

/-- The bytes of some digits. The bits to spare of the last digit are lost. -/
def octets : List Nat → Option Bytes
  | [] => some []
  | [_] => none
  | [w, x] => some [UInt8.ofNat (w * 4 + x / 16)]
  | [w, x, y] => some [UInt8.ofNat (w * 4 + x / 16), UInt8.ofNat (x % 16 * 16 + y / 4)]
  | w :: x :: y :: z :: rest => (octets rest).map fun bs =>
    UInt8.ofNat (w * 4 + x / 16) :: UInt8.ofNat (x % 16 * 16 + y / 4) ::
      UInt8.ofNat (y % 4 * 64 + z) :: bs

/-- The bits to spare of the last digit are zero. -/
def spareless (ds : List Nat) : Prop :=
  (ds.length % 4 = 2 → ds.getLastD 0 % 16 = 0) ∧ (ds.length % 4 = 3 → ds.getLastD 0 % 4 = 0)

instance (ds : List Nat) : Decidable (spareless ds) := inferInstanceAs (Decidable (_ ∧ _))

@[simp] theorem sextets_nil : sextets [] = [] := rfl

@[simp] theorem sextets_one (a : UInt8) : sextets [a] = [a.toNat / 4, a.toNat % 4 * 16] := rfl

@[simp] theorem sextets_two (a b : UInt8) :
    sextets [a, b] = [a.toNat / 4, a.toNat % 4 * 16 + b.toNat / 16, b.toNat % 16 * 4] := rfl

@[simp] theorem sextets_three (a b c : UInt8) (rest : Bytes) :
    sextets (a :: b :: c :: rest) =
      a.toNat / 4 :: (a.toNat % 4 * 16 + b.toNat / 16) :: (b.toNat % 16 * 4 + c.toNat / 64) ::
        c.toNat % 64 :: sextets rest := rfl

@[simp] theorem octets_nil : octets [] = some [] := rfl

@[simp] theorem octets_one (w : Nat) : octets [w] = none := rfl

@[simp] theorem octets_two (w x : Nat) : octets [w, x] = some [UInt8.ofNat (w * 4 + x / 16)] := rfl

@[simp] theorem octets_three (w x y : Nat) : octets [w, x, y] =
    some [UInt8.ofNat (w * 4 + x / 16), UInt8.ofNat (x % 16 * 16 + y / 4)] := rfl

@[simp] theorem octets_four (w x y z : Nat) (rest : List Nat) :
    octets (w :: x :: y :: z :: rest) = (octets rest).map fun bs =>
      UInt8.ofNat (w * 4 + x / 16) :: UInt8.ofNat (x % 16 * 16 + y / 4) ::
        UInt8.ofNat (y % 4 * 64 + z) :: bs := rfl

/-- A list is empty, has one or two items, or is three items and a shorter list. -/
theorem by_threes {α : Type} {motive : List α → Prop} (nil : motive []) (one : ∀ a, motive [a])
    (two : ∀ a b, motive [a, b])
    (three : ∀ a b c rest, motive rest → motive (a :: b :: c :: rest)) : ∀ l, motive l
  | [] => nil
  | [a] => one a
  | [a, b] => two a b
  | a :: b :: c :: rest => three a b c rest (by_threes nil one two three rest)

/-- The same with four items. -/
theorem by_fours {α : Type} {motive : List α → Prop} (nil : motive []) (one : ∀ w, motive [w])
    (two : ∀ w x, motive [w, x]) (three : ∀ w x y, motive [w, x, y])
    (four : ∀ w x y z rest, motive rest → motive (w :: x :: y :: z :: rest)) : ∀ l, motive l
  | [] => nil
  | [w] => one w
  | [w, x] => two w x
  | [w, x, y] => three w x y
  | w :: x :: y :: z :: rest => four w x y z rest (by_fours nil one two three four rest)

theorem sextets_lt (bs : Bytes) : ∀ d ∈ sextets bs, d < 64 := by
  induction bs using by_threes with
  | nil => simp
  | one a =>
    have := a.toNat_lt
    simp only [sextets_one, List.mem_cons, List.not_mem_nil, or_false]
    rintro d (rfl | rfl) <;> omega
  | two a b =>
    have := a.toNat_lt
    have := b.toNat_lt
    simp only [sextets_two, List.mem_cons, List.not_mem_nil, or_false]
    rintro d (rfl | rfl | rfl) <;> omega
  | three a b c rest ih =>
    have := a.toNat_lt
    have := b.toNat_lt
    simp only [sextets_three, List.mem_cons]
    rintro d (rfl | rfl | rfl | rfl | hd)
    · omega
    · omega
    · have := c.toNat_lt
      omega
    · omega
    · exact ih d hd

theorem length_sextets (bs : Bytes) : (sextets bs).length = (bs.length * 4 + 2) / 3 := by
  induction bs using by_threes with
  | nil => rfl
  | one a => simp
  | two a b => simp
  | three a b c rest ih =>
    simp only [sextets_three, List.length_cons, ih]
    omega

theorem byte_eq {n : Nat} {b : UInt8} (h : n = b.toNat) : UInt8.ofNat n = b := by
  rw [h, UInt8.ofNat_toNat]

/-- The digits of some bytes give the bytes back. -/
theorem octets_sextets (bs : Bytes) : octets (sextets bs) = some bs := by
  induction bs using by_threes with
  | nil => rfl
  | one a =>
    have := a.toNat_lt
    rw [sextets_one, octets_two, byte_eq]
    omega
  | two a b =>
    have := a.toNat_lt
    have := b.toNat_lt
    rw [sextets_two, octets_three, byte_eq (b := a) (by omega), byte_eq (b := b) (by omega)]
  | three a b c rest ih =>
    have := a.toNat_lt
    have := b.toNat_lt
    have := c.toNat_lt
    rw [sextets_three, octets_four, ih, byte_eq (b := a) (by omega), byte_eq (b := b) (by omega),
      byte_eq (b := c) (by omega)]
    rfl

theorem sextets_injective {bs bs' : Bytes} (h : sextets bs = sextets bs') : bs = bs' := by
  have h1 := octets_sextets bs
  rw [h, octets_sextets] at h1
  exact (Option.some.inj h1).symm

theorem spareless_sextets (bs : Bytes) : spareless (sextets bs) := by
  induction bs using by_threes with
  | nil => decide
  | one a => exact ⟨fun _ => by simp, fun h => by simp at h⟩
  | two a b => exact ⟨fun h => by simp at h, fun _ => by simp⟩
  | three a b c rest ih =>
    have hlast : rest ≠ [] → (sextets (a :: b :: c :: rest)).getLastD 0 =
        (sextets rest).getLastD 0 := by
      intro hne
      have hne' : sextets rest ≠ [] := by
        intro h0
        have := length_sextets rest
        rw [h0] at this
        have hpos := List.length_pos_iff.mpr hne
        simp at this
        omega
      obtain ⟨d, ds, hd⟩ := List.exists_cons_of_ne_nil hne'
      simp [hd]
    unfold spareless
    by_cases hr : rest = []
    · subst hr
      simp
    · rw [hlast hr]
      have hlen : (sextets (a :: b :: c :: rest)).length % 4 = (sextets rest).length % 4 := by
        simp only [sextets_three, List.length_cons]
        omega
      rw [hlen]
      exact ih

/-- Digits without bits to spare are the digits of their bytes. -/
theorem sextets_octets {ds : List Nat} {bs : Bytes} (hlt : ∀ d ∈ ds, d < 64)
    (hs : spareless ds) (h : octets ds = some bs) : sextets bs = ds := by
  induction ds using by_fours generalizing bs with
  | nil =>
    obtain rfl := Option.some.inj h
    rfl
  | one => cases h
  | two w x =>
    obtain rfl := Option.some.inj h
    have hw := hlt w (by simp)
    have hx := hlt x (by simp)
    have h0 : x % 16 = 0 := hs.1 rfl
    simp only [sextets_one, UInt8.toNat_ofNat', List.cons.injEq, and_true]
    omega
  | three w x y =>
    obtain rfl := Option.some.inj h
    have hw := hlt w (by simp)
    have hx := hlt x (by simp)
    have hy := hlt y (by simp)
    have h0 : y % 4 = 0 := hs.2 rfl
    simp only [sextets_two, UInt8.toNat_ofNat', List.cons.injEq, and_true]
    omega
  | four w x y z rest ih =>
    simp only [octets_four, Option.map_eq_some_iff] at h
    obtain ⟨bs', hbs', rfl⟩ := h
    have hw := hlt w (by simp)
    have hx := hlt x (by simp)
    have hy := hlt y (by simp)
    have hz := hlt z (by simp)
    have hrest : spareless rest := by
      cases rest with
      | nil => decide
      | cons d ds =>
        have hlen : (w :: x :: y :: z :: d :: ds).length % 4 = (d :: ds).length % 4 := by
          simp only [List.length_cons]
          omega
        have h1 := hs.1
        have h2 := hs.2
        rw [hlen] at h1 h2
        exact ⟨h1, h2⟩
    have ih' := ih (fun d hd => hlt d (by simp [hd])) hrest hbs'
    simp only [sextets_three, UInt8.toNat_ofNat', List.cons.injEq, ih', and_true]
    omega

/-- Every list of digits but one of a length one more than a multiple of four has
bytes. -/
theorem octets_isSome {ds : List Nat} (h : ds.length % 4 ≠ 1) : ∃ bs, octets ds = some bs := by
  induction ds using by_fours with
  | nil => exact ⟨_, rfl⟩
  | one => exact absurd rfl h
  | two w x => exact ⟨_, rfl⟩
  | three w x y => exact ⟨_, rfl⟩
  | four w x y z rest ih =>
    obtain ⟨bs, hbs⟩ := ih (by simp only [List.length_cons] at h; omega)
    exact ⟨_, by rw [octets_four, hbs]; rfl⟩

/-! ## Alphabets -/

/-- The digits as characters of an alphabet. -/
def encode64 (alphabet : List Char) (bs : Bytes) : List Char :=
  (sextets bs).map fun d => alphabet.getD d 'A'

def digits64 (alphabet s : List Char) : Option (List Nat) := s.mapM (alphabet.idxOf? ·)

def standardAlphabet : List Char :=
  "ABCDEFGHIJKLMNOPQRSTUVWXYZabcdefghijklmnopqrstuvwxyz0123456789+/".toList

def urlAlphabet : List Char :=
  "ABCDEFGHIJKLMNOPQRSTUVWXYZabcdefghijklmnopqrstuvwxyz0123456789-_".toList

theorem length_encode64 (alphabet : List Char) (bs : Bytes) :
    (encode64 alphabet bs).length = (bs.length * 4 + 2) / 3 := by
  rw [encode64, List.length_map, length_sextets]

theorem digits64_eq_some {alphabet s : List Char} {ds : List Nat} (h : digits64 alphabet s = some ds) :
    (∀ d ∈ ds, d < alphabet.length) ∧ s = ds.map fun d => alphabet.getD d 'A' := by
  induction s generalizing ds with
  | nil =>
    obtain rfl := Option.some.inj h
    simp
  | cons c s ih =>
    simp only [digits64, List.mapM_cons, bind, Option.bind_eq_some_iff, pure,
      Option.some.injEq] at h
    obtain ⟨d, hd, ds', hds, rfl⟩ := h
    obtain ⟨hlt, hs⟩ := ih hds
    rw [List.idxOf?_eq_some_iff] at hd
    obtain ⟨hlen, hc, -⟩ := hd
    have hc' : alphabet[d] = c := by simpa using hc
    refine ⟨?_, ?_⟩
    · intro e he
      rcases List.mem_cons.mp he with rfl | he
      · exact hlen
      · exact hlt e he
    · rw [List.map_cons, ← hs, List.getD_eq_getElem _ _ hlen, hc']

theorem digits64_map {alphabet : List Char} (hn : alphabet.Nodup) {ds : List Nat}
    (hlt : ∀ d ∈ ds, d < alphabet.length) :
    digits64 alphabet (ds.map fun d => alphabet.getD d 'A') = some ds := by
  induction ds with
  | nil => rfl
  | cons d ds ih =>
    have hd := hlt d List.mem_cons_self
    have hidx : alphabet.idxOf? (alphabet.getD d 'A') = some d := by
      rw [List.getD_eq_getElem _ _ hd, List.idxOf?_eq_some_iff]
      refine ⟨hd, by simp, fun j hj => ?_⟩
      have hne : alphabet[j] ≠ alphabet[d] := by
        intro he
        have := (hn.getElem_inj_iff).mp he
        omega
      simpa using hne
    have ih' := ih fun e he => hlt e (List.mem_cons_of_mem _ he)
    unfold digits64 at ih' ⊢
    rw [List.map_cons, List.mapM_cons, hidx, ih']
    rfl

theorem digits64_encode64 {alphabet : List Char} (hn : alphabet.Nodup) (hl : alphabet.length = 64)
    (bs : Bytes) : digits64 alphabet (encode64 alphabet bs) = some (sextets bs) :=
  digits64_map hn fun d hd => hl ▸ sextets_lt bs d hd

theorem encode64_injective {alphabet : List Char} (hn : alphabet.Nodup) (hl : alphabet.length = 64)
    {bs bs' : Bytes} (h : encode64 alphabet bs = encode64 alphabet bs') : bs = bs' := by
  have h1 := digits64_encode64 hn hl bs
  rw [h, digits64_encode64 hn hl] at h1
  exact sextets_injective (Option.some.inj h1).symm

theorem mem_of_encode64 {alphabet : List Char} (hl : alphabet.length = 64) {bs : Bytes} {c : Char}
    (h : c ∈ encode64 alphabet bs) : c ∈ alphabet := by
  obtain ⟨d, hd, rfl⟩ := List.mem_map.mp h
  have hlt := hl ▸ sextets_lt bs d hd
  rw [List.getD_eq_getElem _ _ hlt]
  exact List.getElem_mem hlt

/-- The padding at the end is dropped. -/
theorem rdropWhile_pad {α : Type} [DecidableEq α] {l : List α} {x : α} (h : x ∉ l) (k : Nat) :
    (l ++ List.replicate k x).rdropWhile (· = x) = l := by
  induction k with
  | zero =>
    rw [List.replicate_zero, List.append_nil, List.rdropWhile_eq_self_iff]
    intro hne he
    have hlast := of_decide_eq_true he
    apply h
    rw [← hlast]
    exact List.getLast_mem hne
  | succ k ih =>
    rw [List.replicate_succ', ← List.append_assoc, List.rdropWhile_concat_pos _ _ _ (by simp)]
    exact ih

theorem standardAlphabet_nodup : standardAlphabet.Nodup := by decide

theorem urlAlphabet_nodup : urlAlphabet.Nodup := by decide

end Licensecc.Codec
