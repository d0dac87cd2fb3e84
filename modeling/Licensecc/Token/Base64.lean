-- base64 with padding, as the library encodes and decodes it. Its canonical
-- texts are exactly the encodings of some bytes, and they decode to these bytes.
import Licensecc.Protocol.Native

open Licensecc.Codec Licensecc.Protocol

namespace Licensecc.Token

/-! ## Encoding and decoding -/

/-- `b64[n]` -/
def b64 (n : Nat) : UInt8 := kBase64Alphabet.getD n 0

def unb64Table : List Nat := [
  0, 0, 0, 0, 0, 0, 0, 0, 0, 0, 0, 0, 0, 0, 0, 0,
  0, 0, 0, 0, 0, 0, 0, 0, 0, 0, 0, 0, 0, 0, 0, 0,
  0, 0, 0, 0, 0, 0, 0, 0, 0, 0, 0, 62, 0, 0, 0, 63,
  52, 53, 54, 55, 56, 57, 58, 59, 60, 61, 0, 0, 0, 0, 0, 0,
  0, 0, 1, 2, 3, 4, 5, 6, 7, 8, 9, 10, 11, 12, 13, 14,
  15, 16, 17, 18, 19, 20, 21, 22, 23, 24, 25, 0, 0, 0, 0, 0,
  0, 26, 27, 28, 29, 30, 31, 32, 33, 34, 35, 36, 37, 38, 39, 40,
  41, 42, 43, 44, 45, 46, 47, 48, 49, 50, 51, 0, 0, 0, 0, 0,
  0, 0, 0, 0, 0, 0, 0, 0, 0, 0, 0, 0, 0, 0, 0, 0,
  0, 0, 0, 0, 0, 0, 0, 0, 0, 0, 0, 0, 0, 0, 0, 0,
  0, 0, 0, 0, 0, 0, 0, 0, 0, 0, 0, 0, 0, 0, 0, 0,
  0, 0, 0, 0, 0, 0, 0, 0, 0, 0, 0, 0, 0, 0, 0, 0,
  0, 0, 0, 0, 0, 0, 0, 0, 0, 0, 0, 0, 0, 0, 0, 0,
  0, 0, 0, 0, 0, 0, 0, 0, 0, 0, 0, 0, 0, 0, 0, 0,
  0, 0, 0, 0, 0, 0, 0, 0, 0, 0, 0, 0, 0, 0, 0, 0,
  0, 0, 0, 0, 0, 0, 0, 0, 0, 0, 0, 0, 0, 0, 0, 0]

/-- `unb64[ch]` -/
def unb64 (ch : UInt8) : Nat := unb64Table.getD ch.toNat 0

def is_base64_alphabet (ch : UInt8) : Bool :=
  inRange 'A' 'Z' ch || inRange 'a' 'z' ch || inRange '0' '9' ch || ch = byte '+' || ch = byte '/'

def remove_line_breaks (base64_data : Bytes) : Bytes :=
  base64_data.filter fun ch => ch ≠ byte '\n' && ch ≠ byte '\r'

/-- The loop of `validate_base64_spelling`, from its turn `i`. -/
def spellingLoop (len : Nat) : Nat → Bool → Nat → Bytes → Option Nat
  | _, _, pad, [] => some pad
  | i, padding_started, pad, ch :: rest =>
    if ch = byte '=' then
      if 2 < pad + 1 ∨ i < len - 2 then none else spellingLoop len (i + 1) true (pad + 1) rest
    else if padding_started ∨ ¬ is_base64_alphabet ch then none
    else spellingLoop len (i + 1) padding_started pad rest

/-- The padding of a text that is well spelled. -/
def validate_base64_spelling (value : Bytes) : Option Nat :=
  let len := value.length
  if len = 0 ∨ len % 4 ≠ 0 then none
  else do
    let pad ← spellingLoop len 0 false 0 value
    if pad = 1 ∧ unb64 (value.getD (len - 2) 0) &&& 0x03 ≠ 0 then none
    else if pad = 2 ∧ unb64 (value.getD (len - 3) 0) &&& 0x0f ≠ 0 then none
    else return pad

/-- The encoding without line ends: a `lineLenght` of zero. -/
def base64 : Bytes → Bytes
  | [] => []
  | [a] => [b64 (a.toNat >>> 2), b64 ((0x3 &&& a.toNat) <<< 4), byte '=', byte '=']
  | [a, b] =>
    [b64 (a.toNat >>> 2), b64 ((0x3 &&& a.toNat) <<< 4 + b.toNat >>> 4),
      b64 ((0x0f &&& b.toNat) <<< 2), byte '=']
  | a :: b :: c :: rest =>
    b64 (a.toNat >>> 2) :: b64 ((0x3 &&& a.toNat) <<< 4 + b.toNat >>> 4) ::
      b64 ((0x0f &&& b.toNat) <<< 2 + c.toNat >>> 6) :: b64 (0x3f &&& c.toNat) :: base64 rest

/-- The loop over the quads that have no padding. -/
def unbase64Loop : Bytes → Bytes
  | a :: b :: c :: d :: rest =>
    let A := unb64 a
    let B := unb64 b
    let C := unb64 c
    let D := unb64 d
    UInt8.ofNat (A <<< 2 ||| B >>> 4) :: UInt8.ofNat (B <<< 4 ||| C >>> 2) ::
      UInt8.ofNat (C <<< 6 ||| D) :: unbase64Loop rest
  | _ => []

/-- The bytes of a text that is well spelled. -/
def unbase64Quads (pad : Nat) (tmp_str : Bytes) : Bytes :=
  let full_quads := tmp_str.length / 4
  let data_quads := if pad = 0 then full_quads else full_quads - 1
  let charNo := data_quads * 4
  let bin := unbase64Loop (tmp_str.take charNo)
  let A := unb64 (tmp_str.getD charNo 0)
  let B := unb64 (tmp_str.getD (charNo + 1) 0)
  let C := unb64 (tmp_str.getD (charNo + 2) 0)
  if pad = 1 then bin ++ [UInt8.ofNat (A <<< 2 ||| B >>> 4), UInt8.ofNat (B <<< 4 ||| C >>> 2)]
  else if pad = 2 then bin ++ [UInt8.ofNat (A <<< 2 ||| B >>> 4)]
  else bin

def unbase64 (base64_data : Bytes) : Bytes :=
  let tmp_str := remove_line_breaks base64_data
  match validate_base64_spelling tmp_str with
  | none => []
  | some pad => unbase64Quads pad tmp_str

def is_canonical_base64 (base64_data : Bytes) (allow_line_breaks : Bool) : Bool :=
  if allow_line_breaks = false ∧ (byte '\n' ∈ base64_data ∨ byte '\r' ∈ base64_data) then false
  else
    let normalized := if allow_line_breaks then remove_line_breaks base64_data else base64_data
    let decoded := unbase64 normalized
    decoded ≠ [] && base64 decoded = normalized

/-! ## Digits -/

set_option maxRecDepth 10000 in
theorem unb64_b64 : ∀ d < 64, unb64 (b64 d) = d := by decide

set_option maxRecDepth 10000 in
theorem b64_alphabet : ∀ d < 64, is_base64_alphabet (b64 d) = true ∧ b64 d ≠ byte '=' ∧
    b64 d ≠ byte '\n' ∧ b64 d ≠ byte '\r' := by decide

theorem b64_eq : ∀ d < 64, b64 d = byte (standardAlphabet.getD d 'A') := by decide

theorem mem_b64_map {ds : List Nat} (hds : ∀ d ∈ ds, d < 64) :
    ∀ c ∈ ds.map b64, is_base64_alphabet c = true ∧ c ≠ byte '=' ∧ c ≠ byte '\n' ∧
      c ≠ byte '\r' := by
  intro c hc
  obtain ⟨d, hd, rfl⟩ := List.mem_map.mp hc
  exact b64_alphabet d (hds d hd)

/-! ## The encoding -/

theorem and_three (n : Nat) : 0x3 &&& n = n % 4 := by
  rw [Nat.and_comm]
  exact Nat.and_two_pow_sub_one_eq_mod n 2

theorem and_fifteen (n : Nat) : 0x0f &&& n = n % 16 := by
  rw [Nat.and_comm]
  exact Nat.and_two_pow_sub_one_eq_mod n 4

theorem and_sixty_three (n : Nat) : 0x3f &&& n = n % 64 := by
  rw [Nat.and_comm]
  exact Nat.and_two_pow_sub_one_eq_mod n 6

/-- The number of `=` after the digits of some bytes. -/
def padOf (bs : Bytes) : Nat := (3 - bs.length % 3) % 3

theorem base64_digits (bs : Bytes) :
    base64 bs = (sextets bs).map b64 ++ List.replicate (padOf bs) (byte '=') := by
  induction bs using by_threes with
  | nil => rfl
  | one a =>
    simp only [base64, sextets_one, and_three, Nat.shiftLeft_eq, Nat.shiftRight_eq_div_pow]
    rfl
  | two a b =>
    simp only [base64, sextets_two, and_three, and_fifteen, Nat.shiftLeft_eq,
      Nat.shiftRight_eq_div_pow]
    rfl
  | three a b c rest ih =>
    have hpad : padOf (a :: b :: c :: rest) = padOf rest := by
      unfold padOf
      simp only [List.length_cons]
      omega
    simp only [base64, sextets_three, and_three, and_fifteen, and_sixty_three, Nat.shiftLeft_eq,
      Nat.shiftRight_eq_div_pow, ih, hpad]
    rfl

theorem base64_eq (bs : Bytes) : base64 bs = bytesOf (btoa bs) := by
  rw [base64_digits]
  unfold btoa encode64
  rw [bytesOf_append]
  congr 1
  · unfold bytesOf
    rw [List.map_map]
    exact List.map_congr_left fun d hd => b64_eq d (sextets_lt bs d hd)
  · unfold bytesOf padOf
    rw [List.map_replicate]
    rfl

theorem length_base64 (bs : Bytes) : (base64 bs).length = (bs.length + 2) / 3 * 4 := by
  rw [base64_digits, List.length_append, List.length_map, length_sextets, List.length_replicate]
  unfold padOf
  omega

theorem mem_base64 {bs : Bytes} {c : UInt8} (h : c ∈ base64 bs) :
    c = byte '=' ∨ is_base64_alphabet c = true := by
  rw [base64_digits] at h
  rcases List.mem_append.mp h with h | h
  · exact .inr (mem_b64_map (sextets_lt bs) c h).1
  · exact .inl (List.eq_of_mem_replicate h)

/-- A byte outside the alphabet is in no encoding. -/
theorem not_mem_base64 {c : UInt8} (hpad : c ≠ byte '=') (hc : is_base64_alphabet c = false)
    (bs : Bytes) : c ∉ base64 bs := by
  intro h
  rcases mem_base64 h with h | h
  · exact hpad h
  · rw [hc] at h
    cases h

/-! ## The encoding is well spelled -/

theorem spellingLoop_pad {len i pad k : Nat} (started : Bool) (hk : pad + k ≤ 2)
    (hi : len - 2 ≤ i) :
    spellingLoop len i started pad (List.replicate k (byte '=')) = some (pad + k) := by
  induction k generalizing i pad started with
  | zero => rfl
  | succ k ih =>
    rw [List.replicate_succ, spellingLoop, if_pos rfl, if_neg (by omega), ih true (by omega)
      (by omega), Nat.add_right_comm, Nat.add_assoc]

theorem spellingLoop_body {len i : Nat} {body tail : Bytes}
    (hbody : ∀ c ∈ body, is_base64_alphabet c = true ∧ c ≠ byte '=' ∧ c ≠ byte '\n' ∧
      c ≠ byte '\r') :
    spellingLoop len i false 0 (body ++ tail) =
      spellingLoop len (i + body.length) false 0 tail := by
  induction body generalizing i with
  | nil => rfl
  | cons c body ih =>
    obtain ⟨halpha, heq, -⟩ := hbody c List.mem_cons_self
    rw [List.cons_append, spellingLoop, if_neg heq, if_neg (by simp [halpha]),
      ih fun d hd => hbody d (List.mem_cons_of_mem _ hd), List.length_cons]
    congr 1
    omega

theorem getD_digits {ds : List Nat} {tail : Bytes} {k : Nat} (hk : k + 1 = ds.length) :
    (ds.map b64 ++ tail).getD k 0 = b64 (ds.getLastD 0) := by
  have hlt : k < (ds.map b64).length := by
    rw [List.length_map]
    omega
  rw [List.getD_append _ _ _ _ hlt, List.getD_eq_getElem _ _ hlt, List.getElem_map]
  congr 1
  have hne : ds ≠ [] := by
    rintro rfl
    simp at hk
  rw [List.getLastD_eq_getLast?, List.getLast?_eq_some_getLast hne, Option.getD_some,
    List.getLast_eq_getElem]
  congr 1
  omega

theorem validate_base64 {bs : Bytes} (h : bs ≠ []) :
    validate_base64_spelling (base64 bs) = some (padOf bs) := by
  have hlt := sextets_lt bs
  have hlen := length_base64 bs
  have hdigits := length_sextets bs
  have hpos := List.length_pos_iff.mpr h
  have hspare := spareless_sextets bs
  have hlast : (sextets bs).getLastD 0 < 64 := by
    have hne : sextets bs ≠ [] := by
      intro h0
      rw [h0] at hdigits
      simp only [List.length_nil] at hdigits
      omega
    rw [List.getLastD_eq_getLast?, List.getLast?_eq_some_getLast hne]
    exact hlt _ (List.getLast_mem hne)
  have hpad : padOf bs ≤ 2 := by
    unfold padOf
    omega
  have htotal : (sextets bs).length + padOf bs = (base64 bs).length := by
    rw [base64_digits, List.length_append, List.length_map, List.length_replicate]
  unfold validate_base64_spelling
  have hloop : spellingLoop (base64 bs).length 0 false 0 (base64 bs) = some (padOf bs) := by
    have hbody := @spellingLoop_body (base64 bs).length 0 _ (List.replicate (padOf bs) (byte '='))
      (mem_b64_map hlt)
    rw [List.length_map, Nat.zero_add] at hbody
    conv => lhs; arg 5; rw [base64_digits]
    rw [hbody, spellingLoop_pad false (by omega) (by omega), Nat.zero_add]
  have h1 : padOf bs = 1 → unb64 ((base64 bs).getD ((base64 bs).length - 2) 0) &&& 0x03 = 0 := by
    intro h1
    rw [Nat.and_comm, and_three]
    conv => lhs; arg 1; arg 1; arg 1; rw [base64_digits]
    rw [getD_digits (by omega), unb64_b64 _ hlast]
    exact hspare.2 (by unfold padOf at h1; omega)
  have h2 : padOf bs = 2 → unb64 ((base64 bs).getD ((base64 bs).length - 3) 0) &&& 0x0f = 0 := by
    intro h2
    rw [Nat.and_comm, and_fifteen]
    conv => lhs; arg 1; arg 1; arg 1; rw [base64_digits]
    rw [getD_digits (by omega), unb64_b64 _ hlast]
    exact hspare.1 (by unfold padOf at h2; omega)
  simp only
  rw [if_neg (by omega), hloop]
  simp only [Option.bind_eq_bind, Option.bind_some]
  rw [if_neg (fun hc => hc.2 (h1 hc.1)), if_neg (fun hc => hc.2 (h2 hc.1))]
  rfl

/-! ## The encoding decodes to its bytes -/

theorem quad_first {A B : Nat} (hB : B < 64) : A <<< 2 ||| B >>> 4 = A * 4 + B / 16 := by
  have hlt : B >>> 4 < 2 ^ 2 := by
    rw [Nat.shiftRight_eq_div_pow]
    omega
  rw [← Nat.shiftLeft_add_eq_or_of_lt hlt, Nat.shiftLeft_eq, Nat.shiftRight_eq_div_pow]

theorem quad_second {B C : Nat} (hC : C < 64) : B <<< 4 ||| C >>> 2 = B * 16 + C / 4 := by
  have hlt : C >>> 2 < 2 ^ 4 := by
    rw [Nat.shiftRight_eq_div_pow]
    omega
  rw [← Nat.shiftLeft_add_eq_or_of_lt hlt, Nat.shiftLeft_eq, Nat.shiftRight_eq_div_pow]

theorem quad_third {C D : Nat} (hD : D < 64) : C <<< 6 ||| D = C * 64 + D := by
  rw [← Nat.shiftLeft_add_eq_or_of_lt (show D < 2 ^ 6 from hD), Nat.shiftLeft_eq]

theorem byte_of_mod {n : Nat} {b : UInt8} (h : n % 256 = b.toNat) : UInt8.ofNat n = b := by
  apply UInt8.toNat_inj.mp
  rw [UInt8.toNat_ofNat']
  exact h

theorem base64_cons (a b c : UInt8) (rest : Bytes) : base64 (a :: b :: c :: rest) =
    b64 (a.toNat / 4) :: b64 (a.toNat % 4 * 16 + b.toNat / 16) ::
      b64 (b.toNat % 16 * 4 + c.toNat / 64) :: b64 (c.toNat % 64) :: base64 rest := by
  rw [base64_digits, base64_digits]
  have hpad : padOf (a :: b :: c :: rest) = padOf rest := by
    unfold padOf
    simp only [List.length_cons]
    omega
  rw [hpad]
  rfl

theorem unbase64Quads_cons {pad : Nat} {e₀ e₁ e₂ e₃ : UInt8} {l : Bytes}
    (h : pad ≠ 0 → 4 ≤ l.length) : unbase64Quads pad (e₀ :: e₁ :: e₂ :: e₃ :: l) =
      unbase64Loop [e₀, e₁, e₂, e₃] ++ unbase64Quads pad l := by
  have hfull : (e₀ :: e₁ :: e₂ :: e₃ :: l).length / 4 = l.length / 4 + 1 := by
    simp only [List.length_cons]
    omega
  have hquads : (if pad = 0 then l.length / 4 + 1 else l.length / 4 + 1 - 1) =
      (if pad = 0 then l.length / 4 else l.length / 4 - 1) + 1 := by
    by_cases hp : pad = 0
    · simp [hp]
    · have := h hp
      rw [if_neg hp, if_neg hp]
      omega
  unfold unbase64Quads
  simp only [hfull, hquads]
  generalize (if pad = 0 then l.length / 4 else l.length / 4 - 1) = k
  have hk : (k + 1) * 4 = k * 4 + 1 + 1 + 1 + 1 := by omega
  have hk' : ∀ j, k * 4 + 1 + 1 + 1 + 1 + j = k * 4 + j + 1 + 1 + 1 + 1 := by
    intro j
    omega
  rw [hk]
  simp only [hk', List.take_succ_cons, List.getD_cons_succ]
  by_cases h1 : pad = 1
  · simp [h1, unbase64Loop]
  · by_cases h2 : pad = 2
    · simp [h2, unbase64Loop]
    · simp [h1, h2, unbase64Loop]

theorem unbase64Quads_two (w x y z : UInt8) : unbase64Quads 2 [w, x, y, z] =
    [UInt8.ofNat (unb64 w <<< 2 ||| unb64 x >>> 4)] := by
  simp [unbase64Quads, unbase64Loop]

theorem unbase64Quads_one (w x y z : UInt8) : unbase64Quads 1 [w, x, y, z] =
    [UInt8.ofNat (unb64 w <<< 2 ||| unb64 x >>> 4),
      UInt8.ofNat (unb64 x <<< 4 ||| unb64 y >>> 2)] := by
  simp [unbase64Quads, unbase64Loop]

theorem unbase64Quads_base64 (bs : Bytes) : unbase64Quads (padOf bs) (base64 bs) = bs := by
  induction bs using by_threes with
  | nil => rfl
  | one a =>
    have := a.toNat_lt
    have h1 : unb64 (b64 (a.toNat / 4)) = a.toNat / 4 := unb64_b64 _ (by omega)
    have h2 : unb64 (b64 (a.toNat % 4 * 16)) = a.toNat % 4 * 16 := unb64_b64 _ (by omega)
    rw [base64_digits]
    refine (unbase64Quads_two _ _ _ _).trans ?_
    rw [h1, h2, quad_first (by omega), byte_of_mod (b := a) (by omega)]
  | two a b =>
    have := a.toNat_lt
    have := b.toNat_lt
    have h1 : unb64 (b64 (a.toNat / 4)) = a.toNat / 4 := unb64_b64 _ (by omega)
    have h2 : unb64 (b64 (a.toNat % 4 * 16 + b.toNat / 16)) = a.toNat % 4 * 16 + b.toNat / 16 :=
      unb64_b64 _ (by omega)
    have h3 : unb64 (b64 (b.toNat % 16 * 4)) = b.toNat % 16 * 4 := unb64_b64 _ (by omega)
    rw [base64_digits]
    refine (unbase64Quads_one _ _ _ _).trans ?_
    rw [h1, h2, h3, quad_first (by omega), quad_second (by omega), byte_of_mod (b := a) (by omega),
      byte_of_mod (b := b) (by omega)]
  | three a b c rest ih =>
    have := a.toNat_lt
    have := b.toNat_lt
    have := c.toNat_lt
    have hpad : padOf (a :: b :: c :: rest) = padOf rest := by
      unfold padOf
      simp only [List.length_cons]
      omega
    have hrest : padOf rest ≠ 0 → 4 ≤ (base64 rest).length := by
      intro h
      rw [length_base64]
      unfold padOf at h
      omega
    rw [base64_cons, hpad, unbase64Quads_cons hrest, ih]
    have h1 : unb64 (b64 (a.toNat / 4)) = a.toNat / 4 := unb64_b64 _ (by omega)
    have h2 : unb64 (b64 (a.toNat % 4 * 16 + b.toNat / 16)) = a.toNat % 4 * 16 + b.toNat / 16 :=
      unb64_b64 _ (by omega)
    have h3 : unb64 (b64 (b.toNat % 16 * 4 + c.toNat / 64)) = b.toNat % 16 * 4 + c.toNat / 64 :=
      unb64_b64 _ (by omega)
    have h4 : unb64 (b64 (c.toNat % 64)) = c.toNat % 64 := unb64_b64 _ (by omega)
    simp only [unbase64Loop, h1, h2, h3, h4]
    rw [quad_first (by omega), quad_second (by omega), quad_third (by omega),
      byte_of_mod (b := a) (by omega), byte_of_mod (b := b) (by omega),
      byte_of_mod (b := c) (by omega)]
    rfl

theorem newline_not_mem_base64 (bs : Bytes) : byte '\n' ∉ base64 bs :=
  not_mem_base64 (by decide) (by decide) bs

theorem return_not_mem_base64 (bs : Bytes) : byte '\r' ∉ base64 bs :=
  not_mem_base64 (by decide) (by decide) bs

theorem remove_line_breaks_base64 (bs : Bytes) : remove_line_breaks (base64 bs) = base64 bs := by
  unfold remove_line_breaks
  rw [List.filter_eq_self]
  intro c hc
  have hn : c ≠ byte '\n' := fun he => newline_not_mem_base64 bs (he ▸ hc)
  have hr : c ≠ byte '\r' := fun he => return_not_mem_base64 bs (he ▸ hc)
  simp [hn, hr]

/-- The encoding of some bytes decodes to them. -/
theorem unbase64_base64 {bs : Bytes} (h : bs ≠ []) : unbase64 (base64 bs) = bs := by
  unfold unbase64
  simp only [remove_line_breaks_base64, validate_base64 h]
  exact unbase64Quads_base64 bs

/-- The canonical texts are the encodings of some bytes. -/
theorem is_canonical_base64_iff {s : Bytes} :
    is_canonical_base64 s false = true ↔ ∃ bs, bs ≠ [] ∧ s = base64 bs := by
  unfold is_canonical_base64
  constructor
  · intro h
    split at h
    · cases h
    simp only [Bool.false_eq_true, if_false, ne_eq, Bool.and_eq_true, decide_eq_true_eq] at h
    exact ⟨_, h.1, h.2.symm⟩
  · rintro ⟨bs, hbs, rfl⟩
    rw [if_neg (by simp [newline_not_mem_base64, return_not_mem_base64])]
    simp [unbase64_base64 hbs, hbs]

end Licensecc.Token
