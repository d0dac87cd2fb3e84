-- The reader of public keys with every read of the input checked. No read leaves
-- the input, and what is read is what the reader without checks reads.
import Licensecc.Token.SignatureVerifier

open Licensecc.Codec

namespace Licensecc.Token

/-- Why a checked reader has no result: the source refuses the input, or it reads
outside of it. -/
inductive ReadError where
  | rejected
  | outside
  deriving DecidableEq

/-- `der[i]` -/
def readByte (der : Bytes) (i : Nat) : Except ReadError UInt8 :=
  match der[i]? with
  | some b => .ok b
  | none => .error .outside

def reject {α : Type} : Except ReadError α := .error .rejected

/-- The loop of `signature_read_der_length` over the bytes of the length. -/
def checkedLengthLoop (der : Bytes) : Nat → Nat → Nat → Except ReadError (Nat × Nat)
  | 0, offset, result => return (result, offset)
  | length_bytes + 1, offset, result => do
    let b ← readByte der offset
    checkedLengthLoop der length_bytes (offset + 1) (result <<< 8 ||| b.toNat)

def checked_read_der_length (der : Bytes) (offset : Nat) : Except ReadError (Nat × Nat) :=
  if der.length ≤ offset then reject
  else do
    let first ← readByte der offset
    let offset := offset + 1
    if first.toNat &&& 0x80 = 0 then return (first.toNat, offset)
    else
      let length_bytes := first.toNat &&& 0x7f
      if length_bytes = 0 ∨ 8 < length_bytes ∨ der.length - offset < length_bytes then reject
      else do
        let high ← readByte der offset
        if high = 0 then reject
        else do
          let (result, offset) ← checkedLengthLoop der length_bytes offset 0
          if result ≤ 127 then reject else return (result, offset)

def checked_read_der_integer_value (der : Bytes) (offset : Nat) :
    Except ReadError (Nat × Nat × Nat) :=
  if der.length ≤ offset then reject
  else do
    let tag ← readByte der offset
    if tag ≠ 0x02 then reject
    else do
      let (encoded_length, offset) ← checked_read_der_length der (offset + 1)
      if encoded_length = 0 ∨ der.length - offset < encoded_length then reject
      else do
        let first ← readByte der offset
        if first = 0 then
          if encoded_length = 1 then reject
          else do
            let second ← readByte der (offset + 1)
            if second.toNat &&& 0x80 = 0 then reject
            else return (offset + 1, encoded_length - 1, offset + encoded_length)
        else if first.toNat &&& 0x80 ≠ 0 then reject
        else return (offset, encoded_length, offset + encoded_length)

/-- The loops over leading zeros. -/
def checkedSkipZeros (der : Bytes) : Nat → Nat → Except ReadError (Nat × Nat)
  | start, 0 => return (start, 0)
  | start, length + 1 => do
    let b ← readByte der start
    if b = 0 then checkedSkipZeros der (start + 1) length else return (start, length + 1)

def checked_bit_length (der : Bytes) (value_start value_length : Nat) : Except ReadError Nat := do
  let (value_start, value_length) ← checkedSkipZeros der value_start value_length
  if value_length = 0 then return 0
  else do
    let high ← readByte der value_start
    return ((value_length - 1) * 8 + bitLength high.toNat) % 2 ^ 32

/-- The checks of the exponent. -/
def checkedExponent (der : Bytes) (exponent_start exponent_length : Nat) :
    Except ReadError Unit := do
  let (exponent_start, exponent_length) ← checkedSkipZeros der exponent_start exponent_length
  if exponent_length = 0 then reject
  else do
    let exponent_lsb ← readByte der (exponent_start + exponent_length - 1)
    if exponent_lsb.toNat &&& 1 = 0 then reject
    else if exponent_length = 1 ∧ exponent_lsb < 3 then reject
    else return ()

/-- `rsa_public_key_bits_from_pkcs1_der`: a key that is refused has no bits. -/
def checked_public_key_bits (der : Bytes) : Except ReadError Nat :=
  if der.length ≤ 0 then reject
  else do
    let tag ← readByte der 0
    if tag ≠ 0x30 then reject
    else do
      let (sequence_length, offset) ← checked_read_der_length der 1
      if sequence_length ≠ der.length - offset then reject
      else do
        let (modulus_start, modulus_length, offset) ← checked_read_der_integer_value der offset
        let (exponent_start, exponent_length, offset) ← checked_read_der_integer_value der offset
        if offset ≠ der.length then reject
        else do
          checkedExponent der exponent_start exponent_length
          checked_bit_length der modulus_start modulus_length

/-! ## No read leaves the input -/

/-- The checked reader has the result of the reader, or refuses as it does. -/
def ofOption {α : Type} : Option α → Except ReadError α
  | some a => .ok a
  | none => reject

theorem readByte_ok {der : Bytes} {i : Nat} (h : i < der.length) :
    readByte der i = .ok (der.getD i 0) := by
  unfold readByte
  rw [List.getElem?_eq_getElem h, List.getD_eq_getElem _ _ h]

theorem checkedLengthLoop_ok {der : Bytes} {length_bytes offset : Nat} (result : Nat)
    (h : offset + length_bytes ≤ der.length) :
    checkedLengthLoop der length_bytes offset result =
      .ok (((der.drop offset).take length_bytes).foldl (fun r b => r <<< 8 ||| b.toNat) result,
        offset + length_bytes) := by
  induction length_bytes generalizing offset result with
  | zero => rfl
  | succ n ih =>
    have hlt : offset < der.length := by omega
    have hdrop : der.drop offset = der.getD offset 0 :: der.drop (offset + 1) := by
      rw [List.getD_eq_getElem _ _ hlt]
      exact List.drop_eq_getElem_cons hlt
    unfold checkedLengthLoop
    rw [readByte_ok hlt, hdrop, List.take_succ_cons, List.foldl_cons]
    have hrest := @ih (offset + 1) (result <<< 8 ||| (der.getD offset 0).toNat) (by omega)
    rw [Nat.add_right_comm, Nat.add_assoc] at hrest
    exact hrest

theorem checked_read_der_length_ok (der : Bytes) (offset : Nat) :
    checked_read_der_length der offset = ofOption (signature_read_der_length der offset) := by
  unfold checked_read_der_length signature_read_der_length
  by_cases hlen : der.length ≤ offset
  · rw [if_pos hlen, if_pos hlen]
    rfl
  rw [if_neg hlen, if_neg hlen, readByte_ok (by omega)]
  simp only [bind, Except.bind]
  by_cases hshort : (der.getD offset 0).toNat &&& 0x80 = 0
  · rw [if_pos hshort, if_pos hshort]
    rfl
  rw [if_neg hshort, if_neg hshort]
  generalize (der.getD offset 0).toNat &&& 0x7f = length_bytes
  by_cases hbytes : length_bytes = 0 ∨ 8 < length_bytes ∨ der.length - (offset + 1) < length_bytes
  · rw [if_pos hbytes, if_pos (by tauto)]
    rfl
  rw [if_neg hbytes, readByte_ok (by omega)]
  dsimp only
  by_cases hhigh : der.getD (offset + 1) 0 = 0
  · rw [if_pos hhigh, if_pos (by tauto)]
    rfl
  rw [if_neg hhigh, if_neg (by tauto), checkedLengthLoop_ok _ (by omega)]
  change (if beNat _ ≤ 127 then _ else _) = _
  split
  · rfl
  · rfl

/-- The offset after a length is in the input. -/
theorem signature_read_der_length_le {der : Bytes} {offset n offset' : Nat}
    (h : signature_read_der_length der offset = some (n, offset')) : offset' ≤ der.length := by
  unfold signature_read_der_length at h
  split at h
  · cases h
  dsimp only at h
  split at h
  · obtain ⟨-, rfl⟩ := Prod.mk.inj (Option.some.inj h)
    omega
  split at h
  · cases h
  split at h
  · cases h
  obtain ⟨-, rfl⟩ := Prod.mk.inj (Option.some.inj h)
  omega

theorem checked_read_der_integer_value_ok (der : Bytes) (offset : Nat) :
    checked_read_der_integer_value der offset =
      ofOption (signature_read_der_integer_value der offset) := by
  unfold checked_read_der_integer_value signature_read_der_integer_value
  by_cases hlen : der.length ≤ offset
  · rw [if_pos hlen, if_pos (.inl hlen)]
    rfl
  rw [if_neg hlen, readByte_ok (by omega)]
  simp only [bind, Except.bind]
  by_cases htag : der.getD offset 0 = 0x02
  swap
  · rw [if_pos htag, if_pos (.inr htag)]
    rfl
  rw [if_neg (not_not.mpr htag), if_neg (by tauto), checked_read_der_length_ok]
  cases hread : signature_read_der_length der (offset + 1) with
  | none => rfl
  | some found =>
    obtain ⟨encoded_length, offset'⟩ := found
    have hle := signature_read_der_length_le hread
    simp only [ofOption, Option.bind_some]
    by_cases hsize : encoded_length = 0 ∨ der.length - offset' < encoded_length
    · rw [if_pos hsize, if_pos hsize]
    rw [if_neg hsize, if_neg hsize, readByte_ok (by omega)]
    dsimp only
    by_cases hzero : der.getD offset' 0 = 0
    · rw [if_pos hzero, if_pos hzero]
      by_cases hone : encoded_length = 1
      · rw [if_pos hone, if_pos (.inl hone)]
      rw [if_neg hone, readByte_ok (by omega)]
      dsimp only
      by_cases hsign : (der.getD (offset' + 1) 0).toNat &&& 0x80 = 0
      · rw [if_pos hsign, if_pos (.inr hsign)]
      · rw [if_neg hsign, if_neg (by tauto)]
        rfl
    · rw [if_neg hzero, if_neg hzero]
      split
      · rfl
      · rfl

/-- The value of an integer is in the input. -/
theorem signature_read_der_integer_value_le {der : Bytes} {offset start length offset' : Nat}
    (h : signature_read_der_integer_value der offset = some (start, length, offset')) :
    start + length ≤ der.length ∧ offset' ≤ der.length := by
  unfold signature_read_der_integer_value at h
  split at h
  · cases h
  obtain ⟨⟨encoded_length, after⟩, hread, h⟩ := Option.bind_eq_some_iff.mp h
  have hle := signature_read_der_length_le hread
  dsimp only at h
  split at h
  · cases h
  split at h
  · split at h
    · cases h
    obtain ⟨rfl, hrest⟩ := Prod.mk.inj (Option.some.inj h)
    obtain ⟨rfl, rfl⟩ := Prod.mk.inj hrest
    omega
  split at h
  · cases h
  obtain ⟨rfl, hrest⟩ := Prod.mk.inj (Option.some.inj h)
  obtain ⟨rfl, rfl⟩ := Prod.mk.inj hrest
  omega

theorem checkedSkipZeros_ok {der : Bytes} {start length : Nat} (h : start + length ≤ der.length) :
    checkedSkipZeros der start length = .ok (skipZeros der start length) := by
  induction length generalizing start with
  | zero => rfl
  | succ length ih =>
    unfold checkedSkipZeros skipZeros
    rw [readByte_ok (by omega)]
    simp only [bind, Except.bind]
    by_cases hzero : der.getD start 0 = 0
    · rw [if_pos hzero, if_pos hzero]
      exact ih (by omega)
    · rw [if_neg hzero, if_neg hzero]
      rfl

theorem skipZeros_le {der : Bytes} {start length : Nat} :
    (skipZeros der start length).1 + (skipZeros der start length).2 = start + length := by
  induction length generalizing start with
  | zero => rfl
  | succ length ih =>
    unfold skipZeros
    split
    · rw [ih]
      omega
    · rfl

theorem checked_bit_length_ok {der : Bytes} {start length : Nat} (h : start + length ≤ der.length) :
    checked_bit_length der start length =
      .ok (signature_bit_length_from_big_endian der start length) := by
  unfold checked_bit_length signature_bit_length_from_big_endian
  have hle := @skipZeros_le der start length
  rw [checkedSkipZeros_ok h]
  simp only [bind, Except.bind]
  generalize skipZeros der start length = place at hle ⊢
  obtain ⟨value_start, value_length⟩ := place
  cases value_length with
  | zero => rfl
  | succ n =>
    dsimp only at hle ⊢
    rw [if_neg (Nat.succ_ne_zero n), readByte_ok (by omega)]
    rfl

theorem checkedExponent_ok {der : Bytes} {start length : Nat} (h : start + length ≤ der.length) :
    checkedExponent der start length = if exponentAllowed der start length then .ok () else reject := by
  unfold checkedExponent exponentAllowed
  have hle := @skipZeros_le der start length
  rw [checkedSkipZeros_ok h]
  simp only [bind, Except.bind]
  cases hplace : skipZeros der start length with
  | mk start' length' =>
  rw [hplace] at hle
  cases length' with
  | zero => rfl
  | succ n =>
    dsimp only at hle ⊢
    rw [if_neg (Nat.succ_ne_zero n), readByte_ok (by omega), ← Nat.add_assoc, Nat.add_sub_cancel]
    dsimp only
    by_cases heven : (der.getD (start' + n) 0).toNat &&& 1 = 0
    · rw [if_pos heven, if_neg]
      simp only [heven, ne_eq, not_true_eq_false, decide_false, Bool.false_and, Bool.false_eq_true,
        not_false_eq_true]
    rw [if_neg heven]
    by_cases hsmall : n + 1 = 1 ∧ der.getD (start' + n) 0 < 3
    · rw [if_pos hsmall]
      have hlt : (der.getD (start' + n) 0).toNat < 3 := UInt8.lt_iff_toNat_lt.mp hsmall.2
      rw [if_neg]
      simp only [hsmall.1, hlt, decide_true, Bool.and_self, Bool.not_true, Bool.and_false,
        Bool.false_eq_true, not_false_eq_true]
    · rw [if_neg hsmall]
      have hlt : der.getD (start' + n) 0 < 3 ↔ (der.getD (start' + n) 0).toNat < 3 :=
        UInt8.lt_iff_toNat_lt
      rw [hlt] at hsmall
      rw [if_pos]
      · rfl
      · rw [← Bool.decide_and, decide_eq_false hsmall, decide_eq_true heven]
        rfl

/-- The checked reader never reads outside, and has the bits of the reader. -/
theorem checked_public_key_bits_ok (der : Bytes) :
    checked_public_key_bits der = .ok (rsa_public_key_bits_from_pkcs1_der der) ∨
      (checked_public_key_bits der = reject ∧ rsa_public_key_bits_from_pkcs1_der der = 0) := by
  unfold checked_public_key_bits rsa_public_key_bits_from_pkcs1_der readPkcs1
  by_cases hlen : der.length ≤ 0
  · rw [if_pos hlen, if_pos (.inl hlen)]
    exact .inr ⟨rfl, rfl⟩
  rw [if_neg hlen, readByte_ok (by omega)]
  simp only [bind, Except.bind]
  by_cases htag : der.getD 0 0 = 0x30
  swap
  · rw [if_pos htag, if_pos (.inr htag)]
    exact .inr ⟨rfl, rfl⟩
  rw [if_neg (not_not.mpr htag), if_neg (by tauto), checked_read_der_length_ok]
  cases hread : signature_read_der_length der 1 with
  | none => exact .inr ⟨rfl, rfl⟩
  | some found =>
  obtain ⟨sequence_length, offset⟩ := found
  simp only [ofOption, Option.bind_some]
  by_cases hsize : sequence_length = der.length - offset
  swap
  · rw [if_pos hsize, if_pos hsize]
    exact .inr ⟨rfl, rfl⟩
  rw [if_neg (not_not.mpr hsize), if_neg (not_not.mpr hsize), checked_read_der_integer_value_ok]
  cases hmodulus : signature_read_der_integer_value der offset with
  | none => exact .inr ⟨rfl, rfl⟩
  | some found =>
  obtain ⟨modulus_start, modulus_length, offset⟩ := found
  simp only [ofOption, Option.bind_some]
  rw [checked_read_der_integer_value_ok]
  cases hexponent : signature_read_der_integer_value der offset with
  | none => exact .inr ⟨rfl, rfl⟩
  | some found =>
  obtain ⟨exponent_start, exponent_length, offset⟩ := found
  have hmle := (signature_read_der_integer_value_le hmodulus).1
  have hele := (signature_read_der_integer_value_le hexponent).1
  simp only [ofOption, Option.bind_some]
  by_cases hend : offset = der.length
  swap
  · rw [if_pos hend, if_pos hend]
    exact .inr ⟨rfl, rfl⟩
  rw [if_neg (not_not.mpr hend), if_neg (not_not.mpr hend), checkedExponent_ok hele]
  simp only [pure]
  by_cases hallowed : exponentAllowed der exponent_start exponent_length = true
  · rw [if_pos hallowed, if_pos hallowed]
    exact .inl (checked_bit_length_ok hmle)
  · rw [if_neg hallowed, if_neg hallowed]
    exact .inr ⟨rfl, rfl⟩

end Licensecc.Token
