-- The keys in the library and in the Python SDK. A key that the policy of the
-- library takes is read by the SDK with no fewer bits.
import Licensecc.Token.Sdk

open Licensecc.Codec Licensecc.Protocol

namespace Licensecc.Token

/-! ## Numbers -/

theorem beNat_snoc (bs : Bytes) (b : UInt8) : beNat (bs ++ [b]) = beNat bs * 256 + b.toNat := by
  unfold beNat
  rw [List.foldl_append, List.foldl_cons, List.foldl_nil,
    ← Nat.shiftLeft_add_eq_or_of_lt b.toNat_lt, Nat.shiftLeft_eq]

theorem beNat_cons (b : UInt8) (bs : Bytes) :
    beNat (b :: bs) = b.toNat * 256 ^ bs.length + beNat bs := by
  induction bs using List.reverseRecOn with
  | nil => simp [beNat]
  | append_singleton bs c ih =>
    rw [← List.cons_append, beNat_snoc, beNat_snoc, ih, List.length_append, List.length_singleton,
      Nat.pow_succ, Nat.add_mul, Nat.mul_assoc, Nat.add_assoc]

theorem beNat_lt (bs : Bytes) : beNat bs < 256 ^ bs.length := by
  induction bs with
  | nil => simp [beNat]
  | cons b bs ih =>
    rw [beNat_cons, List.length_cons, Nat.pow_succ]
    have hb := b.toNat_lt
    calc b.toNat * 256 ^ bs.length + beNat bs
        < b.toNat * 256 ^ bs.length + 256 ^ bs.length := Nat.add_lt_add_left ih _
      _ = (b.toNat + 1) * 256 ^ bs.length := by rw [Nat.add_mul, Nat.one_mul]
      _ ≤ 256 * 256 ^ bs.length := Nat.mul_le_mul_right _ (by omega)
      _ = 256 ^ bs.length * 256 := Nat.mul_comm ..

/-- The bits of a number are those of its first byte and eight for each other. -/
theorem bitLength_beNat {b : UInt8} (hb : b ≠ 0) (bs : Bytes) :
    bitLength (beNat (b :: bs)) = bs.length * 8 + bitLength b.toNat := by
  have hb0 : b.toNat ≠ 0 := fun h => hb (UInt8.toNat_inj.mp h)
  have hrest := beNat_lt bs
  have hpow : (256 : Nat) ^ bs.length = 2 ^ (bs.length * 8) := by
    rw [Nat.mul_comm, Nat.pow_mul]
  have hpos : beNat (b :: bs) ≠ 0 := by
    rw [beNat_cons]
    have := Nat.mul_pos (Nat.pos_of_ne_zero hb0) (Nat.pow_pos (n := bs.length) (show 0 < 256 by omega))
    omega
  unfold bitLength
  rw [if_neg hpos, if_neg hb0, ← Nat.add_assoc]
  congr 1
  rw [Nat.log2_eq_iff hpos, beNat_cons, hpow]
  rw [hpow] at hrest
  obtain ⟨h1, h2⟩ := (Nat.log2_eq_iff hb0).mp (rfl : b.toNat.log2 = b.toNat.log2)
  constructor
  · rw [Nat.pow_add, Nat.mul_comm]
    exact Nat.le_add_right_of_le (Nat.mul_le_mul_right _ h1)
  · calc b.toNat * 2 ^ (bs.length * 8) + beNat bs
        < (b.toNat + 1) * 2 ^ (bs.length * 8) := by
          rw [Nat.add_mul, Nat.one_mul]
          exact Nat.add_lt_add_left hrest _
      _ ≤ 2 ^ (b.toNat.log2 + 1) * 2 ^ (bs.length * 8) := Nat.mul_le_mul_right _ h2
      _ = 2 ^ (bs.length * 8 + b.toNat.log2 + 1) := by
          rw [← Nat.pow_add]
          congr 1
          omega

/-! ## DER -/

/-- Both libraries read the same lengths. -/
theorem read_len_eq (der : Bytes) (off : Nat) :
    Sdk.read_len der off = signature_read_der_length der off := by
  unfold Sdk.read_len signature_read_der_length
  by_cases hoff : der.length ≤ off
  · rw [if_pos hoff, if_pos hoff]
  rw [if_neg hoff, if_neg hoff]
  simp only
  by_cases hshort : (der.getD off 0).toNat &&& 0x80 = 0
  · rw [if_pos hshort, if_pos hshort]
  rw [if_neg hshort, if_neg hshort]
  generalize (der.getD off 0).toNat &&& 0x7f = num
  by_cases hnum : num = 0 ∨ 8 < num ∨ der.length < off + 1 + num
  · rw [if_pos hnum, if_pos (by omega)]
  · rw [if_neg hnum]
    by_cases hzero : der.getD (off + 1) 0 = 0
    · rw [if_pos hzero, if_pos (.inr (.inr (.inr hzero)))]
    · have hnum' : ¬ (num = 0 ∨ 8 < num ∨ der.length - (off + 1) < num ∨
          der.getD (off + 1) 0 = 0) := by
        rintro (h | h | h | h)
        · omega
        · omega
        · omega
        · exact hzero h
      rw [if_neg hzero, if_neg hnum']

/-- The bytes of a value in a key. -/
def slice (der : Bytes) (start length : Nat) : Bytes := (der.drop start).take length

theorem slice_cons {der : Bytes} {start length : Nat} (h : start < der.length) :
    slice der start (length + 1) = der.getD start 0 :: slice der (start + 1) length := by
  unfold slice
  rw [List.drop_eq_getElem_cons h, List.take_succ_cons, List.getD_eq_getElem _ _ h]

theorem length_slice {der : Bytes} {start length : Nat} (h : start + length ≤ der.length) :
    (slice der start length).length = length := by
  unfold slice
  rw [List.length_take, List.length_drop]
  omega

theorem getD_slice {der : Bytes} {start length k : Nat} (h : k < length) :
    (slice der start length).getD k 0 = der.getD (start + k) 0 := by
  unfold slice
  simp only [List.getD_eq_getElem?_getD, List.getElem?_take, h, if_true, List.getElem?_drop]

/-- An integer that the library reads is read by the SDK, with the value of its bytes. -/
theorem read_integer_of_native {der : Bytes} {off start length off' : Nat}
    (h : signature_read_der_integer_value der off = some (start, length, off')) :
    Sdk.read_integer der off = some (beNat (slice der start length), off') ∧
      0 < length ∧ start + length ≤ der.length ∧ der.getD start 0 ≠ 0 := by
  unfold signature_read_der_integer_value at h
  unfold Sdk.read_integer
  by_cases htag : der.length ≤ off ∨ der.getD off 0 ≠ 0x02
  · rw [if_pos htag] at h
    cases h
  rw [if_neg htag] at h ⊢
  simp only [bind, Option.bind_eq_some_iff, Prod.exists] at h
  obtain ⟨encoded, offset, hlen, h⟩ := h
  rw [read_len_eq, hlen]
  simp only [bind, Option.bind_some]
  by_cases hfit : encoded = 0 ∨ der.length - offset < encoded
  · rw [if_pos hfit] at h
    cases h
  rw [if_neg hfit] at h
  rw [if_neg (by omega)]
  have hchunk : (der.drop offset).take encoded = slice der offset encoded := rfl
  have hlength : (slice der offset encoded).length = encoded := length_slice (by omega)
  have hfirst : (slice der offset encoded).getD 0 0 = der.getD offset 0 := by
    rw [getD_slice (by omega), Nat.add_zero]
  rw [hchunk, hlength, hfirst]
  by_cases hzero : der.getD offset 0 = 0
  · rw [if_pos hzero] at h
    by_cases hpad : encoded = 1 ∨ (der.getD (offset + 1) 0).toNat &&& 0x80 = 0
    · rw [if_pos hpad] at h
      cases h
    rw [if_neg hpad] at h
    rw [not_or] at hpad
    obtain ⟨rfl, hl, rfl⟩ : offset + 1 = start ∧ encoded - 1 = length ∧ offset + encoded = off' := by
      simpa [pure] using h
    have hsecond : (slice der offset encoded).getD 1 0 = der.getD (offset + 1) 0 :=
      getD_slice (by omega)
    rw [hsecond, hzero]
    have hvalue : beNat (slice der offset encoded) = beNat (slice der (offset + 1) length) := by
      rw [show encoded = length + 1 by omega, slice_cons (by omega), hzero, beNat_cons]
      simp
    refine ⟨?_, by omega, by omega, fun h0 => hpad.2 (by rw [h0]; rfl)⟩
    rw [if_neg (by simp), if_neg (fun hc => hpad.2 hc.2.2), hvalue]
    rfl
  · rw [if_neg hzero] at h
    by_cases hsign : (der.getD offset 0).toNat &&& 0x80 ≠ 0
    · rw [if_pos hsign] at h
      cases h
    rw [if_neg hsign] at h
    obtain ⟨rfl, rfl, rfl⟩ : offset = start ∧ encoded = length ∧ offset + encoded = off' := by
      simpa [pure] using h
    refine ⟨?_, by omega, by omega, hzero⟩
    rw [if_neg hsign, if_neg (fun hc => hzero hc.2.1)]
    rfl

/-- The modulus of a key that the library reads has the same bits for the SDK, but for
the width of the count of the library. -/
theorem bits_of_native (der : Bytes) :
    rsa_public_key_bits_from_pkcs1_der der ≤ Sdk.rsa_public_key_bits der := by
  unfold rsa_public_key_bits_from_pkcs1_der
  cases hread : readPkcs1 der with
  | none => exact Nat.zero_le _
  | some places =>
    obtain ⟨⟨ms, ml⟩, ⟨es, el⟩⟩ := places
    simp only
    by_cases hexponent : exponentAllowed der es el = true
    · rw [if_pos hexponent]
      unfold readPkcs1 at hread
      by_cases htag : der.length ≤ 0 ∨ der.getD 0 0 ≠ 0x30
      · rw [if_pos htag] at hread
        cases hread
      rw [if_neg htag] at hread
      simp only [bind, Option.bind_eq_some_iff, Prod.exists] at hread
      obtain ⟨seq, off, hseq, hread⟩ := hread
      by_cases hlen : seq ≠ der.length - off
      · rw [if_pos hlen] at hread
        cases hread
      rw [if_neg hlen] at hread
      simp only [Option.bind_eq_some_iff, Prod.exists] at hread
      obtain ⟨ms', ml', off', hmodulus, es', el', off'', hexp, hread⟩ := hread
      by_cases hend : off'' ≠ der.length
      · rw [if_pos hend] at hread
        cases hread
      rw [if_neg hend] at hread
      obtain ⟨⟨rfl, rfl⟩, rfl, rfl⟩ : (ms' = ms ∧ ml' = ml) ∧ es' = es ∧ el' = el := by
        simpa [pure] using hread
      obtain ⟨hn, hpos, hfit, hne⟩ := read_integer_of_native hmodulus
      obtain ⟨he, -⟩ := read_integer_of_native hexp
      have hparse : Sdk.parse_pkcs1_rsa_public_key der =
          some (beNat (slice der ms' ml'), beNat (slice der es' el')) := by
        unfold Sdk.parse_pkcs1_rsa_public_key
        have htag' : ¬ (der = [] ∨ der.getD 0 0 ≠ 0x30) := by
          rintro (rfl | h)
          · exact htag (.inl (Nat.le_refl _))
          · exact htag (.inr h)
        rw [if_neg htag', read_len_eq, hseq]
        simp only [bind, Option.bind_some]
        rw [if_neg hlen, hn]
        simp only [Option.bind_some]
        rw [he]
        simp only [Option.bind_some]
        rw [if_neg hend]
        rfl
      unfold Sdk.rsa_public_key_bits
      rw [hparse]
      simp only
      obtain ⟨k, rfl⟩ := Nat.exists_eq_succ_of_ne_zero (Nat.ne_of_gt hpos)
      have hskip : skipZeros der ms' (k + 1) = (ms', k + 1) := by
        rw [skipZeros, if_neg hne]
      unfold signature_bit_length_from_big_endian
      rw [Nat.succ_eq_add_one, hskip, slice_cons (by omega), bitLength_beNat hne,
        length_slice (by omega)]
      exact Nat.mod_le _ _
    · rw [if_neg hexponent]
      exact Nat.zero_le _

theorem is_pkcs1_of_bits {der : Bytes} (h : rsa_public_key_bits_from_pkcs1_der der ≠ 0) :
    is_pkcs1_rsa_public_key_der der = true := by
  unfold rsa_public_key_bits_from_pkcs1_der at h
  unfold is_pkcs1_rsa_public_key_der
  cases hread : readPkcs1 der with
  | none =>
    rw [hread] at h
    exact absurd rfl h
  | some places => rfl

end Licensecc.Token
