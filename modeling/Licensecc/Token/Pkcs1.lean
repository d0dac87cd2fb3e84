-- Which public keys have bits: the strict encodings of a modulus and an odd
-- exponent of three or more. A request that is allowed is one of such a key.
import Licensecc.Codec.Der
import Licensecc.Token.Reads
import Mathlib.Data.Nat.Size

open Licensecc.Codec

namespace Licensecc.Token

/-! ## Lengths -/

theorem beNat_from (result : Nat) (bytes : Bytes) :
    bytes.foldl (fun r b => r <<< 8 ||| b.toNat) result = result * 256 ^ bytes.length + natural bytes := by
  induction bytes generalizing result with
  | nil => simp
  | cons b bytes ih =>
    have hb : b.toNat < 2 ^ 8 := b.toNat_lt
    rw [List.foldl_cons, ih, ← Nat.shiftLeft_add_eq_or_of_lt hb, Nat.shiftLeft_eq, natural_cons,
      List.length_cons, pow_succ]
    ring

theorem beNat_eq (bytes : Bytes) : beNat bytes = natural bytes := by
  unfold beNat
  rw [beNat_from, Nat.zero_mul, Nat.zero_add]

set_option maxRecDepth 4000 in
theorem length_bits : ∀ n < 256, (n &&& 0x80 = 0 ↔ n < 128) ∧ n &&& 0x7f = n % 128 := by decide

/-- The byte at an offset is the first one after the bytes before it. -/
theorem getD_after (pre : Bytes) (suffix : Bytes) (i : Nat) :
    (pre ++ suffix).getD (pre.length + i) 0 = suffix.getD i 0 := by
  rw [List.getD_append_right _ _ _ _ (Nat.le_add_right _ _), Nat.add_sub_cancel_left]

theorem drop_after (pre : Bytes) (suffix : Bytes) (i : Nat) :
    (pre ++ suffix).drop (pre.length + i) = suffix.drop i := by
  rw [List.drop_append, List.drop_of_length_le (Nat.le_add_right _ _), List.nil_append,
    Nat.add_sub_cancel_left]

/-- A length is read exactly where its one spelling stands. -/
theorem signature_read_der_length_iff {pre suffix : Bytes} {n offset : Nat} :
    signature_read_der_length (pre ++ suffix) pre.length = some (n, offset) ↔
      n < 256 ^ 8 ∧ offset = pre.length + (derLength n).length ∧
        ∃ rest, suffix = derLength n ++ rest := by
  cases suffix with
  | nil =>
    have hne : derLength n ≠ [] := by
      unfold derLength
      split
      · exact List.cons_ne_nil _ _
      · exact List.cons_ne_nil _ _
    unfold signature_read_der_length
    rw [List.append_nil, if_pos (le_refl _)]
    simp [hne]
  | cons first rest =>
    have hfirst := first.toNat_lt
    have hbits := length_bits first.toNat hfirst
    have hnot : ¬ (pre ++ first :: rest).length ≤ pre.length := by simp
    have hhead : (pre ++ first :: rest).getD pre.length 0 = first := getD_after pre (first :: rest) 0
    have hnext : (pre ++ first :: rest).getD (pre.length + 1) 0 = rest.getD 0 0 :=
      getD_after pre (first :: rest) 1
    have hdrop : (pre ++ first :: rest).drop (pre.length + 1) = rest := drop_after pre (first :: rest) 1
    have hroom : (pre ++ first :: rest).length - (pre.length + 1) = rest.length := by
      simp only [List.length_append, List.length_cons]
      omega
    unfold signature_read_der_length
    rw [if_neg hnot]
    dsimp only
    rw [hhead, hnext, hdrop, hroom, hbits.2, beNat_eq]
    constructor
    · intro h
      split at h
      · rename_i hshort
        obtain ⟨rfl, rfl⟩ := Prod.mk.inj (Option.some.inj h)
        rw [derLength_short (hbits.1.mp hshort), UInt8.ofNat_toNat]
        exact ⟨by omega, rfl, rest, rfl⟩
      · rename_i hlong
        rw [hbits.1, Nat.not_lt] at hlong
        split at h
        · cases h
        rename_i hsize
        split at h
        · cases h
        rename_i hresult
        obtain ⟨rfl, rfl⟩ := Prod.mk.inj (Option.some.inj h)
        have hlen : (rest.take (first.toNat % 128)).length = first.toNat % 128 := by
          rw [List.length_take]
          omega
        have hleast : Least (rest.take (first.toNat % 128)) := by
          intro h0
          rw [List.head?_take, if_neg (by omega)] at h0
          apply hsize
          right; right; right
          rw [List.getD_eq_getElem?_getD, ← List.head?_eq_getElem?, h0]
          rfl
        have hbytes := leastBytes_natural hleast
        have hsum : 128 + first.toNat % 128 = first.toNat := by omega
        have hder : derLength (natural (rest.take (first.toNat % 128))) =
            first :: rest.take (first.toNat % 128) := by
          rw [derLength_long (by omega), hbytes, hlen, hsum, UInt8.ofNat_toNat]
        refine ⟨?_, ?_, rest.drop (first.toNat % 128), ?_⟩
        · refine (natural_lt _).trans_le ?_
          rw [hlen]
          exact Nat.pow_le_pow_right (by decide) (by omega)
        · rw [hder, List.length_cons, hlen]
          omega
        · rw [hder, List.cons_append, List.take_append_drop]
    · rintro ⟨hn, rfl, after, hsuffix⟩
      by_cases hshort : n < 128
      · rw [derLength_short hshort] at hsuffix ⊢
        obtain ⟨rfl, rfl⟩ := List.cons.inj hsuffix
        have htoNat : (UInt8.ofNat n).toNat = n := by
          rw [UInt8.toNat_ofNat', Nat.mod_eq_of_lt (by omega)]
        rw [htoNat] at hbits ⊢
        rw [if_pos (hbits.1.mpr hshort)]
        rfl
      · rw [derLength_long hshort, List.cons_append] at hsuffix
        rw [derLength_long hshort]
        obtain ⟨rfl, rfl⟩ := List.cons.inj hsuffix
        have hle : (leastBytes n).length ≤ 8 := by
          have hwide : natural (leastBytes n) ≤ natural (List.replicate 8 255) := by
            rw [natural_leastBytes]
            have : natural (List.replicate 8 255) = 256 ^ 8 - 1 := by decide
            omega
          exact length_le_of_least (least_leastBytes n) hwide
        have hpos : 0 < (leastBytes n).length := by
          refine List.length_pos_iff.mpr fun h => ?_
          have := leastBytes_eq_nil.mp h
          omega
        have htoNat : (UInt8.ofNat (128 + (leastBytes n).length)).toNat =
            128 + (leastBytes n).length := by
          rw [UInt8.toNat_ofNat', Nat.mod_eq_of_lt (by omega)]
        have hmod : (128 + (leastBytes n).length) % 128 = (leastBytes n).length := by omega
        have hhigh : (leastBytes n ++ after).getD 0 0 ≠ 0 := by
          intro h0
          refine least_leastBytes n ?_
          cases hb : leastBytes n with
          | nil =>
            rw [hb] at hpos
            exact absurd hpos (by decide)
          | cons b bs =>
            rw [hb] at h0
            exact congrArg some h0
        rw [htoNat] at hbits
        rw [htoNat, if_neg (by rw [hbits.1]; omega), hmod, List.take_left' rfl, natural_leastBytes,
          if_neg, if_neg (by omega), List.length_cons]
        · congr 2
          omega
        · rw [List.length_append]
          rintro (h | h | h | h)
          · omega
          · omega
          · omega
          · exact hhigh h

/-! ## Integers -/

/-- What is read of contents is the place of their magnitude, which ends where they end. -/
theorem read_contents {pre value rest : Bytes} (hne : value ≠ []) :
    (if (pre ++ (value ++ rest)).getD pre.length 0 = 0 then
      if value.length = 1 ∨
          ((pre ++ (value ++ rest)).getD (pre.length + 1) 0).toNat &&& 0x80 = 0 then none
      else some (pre.length + 1, value.length - 1, pre.length + value.length)
    else if ((pre ++ (value ++ rest)).getD pre.length 0).toNat &&& 0x80 ≠ 0 then none
    else some (pre.length, value.length, pre.length + value.length)) =
      (magnitudeOf value).map fun magnitude =>
        (pre.length + value.length - magnitude.length, magnitude.length,
          pre.length + value.length) := by
  have hfirst : (pre ++ (value ++ rest)).getD pre.length 0 = (value ++ rest).getD 0 0 :=
    getD_after pre (value ++ rest) 0
  rw [hfirst, getD_after]
  cases value with
  | nil => exact absurd rfl hne
  | cons b bs =>
    simp only [List.cons_append, List.getD_cons_zero, List.getD_cons_succ, magnitudeOf]
    by_cases hb : b = 0
    · subst hb
      cases bs with
      | nil => simp
      | cons c cs =>
        simp only [List.cons_append, List.getD_cons_zero]
        by_cases hc : c.toNat &&& 0x80 = 0
        · simp [hc]
        · simp [hc]
          omega
    · by_cases hbit : b.toNat &&& 0x80 = 0
      · simp [hb, hbit]
      · simp [hb, hbit]

theorem derInteger_eq (n : Nat) :
    derInteger n = 0x02 :: (derLength (derContents n).length ++ derContents n) := rfl

/-- An integer is read exactly where the one spelling of a positive number stands. -/
theorem signature_read_der_integer_value_iff {pre suffix : Bytes} {start length offset : Nat}
    (hroom : (pre ++ suffix).length < 256 ^ 8) :
    signature_read_der_integer_value (pre ++ suffix) pre.length = some (start, length, offset) ↔
      ∃ n rest, 0 < n ∧ suffix = derInteger n ++ rest ∧
        offset = pre.length + (derInteger n).length ∧ length = (leastBytes n).length ∧
        start = offset - length := by
  have hread : ∀ {value rest : Bytes}, value.length < 256 ^ 8 → value ≠ [] →
      suffix = 0x02 :: (derLength value.length ++ (value ++ rest)) →
      signature_read_der_integer_value (pre ++ suffix) pre.length =
        (magnitudeOf value).map fun magnitude =>
          (pre.length + 1 + (derLength value.length).length + value.length - magnitude.length,
            magnitude.length, pre.length + 1 + (derLength value.length).length + value.length) := by
    intro value rest hlt hne hsuffix
    have hlength : signature_read_der_length (pre ++ suffix) (pre.length + 1) =
        some (value.length, pre.length + 1 + (derLength value.length).length) := by
      have h := (@signature_read_der_length_iff (pre ++ [0x02])
        (derLength value.length ++ (value ++ rest)) value.length
        (pre.length + 1 + (derLength value.length).length)).mpr
        ⟨hlt, by rw [List.length_append]; rfl, _, rfl⟩
      rw [List.length_append, List.append_assoc, List.singleton_append, ← hsuffix] at h
      exact h
    have hsplit : pre ++ suffix = (pre ++ 0x02 :: derLength value.length) ++ (value ++ rest) := by
      rw [hsuffix, List.append_assoc, List.cons_append]
    have hbefore : (pre ++ 0x02 :: derLength value.length).length =
        pre.length + 1 + (derLength value.length).length := by
      rw [List.length_append, List.length_cons]
      omega
    have htag : (pre ++ suffix).getD pre.length 0 = 0x02 := by
      have h := getD_after pre suffix 0
      rw [hsuffix] at h ⊢
      exact h
    have hroom' : (pre ++ suffix).length =
        pre.length + 1 + (derLength value.length).length + value.length + rest.length := by
      rw [hsplit, List.length_append, hbefore, List.length_append]
      omega
    have hpos := List.length_pos_iff.mpr hne
    have hcontents := @read_contents (pre ++ 0x02 :: derLength value.length) value rest hne
    rw [← hsplit, hbefore] at hcontents
    unfold signature_read_der_integer_value
    rw [if_neg (by rw [htag]; simp only [ne_eq, not_true_eq_false, or_false]; omega), hlength]
    simp only [Option.bind_eq_bind, Option.bind_some]
    rw [if_neg (by omega)]
    exact hcontents
  constructor
  · intro h
    have hstart := h
    unfold signature_read_der_integer_value at hstart
    split at hstart
    · cases hstart
    rename_i htag
    obtain ⟨⟨encoded_length, after⟩, hlength, hstart⟩ := Option.bind_eq_some_iff.mp hstart
    dsimp only at hstart
    split at hstart
    · cases hstart
    rename_i hsize
    -- the tag and the length are those of an integer, so its contents can be named
    cases suffix with
    | nil =>
      refine absurd (.inl ?_) htag
      rw [List.append_nil]
    | cons tag body =>
      have hhead : (pre ++ tag :: body).getD pre.length 0 = tag := getD_after pre (tag :: body) 0
      rw [hhead] at htag
      obtain rfl : tag = 0x02 := not_not.mp fun hne => htag (.inr hne)
      have hbefore : pre ++ 0x02 :: body = (pre ++ [0x02]) ++ body := by
        rw [List.append_assoc, List.singleton_append]
      have hone : (pre ++ [(0x02 : UInt8)]).length = pre.length + 1 := List.length_append
      rw [hbefore, ← hone, signature_read_der_length_iff] at hlength
      obtain ⟨hlt, rfl, rest, rfl⟩ := hlength
      rw [hone] at hsize
      have hle : encoded_length ≤ rest.length := by
        simp only [List.length_append, List.length_cons] at hsize
        omega
      have hvalue : (rest.take encoded_length).length = encoded_length := by
        rw [List.length_take, Nat.min_eq_left hle]
      have hne : rest.take encoded_length ≠ [] := by
        intro h0
        rw [h0, List.length_nil] at hvalue
        omega
      have hbody : 0x02 :: (derLength encoded_length ++ rest) =
          0x02 :: (derLength (rest.take encoded_length).length ++
            (rest.take encoded_length ++ rest.drop encoded_length)) := by
        rw [hvalue, List.take_append_drop]
      rw [hread (by rwa [hvalue]) hne hbody, Option.map_eq_some_iff] at h
      obtain ⟨magnitude, hm, h⟩ := h
      obtain ⟨n, hn, hcontents, rfl⟩ := magnitudeOf_iff.mp hm
      obtain ⟨hs, h⟩ := Prod.mk.inj h
      obtain ⟨hl, ho⟩ := Prod.mk.inj h
      have hinteger : (derInteger n).length =
          1 + (derLength encoded_length).length + encoded_length := by
        rw [derInteger_eq, ← hcontents, hvalue, List.length_cons, List.length_append, hvalue]
        omega
      rw [hvalue] at hs ho
      refine ⟨n, rest.drop encoded_length, hn, ?_, by omega, hl.symm, by omega⟩
      rw [derInteger_eq, ← hcontents, hvalue, List.cons_append, List.append_assoc,
        List.take_append_drop]
  · rintro ⟨n, rest, hn, rfl, rfl, rfl, rfl⟩
    have hlt : (derContents n).length < 256 ^ 8 := by
      rw [derInteger_eq] at hroom
      simp only [List.length_append, List.length_cons] at hroom
      omega
    have hbody : derInteger n ++ rest =
        0x02 :: (derLength (derContents n).length ++ (derContents n ++ rest)) := by
      rw [derInteger_eq, List.cons_append, List.append_assoc]
    have hinteger : (derInteger n).length =
        1 + (derLength (derContents n).length).length + (derContents n).length := by
      rw [derInteger_eq, List.length_cons, List.length_append]
      omega
    rw [hread hlt (derContents_ne_nil n) hbody, magnitudeOf_iff.mpr ⟨n, hn, rfl, rfl⟩,
      Option.map_some, hinteger]
    simp only [Nat.add_assoc]

/-! ## Bits -/

theorem bitLength_eq_size (n : Nat) : bitLength n = Nat.size n := by
  unfold bitLength
  split
  · rename_i h
    rw [h]
    rfl
  · rename_i h
    apply le_antisymm
    · exact Nat.lt_size.mpr (Nat.log2_self_le h)
    · exact Nat.size_le.mpr Nat.lt_log2_self

/-- The bits of a number are those of its first byte, and eight for each byte after it. -/
theorem size_of_least {b : UInt8} {bs : Bytes} (h : Least (b :: bs)) :
    Nat.size (natural (b :: bs)) = bs.length * 8 + Nat.size b.toNat := by
  have hb : 0 < b.toNat := by
    refine Nat.pos_of_ne_zero fun h0 => h ?_
    exact congrArg some (UInt8.toNat_inj.mp h0)
  have hlt := natural_lt bs
  have hpow : (256 : Nat) ^ bs.length = 2 ^ (bs.length * 8) := by
    rw [Nat.mul_comm, pow_mul]
    rfl
  rw [hpow] at hlt
  have hsize : 0 < Nat.size b.toNat := Nat.size_pos.mpr hb
  rw [natural_cons, hpow]
  apply le_antisymm
  · rw [Nat.size_le, pow_add]
    have hle : (b.toNat + 1) * 2 ^ (bs.length * 8) ≤ 2 ^ Nat.size b.toNat * 2 ^ (bs.length * 8) :=
      Nat.mul_le_mul_right _ (Nat.lt_size_self b.toNat)
    rw [Nat.add_mul, Nat.one_mul] at hle
    rw [Nat.mul_comm (2 ^ (bs.length * 8))]
    omega
  · obtain ⟨k, hk⟩ : ∃ k, Nat.size b.toNat = k + 1 := ⟨Nat.size b.toNat - 1, by omega⟩
    have hlow : 2 ^ k ≤ b.toNat := Nat.lt_size.mp (by omega)
    have hle : 2 ^ k * 2 ^ (bs.length * 8) ≤ b.toNat * 2 ^ (bs.length * 8) :=
      Nat.mul_le_mul_right _ hlow
    rw [hk, ← Nat.add_assoc, Nat.succ_le_iff, Nat.lt_size, pow_add, Nat.mul_comm (2 ^ (bs.length * 8))]
    omega

/-- The magnitude of an integer that was read has no zero to skip. -/
theorem skipZeros_least {pre rest : Bytes} {b : UInt8} {bs : Bytes} (h : Least (b :: bs)) :
    skipZeros (pre ++ (b :: bs ++ rest)) pre.length (bs.length + 1) =
      (pre.length, bs.length + 1) := by
  have hhead : (pre ++ (b :: bs ++ rest)).getD pre.length 0 = b := getD_after pre (b :: bs ++ rest) 0
  unfold skipZeros
  rw [hhead, if_neg fun hb => h (congrArg some hb)]

theorem leastBytes_pos {n : Nat} (hn : 0 < n) : ∃ b bs, leastBytes n = b :: bs := by
  cases h : leastBytes n with
  | nil =>
    have := leastBytes_eq_nil.mp h
    omega
  | cons b bs => exact ⟨b, bs, rfl⟩

theorem bit_length_of_magnitude {pre rest : Bytes} {n : Nat} (hn : 0 < n)
    (hroom : (leastBytes n).length < 2 ^ 28) :
    signature_bit_length_from_big_endian (pre ++ (leastBytes n ++ rest)) pre.length
      (leastBytes n).length = Nat.size n := by
  obtain ⟨b, bs, hbytes⟩ := leastBytes_pos hn
  have hleast := least_leastBytes n
  have hnat := natural_leastBytes n
  rw [hbytes] at hleast hnat hroom
  have hhead : (pre ++ (b :: bs ++ rest)).getD pre.length 0 = b := getD_after pre (b :: bs ++ rest) 0
  have hsmall : Nat.size b.toNat ≤ 8 := Nat.size_le.mpr b.toNat_lt
  rw [List.length_cons] at hroom
  unfold signature_bit_length_from_big_endian
  rw [hbytes, List.length_cons, skipZeros_least hleast]
  dsimp only
  rw [hhead, bitLength_eq_size, ← hnat, size_of_least hleast, Nat.mod_eq_of_lt (by omega)]

/-- The exponents that are allowed are odd, and not one. -/
theorem exponentAllowed_of_magnitude {pre rest : Bytes} {n : Nat} (hn : 0 < n) :
    exponentAllowed (pre ++ (leastBytes n ++ rest)) pre.length (leastBytes n).length = true ↔
      n % 2 = 1 ∧ 3 ≤ n := by
  obtain ⟨b, bs, hbytes⟩ := leastBytes_pos hn
  have hleast := least_leastBytes n
  have hnat := natural_leastBytes n
  rw [hbytes] at hleast hnat
  have hlast : (pre ++ (b :: bs ++ rest)).getD (pre.length + bs.length) 0 =
      (b :: bs).getLast (List.cons_ne_nil b bs) := by
    rw [getD_after, List.getD_append _ _ _ _ (by simp), List.getD_eq_getElem _ _ (by simp),
      List.getLast_eq_getElem]
    simp
  have hmod : n % 256 = ((b :: bs).getLast (List.cons_ne_nil b bs)).toNat := by
    have hb := ((b :: bs).getLast (List.cons_ne_nil b bs)).toNat_lt
    conv at hnat => lhs; rw [← List.dropLast_append_getLast (List.cons_ne_nil b bs)]
    rw [natural_append, natural_cons, natural_nil] at hnat
    simp only [List.length_singleton, List.length_nil, pow_one, pow_zero, Nat.mul_one,
      Nat.add_zero] at hnat
    omega
  unfold exponentAllowed
  rw [hbytes, List.length_cons, skipZeros_least hleast]
  dsimp only
  rw [hlast, ← hmod]
  simp only [Nat.and_one_is_mod, ne_eq, Bool.and_eq_true, decide_eq_true_eq, Bool.not_eq_true',
    Bool.and_eq_false_iff, decide_eq_false_iff_not]
  cases bs with
  | nil =>
    have hlt : n < 256 := by
      rw [← hnat]
      exact natural_lt [b]
    simp only [List.length_nil, Nat.zero_add, not_true_eq_false, false_or]
    omega
  | cons c cs =>
    have hge := le_natural_of_least hleast
    rw [hnat, List.length_cons, pow_succ] at hge
    have hpos : 0 < 256 ^ cs.length := Nat.pow_pos (by decide)
    simp only [List.length_cons]
    omega

/-! ## Keys -/

theorem derInteger_ends {n : Nat} (hn : 0 < n) : ∃ front, derInteger n = front ++ leastBytes n := by
  obtain ⟨b, bs, hbytes⟩ := leastBytes_pos hn
  refine ⟨0x02 :: (derLength (derContents n).length ++ if 0x80 ≤ b.toNat then [0] else []), ?_⟩
  rw [derInteger_eq, hbytes, List.cons_append, List.append_assoc, ← derContents_eq_leastBytes hbytes]

theorem derSequence_eq (body : Bytes) :
    derSequence body = (0x30 :: derLength body.length) ++ body := rfl

/-- A key that is read is the strict encoding of two positive numbers. -/
theorem readPkcs1_iff {der : Bytes} {modulus exponent : Nat × Nat} (hroom : der.length < 256 ^ 8) :
    readPkcs1 der = some (modulus, exponent) ↔
      ∃ n e, 0 < n ∧ 0 < e ∧ der = derSequence (derInteger n ++ derInteger e) ∧
        modulus = (der.length - (derInteger e).length - (leastBytes n).length,
          (leastBytes n).length) ∧
        exponent = (der.length - (leastBytes e).length, (leastBytes e).length) := by
  constructor
  · intro h
    unfold readPkcs1 at h
    split at h
    · cases h
    rename_i htag
    obtain ⟨⟨sequence_length, offset⟩, hlength, h⟩ := Option.bind_eq_some_iff.mp h
    dsimp only at h
    split at h
    · cases h
    rename_i hsize
    obtain ⟨⟨ms, ml, offset₁⟩, hm, h⟩ := Option.bind_eq_some_iff.mp h
    obtain ⟨⟨es, el, offset₂⟩, he, h⟩ := Option.bind_eq_some_iff.mp h
    dsimp only at h he
    split at h
    · cases h
    rename_i hend
    obtain ⟨rfl, rfl⟩ := Prod.mk.inj (Option.some.inj h)
    cases der with
    | nil => exact absurd (.inl (le_refl 0)) htag
    | cons tag rest =>
      have htag' : tag = 0x30 := not_not.mp fun hne => htag (.inr hne)
      subst htag'
      obtain ⟨hlt, rfl, body, rfl⟩ := (@signature_read_der_length_iff [0x30] rest _ _).mp hlength
      have hbody : sequence_length = body.length := by
        have := not_not.mp hsize
        simp only [List.length_cons, List.length_append, List.length_nil] at this
        omega
      subst hbody
      -- what follows each part is read after the bytes up to its end
      have hsplit : 0x30 :: (derLength body.length ++ body) =
          (0x30 :: derLength body.length) ++ body := rfl
      have hoffset : [(0x30 : UInt8)].length + (derLength body.length).length =
          (0x30 :: derLength body.length).length := by
        simp only [List.length_cons, List.length_nil]
        omega
      rw [hoffset, hsplit] at hm
      rw [hsplit] at he hroom hend
      obtain ⟨n, afterN, hn, rfl, rfl, rfl, rfl⟩ :=
        (signature_read_der_integer_value_iff hroom).mp hm
      have hsplit' : ∀ front : Bytes, front ++ (derInteger n ++ afterN) =
          (front ++ derInteger n) ++ afterN := fun front => (List.append_assoc ..).symm
      rw [hsplit', ← List.length_append] at he
      rw [hsplit'] at hroom hend
      obtain ⟨e, afterE, hepos, rfl, rfl, rfl, rfl⟩ :=
        (signature_read_der_integer_value_iff hroom).mp he
      have hnil : afterE = [] := by
        apply List.eq_nil_of_length_eq_zero
        have := not_not.mp hend
        simp only [List.length_append] at this
        omega
      subst hnil
      simp only [List.append_nil]
      refine ⟨n, e, hn, hepos, rfl, ?_, ?_⟩
      · apply congrArg (fun start => (start, (leastBytes n).length))
        simp only [List.length_append, List.length_cons]
        omega
      · apply congrArg (fun start => (start, (leastBytes e).length))
        simp only [List.length_append, List.length_cons]
        omega
  · rintro ⟨n, e, hn, he, rfl, rfl, rfl⟩
    generalize hbody : derInteger n ++ derInteger e = body at hroom ⊢
    have hlt : body.length < 256 ^ 8 := by
      refine lt_of_le_of_lt ?_ hroom
      simp only [derSequence_eq, List.length_cons, List.length_append]
      omega
    have hlength : signature_read_der_length (derSequence body) 1 =
        some (body.length, 1 + (derLength body.length).length) :=
      (@signature_read_der_length_iff [0x30] (derLength body.length ++ body) _ _).mpr
        ⟨hlt, rfl, body, rfl⟩
    have htotal : (derSequence body).length = 1 + (derLength body.length).length + body.length := by
      simp only [derSequence_eq, List.length_cons, List.length_append]
      omega
    have htag : ¬ ((derSequence body).length ≤ 0 ∨ (derSequence body).getD 0 0 ≠ 0x30) := by
      rw [htotal, derSequence_eq, List.cons_append, List.getD_cons_zero]
      simp
    have hlenBody : body.length = (derInteger n).length + (derInteger e).length := by
      rw [← hbody, List.length_append]
    have hfront : (0x30 :: derLength body.length).length = 1 + (derLength body.length).length :=
      Nat.add_comm _ _
    have hm : signature_read_der_integer_value (derSequence body) (1 + (derLength body.length).length) =
        some (1 + (derLength body.length).length + (derInteger n).length - (leastBytes n).length,
          (leastBytes n).length, 1 + (derLength body.length).length + (derInteger n).length) := by
      rw [derSequence_eq] at hroom
      have h := (signature_read_der_integer_value_iff hroom).mpr
        ⟨n, derInteger e, hn, hbody.symm, rfl, rfl, rfl⟩
      rw [hfront, ← derSequence_eq] at h
      exact h
    have he' : signature_read_der_integer_value (derSequence body)
        (1 + (derLength body.length).length + (derInteger n).length) =
        some ((derSequence body).length - (leastBytes e).length, (leastBytes e).length,
          (derSequence body).length) := by
      have hsplit : derSequence body =
          (0x30 :: derLength body.length ++ derInteger n) ++ derInteger e := by
        rw [List.append_assoc, hbody, derSequence_eq]
      have hfront' : (0x30 :: derLength body.length ++ derInteger n).length =
          1 + (derLength body.length).length + (derInteger n).length := by
        rw [List.length_append, hfront]
      rw [hsplit] at hroom
      have h := (signature_read_der_integer_value_iff hroom).mpr
        ⟨e, [], he, (List.append_nil _).symm, rfl, rfl, rfl⟩
      rw [← hsplit, hfront', Nat.add_assoc _ (derInteger n).length, ← hlenBody, ← htotal] at h
      exact h
    unfold readPkcs1
    rw [if_neg htag, hlength]
    simp only [Option.bind_eq_bind, Option.bind_some]
    rw [if_neg (by omega), hm]
    simp only [Option.bind_some]
    rw [he']
    simp only [Option.bind_some]
    rw [if_neg (not_not.mpr rfl)]
    have hplace : 1 + (derLength body.length).length + (derInteger n).length =
        (derSequence body).length - (derInteger e).length := by omega
    rw [hplace]
    rfl

/-- The strict encoding of a modulus and of an exponent that is odd and not one. -/
def StrictPublicKey (der : Bytes) (n e : Nat) : Prop :=
  1 ≤ n ∧ e % 2 = 1 ∧ 3 ≤ e ∧ der = derSequence (derInteger n ++ derInteger e)

theorem bits_of_encoding {n e : Nat} (hn : 0 < n) (he : 0 < e)
    (hsize : (derSequence (derInteger n ++ derInteger e)).length < 2 ^ 28) :
    rsa_public_key_bits_from_pkcs1_der (derSequence (derInteger n ++ derInteger e)) =
      if e % 2 = 1 ∧ 3 ≤ e then Nat.size n else 0 := by
  obtain ⟨frontN, hfrontN⟩ := derInteger_ends hn
  obtain ⟨frontE, hfrontE⟩ := derInteger_ends he
  generalize hder : derSequence (derInteger n ++ derInteger e) = der at hsize
  generalize hhead : 0x30 :: derLength (derInteger n ++ derInteger e).length = head
  have hread := (readPkcs1_iff (hsize.trans (by decide))).mpr ⟨n, e, hn, he, hder.symm, rfl, rfl⟩
  have hmodulus : der = (head ++ frontN) ++ (leastBytes n ++ derInteger e) := by
    rw [← hder, ← hhead, derSequence_eq, hfrontN]
    simp only [List.cons_append, List.append_assoc]
  have hexponent : der = (head ++ (derInteger n ++ frontE)) ++ (leastBytes e ++ []) := by
    rw [← hder, ← hhead, derSequence_eq, hfrontE]
    simp only [List.cons_append, List.append_assoc, List.append_nil]
  have hlenN := congrArg List.length hmodulus
  have hlenE := congrArg List.length hexponent
  simp only [List.length_append] at hlenN
  simp only [List.length_append, List.length_nil, Nat.add_zero] at hlenE
  have hallowed := @exponentAllowed_of_magnitude (head ++ (derInteger n ++ frontE)) [] e he
  have hbits := @bit_length_of_magnitude (head ++ frontN) (derInteger e) n hn (by omega)
  have hstartN : der.length - (derInteger e).length - (leastBytes n).length =
      (head ++ frontN).length := by
    rw [List.length_append]
    omega
  have hstartE : der.length - (leastBytes e).length = (head ++ (derInteger n ++ frontE)).length := by
    simp only [List.length_append]
    omega
  rw [← hexponent] at hallowed
  rw [← hmodulus] at hbits
  unfold rsa_public_key_bits_from_pkcs1_der
  rw [hread]
  dsimp only
  rw [hstartN, hstartE, hbits]
  by_cases h : e % 2 = 1 ∧ 3 ≤ e
  · rw [if_pos (hallowed.mpr h), if_pos h]
  · rw [if_neg fun ha => h (hallowed.mp ha), if_neg h]

/-- A key has bits exactly when it is a strict encoding, and then those of its modulus. -/
theorem rsa_public_key_bits_iff {der : Bytes} (hsize : der.length < 2 ^ 28) :
    (rsa_public_key_bits_from_pkcs1_der der ≠ 0 ↔ ∃ n e, StrictPublicKey der n e) ∧
      ∀ n e, StrictPublicKey der n e → rsa_public_key_bits_from_pkcs1_der der = Nat.size n := by
  have hbits : ∀ n e, StrictPublicKey der n e →
      rsa_public_key_bits_from_pkcs1_der der = Nat.size n := by
    rintro n e ⟨hn, hodd, hge, rfl⟩
    rw [bits_of_encoding (by omega) (by omega) hsize, if_pos ⟨hodd, hge⟩]
  refine ⟨⟨?_, ?_⟩, hbits⟩
  · intro h
    cases hread : readPkcs1 der with
    | none =>
      unfold rsa_public_key_bits_from_pkcs1_der at h
      rw [hread] at h
      exact absurd rfl h
    | some found =>
      obtain ⟨modulus, exponent⟩ := found
      obtain ⟨n, e, hn, he, rfl, -, -⟩ := (readPkcs1_iff (hsize.trans (by decide))).mp hread
      rw [bits_of_encoding hn he hsize] at h
      by_cases hok : e % 2 = 1 ∧ 3 ≤ e
      · exact ⟨n, e, hn, hok.1, hok.2, rfl⟩
      · rw [if_neg hok] at h
        exact absurd rfl h
  · rintro ⟨n, e, h⟩
    rw [hbits n e h]
    exact (Nat.size_pos.mpr h.1).ne'

/-! ## Requests -/

/-- What the policy says of a request and of the key that it is verified under. -/
structure RequestAllowed (request : SignatureVerificationRequest) (der : Bytes) : Prop where
  selected : signature_select_public_key_der request = some der
  key_id : public_key_id_from_der der = request.key_id
  key_allowed : request.key_id ∈ request.policy.allowed_key_ids
  not_retired : request.key_id ∉ request.policy.retired_key_ids
  algorithm : request.declared_algorithm = LCC_SIGNATURE_ALGORITHM_RSA_PKCS1_SHA256
  algorithm_allowed : request.declared_algorithm ∈ request.policy.allowed_algorithms
  license_version : request.license_version = request.policy.license_version
  bits : request.policy.min_public_key_bits ≤ rsa_public_key_bits_from_pkcs1_der der

/-- A key of the ring is under its own id, as every record of the ring is. -/
theorem key_id_of_record {public_key : SignaturePublicKey} {min_public_key_bits : Nat}
    (h : signature_public_key_record_allowed public_key min_public_key_bits = true) :
    public_key_id_from_der public_key.public_key_der = public_key.key_id := by
  unfold signature_public_key_record_allowed at h
  split at h
  · cases h
  split at h
  · cases h
  rename_i hid
  exact (not_not.mp hid).symm

theorem key_id_of_selected {request : SignatureVerificationRequest} {der : Bytes}
    (hring : signature_public_key_ring_allowed request.policy = true)
    (hexternal : request.public_key_der ≠ [] →
      request.key_id = public_key_id_from_der request.public_key_der)
    (h : signature_select_public_key_der request = some der) :
    public_key_id_from_der der = request.key_id := by
  unfold signature_select_public_key_der at h
  split at h
  · rename_i hne
    obtain rfl := Option.some.inj h
    exact (hexternal hne).symm
  split at h
  · cases h
  rename_i public_key hfind
  split at h
  · cases h
  obtain rfl := Option.some.inj h
  have hid : public_key.key_id = request.key_id := by simpa using List.find?_some hfind
  unfold signature_public_key_ring_allowed at hring
  have hrecord := List.all_eq_true.mp (Bool.and_eq_true_iff.mp hring).2 public_key
    (List.mem_of_find?_eq_some hfind)
  rw [key_id_of_record hrecord, hid]

theorem request_allowed {request : SignatureVerificationRequest}
    (h : signature_request_allowed request = true) : ∃ der, RequestAllowed request der := by
  unfold signature_request_allowed at h
  dsimp only at h
  split at h
  · cases h
  rename_i hversion
  split at h
  · cases h
  rename_i hring
  split at h
  · cases h
  rename_i halgorithm
  split at h
  · cases h
  rename_i hmem
  split at h
  · cases h
  rename_i hretired
  split at h
  · cases h
  rename_i hallowed
  split at h
  · cases h
  rename_i hexternal
  split at h
  · cases h
  rename_i der hder
  simp only [not_or, not_not] at hversion hring hmem hallowed halgorithm
  have hid : public_key_id_from_der der = request.key_id := by
    refine key_id_of_selected hring.2.2.2 (fun hne => ?_) hder
    by_contra hid
    exact hexternal ⟨hne, .inr hid⟩
  refine ⟨der, hder, hid, hallowed, hretired, halgorithm, hmem, hversion.1, ?_⟩
  rw [Bool.not_eq_true', Bool.and_eq_false_iff, decide_eq_false_iff_not,
    decide_eq_false_iff_not] at h
  omega

/-- The bits of a key are those of the modulus of a strict encoding, found with
reads of the input only, and a request that is allowed selects a key of its id,
of the policy, and of the bits that the policy asks for. -/
theorem public_keys_and_requests :
    (∀ der : Bytes, der.length < 2 ^ 28 →
      checked_public_key_bits der ≠ .error .outside ∧
      (∀ bits, checked_public_key_bits der = .ok bits →
        bits = rsa_public_key_bits_from_pkcs1_der der) ∧
      (rsa_public_key_bits_from_pkcs1_der der ≠ 0 ↔ ∃ n e, StrictPublicKey der n e) ∧
      ∀ n e, StrictPublicKey der n e → rsa_public_key_bits_from_pkcs1_der der = Nat.size n) ∧
    ∀ request : SignatureVerificationRequest, signature_request_allowed request = true →
      ∃ der, RequestAllowed request der := by
  refine ⟨fun der hsize => ?_, fun request h => request_allowed h⟩
  obtain ⟨hiff, hbits⟩ := rsa_public_key_bits_iff hsize
  rcases checked_public_key_bits_ok der with hok | ⟨hreject, -⟩
  · refine ⟨by rw [hok]; simp, fun bits h => ?_, hiff, hbits⟩
    rw [hok] at h
    exact (Except.ok.inj h).symm
  · refine ⟨by rw [hreject]; decide, fun bits h => ?_, hiff, hbits⟩
    rw [hreject] at h
    cases h

/-- A modulus of twelve bits and the exponent seventeen. -/
def smallKey : Bytes := [0x30, 0x07, 0x02, 0x02, 0x0c, 0xa1, 0x02, 0x01, 0x11]

/-- A request under the small key, which the policy holds and allows. -/
def smallRequest : SignatureVerificationRequest where
  payload := [1]
  signature := [2]
  public_key_der := []
  declared_algorithm := LCC_SIGNATURE_ALGORITHM_RSA_PKCS1_SHA256
  key_id := public_key_id_from_der smallKey
  license_version := 200
  policy := {
    license_version := 200
    allowed_algorithms := [LCC_SIGNATURE_ALGORITHM_RSA_PKCS1_SHA256]
    allowed_key_ids := [public_key_id_from_der smallKey]
    retired_key_ids := []
    public_keys := [⟨public_key_id_from_der smallKey, smallKey, 12⟩]
    allow_external_public_key_der := false
    min_public_key_bits := 12 }

set_option maxRecDepth 10000 in
theorem the_small_key_is_allowed :
    (∃ n e, StrictPublicKey smallKey n e) ∧ rsa_public_key_bits_from_pkcs1_der smallKey = 12 ∧
      signature_request_allowed smallRequest = true ∧ ∃ der, RequestAllowed smallRequest der := by
  obtain ⟨hkeys, hrequests⟩ := public_keys_and_requests
  have hbits : rsa_public_key_bits_from_pkcs1_der smallKey = 12 := by decide
  have hne : rsa_public_key_bits_from_pkcs1_der smallKey ≠ 0 := by
    rw [hbits]
    decide
  have hallowed : signature_request_allowed smallRequest = true := by decide
  exact ⟨(hkeys smallKey (by decide)).2.2.1.mp hne, hbits, hallowed,
    hrequests smallRequest hallowed⟩

end Licensecc.Token
