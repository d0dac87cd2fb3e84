-- The laws of strict DER, as far as keys and signatures need it: lengths,
-- integers that are not negative, and sequences. Each has one spelling.
import Licensecc.Codec.Natural

namespace Licensecc.Codec

/-- The length that stands before some contents. -/
def derLength (n : Nat) : Bytes :=
  if n < 128 then [UInt8.ofNat n]
  else UInt8.ofNat (128 + (leastBytes n).length) :: leastBytes n

/-- The contents of an integer: its least bytes, and a zero where they would look
negative or are none. -/
def derContents (n : Nat) : Bytes :=
  match leastBytes n with
  | [] => [0]
  | b :: bs => if 0x80 ≤ b.toNat then 0 :: b :: bs else b :: bs

def derInteger (n : Nat) : Bytes := 0x02 :: derLength (derContents n).length ++ derContents n

def derSequence (body : Bytes) : Bytes := 0x30 :: derLength body.length ++ body

/-! ## Contents -/

/-- What a strict reader asks of the contents of an integer. -/
def StrictContents : Bytes → Prop
  | [] => False
  | [b] => b.toNat < 0x80
  | b :: c :: _ => b.toNat < 0x80 ∧ (b = 0 → 0x80 ≤ c.toNat)

theorem natural_derContents (n : Nat) : natural (derContents n) = n := by
  have hn := natural_leastBytes n
  unfold derContents
  split
  · rename_i h
    rw [h] at hn
    exact hn
  · rename_i b bs h
    rw [h] at hn
    split
    · rw [natural_cons, UInt8.toNat_zero, Nat.zero_mul, Nat.zero_add, hn]
    · exact hn

theorem strict_derContents (n : Nat) : StrictContents (derContents n) := by
  have hleast := least_leastBytes n
  unfold derContents
  split
  · unfold StrictContents
    decide
  · rename_i b bs h
    rw [h] at hleast
    have hb : b ≠ 0 := fun hb => hleast (congrArg some hb)
    split
    · rename_i hhigh
      exact ⟨by decide, fun _ => hhigh⟩
    · rename_i hlow
      cases bs with
      | nil => exact Nat.lt_of_not_le hlow
      | cons c bs => exact ⟨Nat.lt_of_not_le hlow, fun h0 => absurd h0 hb⟩

/-- Strict contents are those of their number. -/
theorem derContents_natural {bs : Bytes} (h : StrictContents bs) : derContents (natural bs) = bs := by
  match bs, h with
  | [b], h =>
    by_cases hb : b = 0
    · subst hb
      rfl
    · have hleast : Least [b] := fun h0 => hb (Option.some.inj h0)
      unfold derContents
      rw [leastBytes_natural hleast]
      exact if_neg (Nat.not_le.mpr h)
  | b :: c :: bs, ⟨hlow, hzero⟩ =>
    by_cases hb : b = 0
    · subst hb
      have hc : c ≠ 0 := by
        rintro rfl
        exact absurd (hzero rfl) (by decide)
      have hleast : Least (c :: bs) := fun h0 => hc (Option.some.inj h0)
      unfold derContents
      rw [natural_cons, UInt8.toNat_zero, Nat.zero_mul, Nat.zero_add, leastBytes_natural hleast]
      exact if_pos (hzero rfl)
    · have hleast : Least (b :: c :: bs) := fun h0 => hb (Option.some.inj h0)
      unfold derContents
      rw [leastBytes_natural hleast]
      exact if_neg (Nat.not_le.mpr hlow)

theorem derContents_ne_nil (n : Nat) : derContents n ≠ [] := by
  intro h
  have hstrict := strict_derContents n
  rw [h] at hstrict
  exact hstrict

theorem derContents_eq_leastBytes {n : Nat} {b : UInt8} {bs : Bytes} (h : leastBytes n = b :: bs) :
    derContents n = (if 0x80 ≤ b.toNat then [0] else []) ++ b :: bs := by
  unfold derContents
  rw [h]
  dsimp only
  split <;> rfl

theorem length_derContents_le (n : Nat) : (derContents n).length ≤ (leastBytes n).length + 1 := by
  cases h : leastBytes n with
  | nil =>
    obtain rfl := leastBytes_eq_nil.mp h
    decide
  | cons b bs =>
    rw [derContents_eq_leastBytes h, List.length_append]
    split
    · rw [List.length_singleton, Nat.add_comm]
    · simp

/-! ## Magnitudes -/

/-- The magnitude in the contents of an integer, which has no sign and no zero too many. -/
def magnitudeOf : Bytes → Option Bytes
  | [] => none
  | b :: bs =>
    if b.toNat &&& 0x80 ≠ 0 then none
    else if b = 0 then
      match bs with
      | [] => none
      | c :: cs => if c.toNat &&& 0x80 = 0 then none else some (c :: cs)
    else some (b :: bs)

set_option maxRecDepth 4000 in
theorem high_bit {b : UInt8} : b.toNat &&& 0x80 ≠ 0 ↔ 0x80 ≤ b.toNat := by
  have hall : ∀ n < 256, n &&& 0x80 ≠ 0 ↔ 0x80 ≤ n := by decide
  exact hall _ b.toNat_lt

/-- The contents that have a magnitude are those of a positive number. -/
theorem magnitudeOf_iff {value magnitude : Bytes} : magnitudeOf value = some magnitude ↔
    ∃ n, 0 < n ∧ value = derContents n ∧ magnitude = leastBytes n := by
  constructor
  · intro h
    refine ⟨natural value, ?_⟩
    unfold magnitudeOf at h
    split at h
    · cases h
    rename_i b bs
    split at h
    · cases h
    rename_i hbit
    have hlow : b.toNat < 0x80 := Nat.lt_of_not_le fun hb => hbit (high_bit.mpr hb)
    split at h
    · rename_i hb
      subst hb
      split at h
      · cases h
      rename_i c cs
      split at h
      · cases h
      rename_i hc
      have hhigh : 0x80 ≤ c.toNat := high_bit.mp hc
      obtain rfl := Option.some.inj h
      have hleast : Least (c :: cs) := by
        intro h0
        obtain rfl := Option.some.inj h0
        exact absurd hhigh (by decide)
      have hnat : natural (0 :: c :: cs) = natural (c :: cs) := natural_zeros 1 (c :: cs)
      have hstrict : StrictContents (0 :: c :: cs) := ⟨hlow, fun _ => hhigh⟩
      refine ⟨?_, (derContents_natural hstrict).symm, ?_⟩
      · rw [hnat]
        exact lt_of_lt_of_le (Nat.pow_pos (by decide)) (le_natural_of_least hleast)
      · rw [hnat, leastBytes_natural hleast]
    · rename_i hb
      obtain rfl := Option.some.inj h
      have hleast : Least (b :: bs) := fun h0 => hb (Option.some.inj h0)
      have hstrict : StrictContents (b :: bs) := by
        cases bs with
        | nil => exact hlow
        | cons c cs => exact ⟨hlow, fun h0 => absurd h0 hb⟩
      exact ⟨lt_of_lt_of_le (Nat.pow_pos (by decide)) (le_natural_of_least hleast),
        (derContents_natural hstrict).symm, (leastBytes_natural hleast).symm⟩
  · rintro ⟨n, hn, rfl, rfl⟩
    cases hbytes : leastBytes n with
    | nil =>
      have := leastBytes_eq_nil.mp hbytes
      omega
    | cons b bs =>
      have hleast := least_leastBytes n
      rw [hbytes] at hleast
      have hb : b ≠ 0 := fun hb => hleast (congrArg some hb)
      rw [derContents_eq_leastBytes hbytes]
      by_cases hhigh : 0x80 ≤ b.toNat
      · have hbit : b.toNat &&& 0x80 ≠ 0 := high_bit.mpr hhigh
        simp [magnitudeOf, hhigh, hbit]
      · have hbit : b.toNat &&& 0x80 = 0 := not_not.mp fun h => hhigh (high_bit.mp h)
        simp [magnitudeOf, hhigh, hbit, hb]

/-! ## Lengths -/

theorem derLength_short {n : Nat} (h : n < 128) : derLength n = [UInt8.ofNat n] := if_pos h

theorem derLength_long {n : Nat} (h : ¬ n < 128) :
    derLength n = UInt8.ofNat (128 + (leastBytes n).length) :: leastBytes n := if_neg h

/-- The contents of an integer of the spelling can be read off, and so can what follows it. -/
theorem derInteger_short {n : Nat} (h : (derContents n).length < 128) :
    derInteger n = 0x02 :: UInt8.ofNat (derContents n).length :: derContents n := by
  unfold derInteger
  rw [derLength_short h]
  rfl

end Licensecc.Codec
