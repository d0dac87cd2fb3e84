-- The laws of numbers written as bytes, the high byte first: texts of one size
-- stand in the order of their numbers, and a number has one text that starts
-- with no zero.
import Licensecc.Codec.Utf8
import Mathlib.Data.Nat.Digits.Lemmas
import Mathlib.Tactic.Ring

namespace Licensecc.Codec

/-- The number that some bytes say. -/
def natural : Bytes → Nat
  | [] => 0
  | b :: bs => b.toNat * 256 ^ bs.length + natural bs

@[simp] theorem natural_nil : natural [] = 0 := rfl

theorem natural_cons (b : UInt8) (bs : Bytes) :
    natural (b :: bs) = b.toNat * 256 ^ bs.length + natural bs := rfl

theorem natural_lt (bs : Bytes) : natural bs < 256 ^ bs.length := by
  induction bs with
  | nil => simp
  | cons b bs ih =>
    have hb := b.toNat_lt
    have hle : (b.toNat + 1) * 256 ^ bs.length ≤ 256 * 256 ^ bs.length :=
      Nat.mul_le_mul_right _ (by omega)
    rw [natural_cons, List.length_cons, pow_succ']
    rw [Nat.add_mul, Nat.one_mul] at hle
    omega

theorem natural_append (as bs : Bytes) :
    natural (as ++ bs) = natural as * 256 ^ bs.length + natural bs := by
  induction as with
  | nil => simp
  | cons a as ih =>
    rw [List.cons_append, natural_cons, natural_cons, ih, List.length_append, pow_add]
    ring

theorem natural_zeros (k : Nat) (bs : Bytes) :
    natural (List.replicate k 0 ++ bs) = natural bs := by
  induction k with
  | zero => rfl
  | succ k ih => simpa [List.replicate_succ, natural_cons] using ih

theorem natural_eq_ofDigits (bs : Bytes) :
    natural bs = Nat.ofDigits 256 (bs.map UInt8.toNat).reverse := by
  induction bs with
  | nil => rfl
  | cons b bs ih =>
    rw [natural_cons, ih, List.map_cons, Nat.ofDigits_reverse_cons, List.length_map]
    ring

/-! ## The order -/

/-- `std::lexicographical_compare` -/
def lexicographical_compare : Bytes → Bytes → Bool
  | [], [] => false
  | [], _ :: _ => true
  | _ :: _, [] => false
  | a :: as, b :: bs => a < b || (a = b && lexicographical_compare as bs)

theorem lexicographical_compare_iff {as bs : Bytes} (h : as.length = bs.length) :
    lexicographical_compare as bs = true ↔ natural as < natural bs := by
  induction as generalizing bs with
  | nil =>
    cases bs with
    | nil => simp [lexicographical_compare]
    | cons b bs => simp at h
  | cons a as ih =>
    cases bs with
    | nil => simp at h
    | cons b bs =>
      have hlen : as.length = bs.length := Nat.succ.inj h
      have ha := natural_lt as
      have hb := natural_lt bs
      rw [hlen] at ha
      simp only [lexicographical_compare, natural_cons, hlen, Bool.or_eq_true, Bool.and_eq_true,
        decide_eq_true_eq, ih hlen]
      have hnext : ∀ m n : Nat, m < n → m * 256 ^ bs.length + 256 ^ bs.length ≤ n * 256 ^ bs.length := by
        intro m n hmn
        rw [← Nat.succ_mul]
        exact Nat.mul_le_mul_right _ hmn
      rcases lt_trichotomy a.toNat b.toNat with hlt | heq | hgt
      · have := hnext _ _ hlt
        simp only [UInt8.lt_iff_toNat_lt, hlt, true_or, true_iff]
        omega
      · obtain rfl := UInt8.toNat_inj.mp heq
        simp
      · have := hnext _ _ hgt
        have hne : a ≠ b := by
          rintro rfl
          omega
        simp only [UInt8.lt_iff_toNat_lt, hne, false_and, or_false]
        omega

/-- Two texts of one size that say the same number are the same. -/
theorem natural_inj {as bs : Bytes} (hlen : as.length = bs.length) (h : natural as = natural bs) :
    as = bs := by
  induction as generalizing bs with
  | nil => exact (List.length_eq_zero_iff.mp hlen.symm).symm
  | cons a as ih =>
    cases bs with
    | nil => simp at hlen
    | cons b bs =>
      have hlen' : as.length = bs.length := Nat.succ.inj hlen
      have ha := natural_lt as
      have hb := natural_lt bs
      rw [natural_cons, natural_cons, hlen'] at h
      rw [hlen'] at ha
      have hpos : 0 < 256 ^ bs.length := Nat.pow_pos (by decide)
      have hdiv : ∀ m k : Nat, k < 256 ^ bs.length → (m * 256 ^ bs.length + k) / 256 ^ bs.length = m := by
        intro m k hk
        rw [Nat.mul_comm, Nat.mul_add_div hpos, Nat.div_eq_of_lt hk, Nat.add_zero]
      have hhead : a.toNat = b.toNat := by
        rw [← hdiv a.toNat _ ha, h, hdiv _ _ hb]
      obtain rfl := UInt8.toNat_inj.mp hhead
      rw [ih hlen' (Nat.add_left_cancel h)]

/-! ## The least text of a number -/

/-- The bytes of a number, with no zero in front. -/
def leastBytes (n : Nat) : Bytes := (Nat.digits 256 n).reverse.map UInt8.ofNat

theorem natural_leastBytes (n : Nat) : natural (leastBytes n) = n := by
  have hmap : (leastBytes n).map UInt8.toNat = (Nat.digits 256 n).reverse := by
    unfold leastBytes
    rw [List.map_map]
    conv => rhs; rw [← List.map_id (Nat.digits 256 n).reverse]
    refine List.map_congr_left fun d hd => ?_
    have hlt := Nat.digits_lt_base (by decide : 1 < 256) (List.mem_reverse.mp hd)
    simpa using hlt
  rw [natural_eq_ofDigits, hmap, List.reverse_reverse, Nat.ofDigits_digits]

/-- The bytes start with no zero. -/
def Least (bs : Bytes) : Prop := bs.head? ≠ some 0

instance (bs : Bytes) : Decidable (Least bs) := inferInstanceAs (Decidable (_ ≠ _))

theorem least_leastBytes (n : Nat) : Least (leastBytes n) := by
  unfold Least leastBytes
  intro h
  rw [List.head?_map, List.head?_reverse, Option.map_eq_some_iff] at h
  obtain ⟨d, hd, hzero⟩ := h
  by_cases hn : n = 0
  · subst hn
    simp at hd
  · have hne : Nat.digits 256 n ≠ [] := Nat.digits_ne_nil_iff_ne_zero.mpr hn
    have hlast := Nat.getLast_digit_ne_zero 256 hn
    rw [List.getLast?_eq_some_getLast hne] at hd
    obtain rfl := Option.some.inj hd
    have hlt := Nat.digits_lt_base (by decide : 1 < 256) (List.getLast_mem hne)
    have htoNat := congrArg UInt8.toNat hzero
    rw [UInt8.toNat_ofNat', Nat.mod_eq_of_lt hlt] at htoNat
    exact hlast htoNat

theorem le_natural_of_least {b : UInt8} {bs : Bytes} (h : Least (b :: bs)) :
    256 ^ bs.length ≤ natural (b :: bs) := by
  have hb : b.toNat ≠ 0 := by
    intro hb
    exact h (congrArg some (UInt8.toNat_inj.mp hb))
  rw [natural_cons]
  calc 256 ^ bs.length = 1 * 256 ^ bs.length := (Nat.one_mul _).symm
    _ ≤ b.toNat * 256 ^ bs.length := Nat.mul_le_mul_right _ (by omega)
    _ ≤ _ := Nat.le_add_right _ _

theorem length_le_of_least {as bs : Bytes} (h : Least as) (hlt : natural as ≤ natural bs) :
    as.length ≤ bs.length := by
  cases as with
  | nil => exact Nat.zero_le _
  | cons a as =>
    have hle := le_natural_of_least h
    have hpow : 256 ^ as.length < 256 ^ bs.length :=
      lt_of_le_of_lt (hle.trans hlt) (natural_lt bs)
    exact (Nat.pow_lt_pow_iff_right (by decide)).mp hpow

/-- Two texts that start with no zero and say the same number are the same. -/
theorem natural_inj_of_least {as bs : Bytes} (ha : Least as) (hb : Least bs)
    (h : natural as = natural bs) : as = bs :=
  natural_inj (Nat.le_antisymm (length_le_of_least ha h.le) (length_le_of_least hb h.ge)) h

theorem leastBytes_natural {bs : Bytes} (h : Least bs) : leastBytes (natural bs) = bs :=
  natural_inj_of_least (least_leastBytes _) h (natural_leastBytes _)

theorem natural_eq_zero_iff {bs : Bytes} : natural bs = 0 ↔ ∀ b ∈ bs, b = 0 := by
  induction bs with
  | nil => simp
  | cons b bs ih =>
    have hpos : 0 < 256 ^ bs.length := Nat.pow_pos (by decide)
    rw [natural_cons, Nat.add_eq_zero_iff, Nat.mul_eq_zero, ih, List.forall_mem_cons]
    simp only [hpos.ne', or_false]
    exact and_congr_left fun _ => ⟨fun h => UInt8.toNat_inj.mp h, fun h => by rw [h]; rfl⟩

theorem leastBytes_eq_nil {n : Nat} : leastBytes n = [] ↔ n = 0 := by
  constructor
  · intro h
    have hn := natural_leastBytes n
    rw [h] at hn
    exact hn.symm
  · rintro rfl
    rfl

/-- Without its zeros in front, a text is the least of its number. -/
theorem length_leastBytes_le (bs : Bytes) : (leastBytes (natural bs)).length ≤ bs.length :=
  length_le_of_least (least_leastBytes _) (natural_leastBytes _).le

end Licensecc.Codec
