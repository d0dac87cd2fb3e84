-- The laws of decimal numerals: a number has one numeral, the one without
-- leading zeros, and each such numeral is the numeral of its value.
import Licensecc.Codec.Utf8
import Mathlib.Data.List.Induction

namespace Licensecc.Codec

/-! ## Numerals of characters -/

/-- A numeral without leading zeros. -/
def isNumeral (s : List Char) : Bool :=
  s ≠ [] && s.all Char.isDigit && (s.length = 1 || s.head? ≠ some '0')

theorem isNumeral_iff {s : List Char} :
    isNumeral s = true ↔ s ≠ [] ∧ (∀ c ∈ s, c.isDigit) ∧ (s.length = 1 ∨ s.head? ≠ some '0') := by
  simp [isNumeral, and_assoc]

theorem isDigit_toNat {c : Char} (h : c.isDigit) : 48 ≤ c.toNat ∧ c.toNat ≤ 57 := by
  simp only [Char.isDigit, ge_iff_le, Bool.and_eq_true, decide_eq_true_eq] at h
  exact ⟨h.1, h.2⟩

theorem digitChar_sub {c : Char} (h : c.isDigit) : (c.toNat - 48).digitChar = c := by
  obtain ⟨h1, h2⟩ := isDigit_toNat h
  have hall : ∀ d < 10, (Nat.digitChar d).toNat = d + 48 := by decide
  apply Char.toNat_inj.mp
  rw [hall _ (by omega)]
  omega

theorem digitChar_toNat {d : Nat} (h : d < 10) : d.digitChar.toNat = d + 48 :=
  (show ∀ d < 10, (Nat.digitChar d).toNat = d + 48 by decide) d h

theorem value_snoc (s : List Char) (c : Char) :
    Nat.ofDigitChars 10 (s ++ [c]) 0 = 10 * Nat.ofDigitChars 10 s 0 + (c.toNat - 48) := by
  rw [Nat.ofDigitChars_append, Nat.ofDigitChars_cons, Nat.ofDigitChars_nil]
  rfl

/-- A numeral that does not start with a zero has a value above zero. -/
theorem value_pos {s : List Char} (hne : s ≠ []) (hd : ∀ c ∈ s, c.isDigit)
    (hz : s.head? ≠ some '0') : 0 < Nat.ofDigitChars 10 s 0 := by
  induction s using List.reverseRecOn with
  | nil => exact absurd rfl hne
  | append_singleton s c ih =>
    rw [value_snoc]
    by_cases hs : s = []
    · subst hs
      have hc : c.isDigit := hd c (by simp)
      obtain ⟨h1, h2⟩ := isDigit_toNat hc
      have hc0 : c ≠ '0' := fun he => hz (by simp [he])
      have : c.toNat ≠ 48 := fun he => hc0 (Char.toNat_inj.mp he)
      omega
    · have hhead : s.head? ≠ some '0' := by
        obtain ⟨d, t, rfl⟩ := List.exists_cons_of_ne_nil hs
        simpa using hz
      have := ih hs (fun d hd' => hd d (by simp [hd'])) hhead
      omega

/-- A numeral is the numeral of its value. -/
theorem toDigits_value {s : List Char} (h : isNumeral s = true) :
    Nat.toDigits 10 (Nat.ofDigitChars 10 s 0) = s := by
  obtain ⟨hne, hd, hz⟩ := isNumeral_iff.mp h
  induction s using List.reverseRecOn with
  | nil => exact absurd rfl hne
  | append_singleton s c ih =>
    have hc : c.isDigit := hd c (by simp)
    obtain ⟨h1, h2⟩ := isDigit_toNat hc
    rw [value_snoc]
    by_cases hs : s = []
    · subst hs
      simp only [List.nil_append, Nat.ofDigitChars_nil, Nat.mul_zero, Nat.zero_add]
      rw [Nat.toDigits_of_lt_base (by omega), digitChar_sub hc]
    · have hhead : s.head? ≠ some '0' := by
        obtain ⟨d, t, rfl⟩ := List.exists_cons_of_ne_nil hs
        rcases hz with hz | hz
        · simp at hz
        · simpa using hz
      have hd' : ∀ d ∈ s, d.isDigit := fun d hd' => hd d (by simp [hd'])
      have hpos := value_pos hs hd' hhead
      rw [← @Nat.toDigits_append_toDigits 10 _ _ (by omega) hpos (by omega),
        ih (isNumeral_iff.mpr ⟨hs, hd', .inr hhead⟩) hs hd' (.inr hhead),
        Nat.toDigits_of_lt_base (by omega), digitChar_sub hc]

/-- The numeral of a number is a numeral. -/
theorem isNumeral_toDigits (n : Nat) : isNumeral (Nat.toDigits 10 n) = true := by
  refine isNumeral_iff.mpr ⟨Nat.toDigits_ne_nil,
    fun c hc => Nat.isDigit_of_mem_toDigits (b := 10) (by omega) (by omega) hc, ?_⟩
  induction n using Nat.strongRecOn with
  | _ n ih =>
    by_cases hn : n < 10
    · rw [Nat.toDigits_of_lt_base hn]
      exact .inl rfl
    · right
      rw [@Nat.toDigits_of_base_le 10 n (by omega) (by omega)]
      obtain ⟨c, t, hct⟩ := List.exists_cons_of_ne_nil (Nat.toDigits_ne_nil (n := n / 10) (b := 10))
      rw [hct, List.cons_append, List.head?_cons]
      rcases ih (n / 10) (by omega) with h1 | h1
      · -- The rest of the number has one digit, and it is not zero.
        have hlt : n / 10 < 10 := (Nat.length_toDigits_le_iff (b := 10) (k := 1) (by omega) (by omega)).mp
          (by omega)
        rw [Nat.toDigits_of_lt_base hlt] at hct
        obtain ⟨rfl, -⟩ := List.cons.inj hct
        intro he
        have h0 := congrArg Char.toNat (Option.some.inj he)
        rw [digitChar_toNat hlt] at h0
        have : ('0' : Char).toNat = 48 := rfl
        omega
      · rw [hct] at h1
        simpa using h1

theorem toDigits_injective {m n : Nat} (h : Nat.toDigits 10 m = Nat.toDigits 10 n) : m = n := by
  rw [← Nat.ofDigitChars_ten_toDigits (n := m), h, Nat.ofDigitChars_ten_toDigits]

/-! ## Numerals of bytes -/

/-- The value of some bytes of digits. -/
def decimalValue (bs : Bytes) : Nat := bs.foldl (fun v b => 10 * v + (b.toNat - 48)) 0

theorem decimalValue_eq (bs : Bytes) : decimalValue bs = Nat.ofDigitChars 10 (binary bs) 0 := by
  rw [Nat.ofDigitChars_eq_foldl]
  unfold decimalValue binary
  rw [List.foldl_map]
  congr 1
  funext v b
  rw [toNat_byteOf]
  rfl

end Licensecc.Codec
