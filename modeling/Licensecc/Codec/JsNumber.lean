-- The integers of a database as JavaScript reads and prints them. A number keeps 53
-- bits, so integers up to `2 ^ 53` are exact, and of a larger one only the number
-- closest to it is left.
import Licensecc.Codec.Json
import Mathlib.Algebra.Order.Group.Int
import Mathlib.Tactic.Push

namespace Licensecc.Codec

/-! ## Numbers -/

/-- The closest number of 53 bits. Of two that are closest it is the even one. -/
def toDouble (n : Nat) : Nat :=
  if n < 2 ^ 53 then n
  else
    let unit := 2 ^ (n.log2 - 52)
    let q := n / unit
    let r := n % unit
    if unit < 2 * r ∨ (2 * r = unit ∧ q % 2 = 1) then (q + 1) * unit else q * unit

/-- `Number(x)` of an INTEGER column. -/
def jsNumber : Int → Int
  | .ofNat n => toDouble n
  | .negSucc n => -(toDouble (n + 1) : Int)

theorem toDouble_small {n : Nat} (h : n < 2 ^ 53) : toDouble n = n := if_pos h

/-- A large integer stays large. -/
theorem le_toDouble {n : Nat} (h : 2 ^ 53 ≤ n) : 2 ^ 53 ≤ toDouble n := by
  have hlog : 53 ≤ n.log2 := (Nat.le_log2 (by omega)).mpr h
  have hunit : 2 ^ n.log2 = 2 ^ 52 * 2 ^ (n.log2 - 52) := by
    rw [← Nat.pow_add]
    congr 1
    omega
  have hq : 2 ^ 52 ≤ n / 2 ^ (n.log2 - 52) := by
    rw [Nat.le_div_iff_mul_le (Nat.two_pow_pos _), ← hunit]
    exact Nat.log2_self_le (by omega)
  have htwo : 2 ≤ 2 ^ (n.log2 - 52) := by
    calc 2 = 2 ^ 1 := rfl
      _ ≤ 2 ^ (n.log2 - 52) := Nat.pow_le_pow_right (by decide) (by omega)
  have hbase : 2 ^ 53 ≤ n / 2 ^ (n.log2 - 52) * 2 ^ (n.log2 - 52) :=
    calc 2 ^ 53 = 2 ^ 52 * 2 := rfl
      _ ≤ n / 2 ^ (n.log2 - 52) * 2 ^ (n.log2 - 52) := Nat.mul_le_mul hq htwo
  have hnext : n / 2 ^ (n.log2 - 52) * 2 ^ (n.log2 - 52) ≤
      (n / 2 ^ (n.log2 - 52) + 1) * 2 ^ (n.log2 - 52) :=
    Nat.mul_le_mul_right _ (Nat.le_succ _)
  unfold toDouble
  rw [if_neg (by omega)]
  dsimp only
  split
  · exact hbase.trans hnext
  · exact hbase

/-- An integer that JavaScript reads as a small number is that number. -/
theorem eq_of_jsNumber {n k : Int} (hlo : -2 ^ 53 < k) (hhi : k < 2 ^ 53) (h : jsNumber n = k) :
    n = k := by
  cases n with
  | ofNat n =>
    by_cases hn : n < 2 ^ 53
    · rw [jsNumber, toDouble_small hn] at h
      exact h
    · have hle := le_toDouble (not_lt.mp hn)
      rw [jsNumber] at h
      omega
  | negSucc n =>
    by_cases hn : n + 1 < 2 ^ 53
    · rw [jsNumber, toDouble_small hn] at h
      omega
    · have hle := le_toDouble (not_lt.mp hn)
      rw [jsNumber] at h
      omega

/-- A small integer is read as it is. -/
theorem jsNumber_small {n : Int} (hlo : -2 ^ 53 < n) (hhi : n < 2 ^ 53) : jsNumber n = n := by
  cases n with
  | ofNat n =>
    have hn : (n : Int) < 2 ^ 53 := hhi
    rw [jsNumber, toDouble_small (by omega)]
    rfl
  | negSucc n =>
    rw [jsNumber, toDouble_small (by omega)]
    omega

/-! ## Texts -/

/-- The decimals that are tried for a number, those with the most zeros first. -/
def decimals (v : Nat) : List Nat :=
  (List.range 20).reverse.flatMap fun j =>
    let low := v / 10 ^ j * 10 ^ j
    if 2 * (v - low) ≤ 10 ^ j then [low, low + 10 ^ j] else [low + 10 ^ j, low]

/-- The shortest decimal that is read as the same number. -/
def shortest (n : Nat) : Nat :=
  ((decimals (toDouble n)).find? fun c => toDouble c = toDouble n).getD n

theorem toDouble_shortest (n : Nat) : toDouble (shortest n) = toDouble n := by
  unfold shortest
  cases h : (decimals (toDouble n)).find? fun c => toDouble c = toDouble n with
  | none => rfl
  | some c =>
    have hc := List.find?_some h
    simpa using hc

/-- `JSON.stringify(Number(x))` of an INTEGER column. -/
def numberText : Int → List Char
  | .ofNat n => Nat.toDigits 10 (shortest n)
  | .negSucc n => '-' :: Nat.toDigits 10 (shortest (n + 1))

/-- A character of a number. -/
def isNumberChar (c : Char) : Bool := c.isDigit || c == '-'

theorem numberText_chars (n : Int) : ∀ c ∈ numberText n, isNumberChar c = true := by
  have hdigits : ∀ m, ∀ c ∈ Nat.toDigits 10 m, isNumberChar c = true := by
    intro m c hc
    have hd := Nat.isDigit_of_mem_toDigits (b := 10) (by omega) (by omega) hc
    simp [isNumberChar, hd]
  intro c hc
  cases n with
  | ofNat n => exact hdigits _ c hc
  | negSucc n =>
    rcases List.mem_cons.mp hc with rfl | hc
    · decide
    · exact hdigits _ c hc

theorem minus_not_digit {m : Nat} {l : List Char} : '-' :: l ≠ Nat.toDigits 10 m := by
  intro h
  have hd := Nat.isDigit_of_mem_toDigits (b := 10) (n := m) (c := '-') (by omega) (by omega)
    (h ▸ List.mem_cons_self)
  revert hd
  decide

/-- A printed number is read as the number that it was. -/
theorem jsNumber_of_text {n m : Int} (h : numberText n = numberText m) : jsNumber n = jsNumber m := by
  cases n with
  | ofNat n =>
    cases m with
    | ofNat m =>
      have hs : shortest n = shortest m := toDigits_injective h
      simp only [jsNumber]
      rw [← toDouble_shortest n, hs, toDouble_shortest]
    | negSucc m => exact absurd h.symm minus_not_digit
  | negSucc n =>
    cases m with
    | ofNat m => exact absurd h minus_not_digit
    | negSucc m =>
      have hs : shortest (n + 1) = shortest (m + 1) := toDigits_injective (List.cons.inj h).2
      simp only [jsNumber]
      rw [← toDouble_shortest (n + 1), hs, toDouble_shortest]

theorem numberText_ne_nil (n : Int) : numberText n ≠ [] := by
  cases n with
  | ofNat n => exact Nat.toDigits_ne_nil
  | negSucc n => exact List.cons_ne_nil _ _

/-! ## Arrays of texts and numbers -/

inductive Scalar where
  | text (s : List Char)
  | number (n : Int)
  deriving DecidableEq

def Scalar.json : Scalar → List Char
  | text s => quote s
  | number n => numberText n

/-- What JavaScript reads. -/
def Scalar.value : Scalar → Scalar
  | text s => text s
  | number n => number (jsNumber n)

/-- An element of an array ends where it ends. -/
theorem scalar_cancel {x x' : Scalar} {r r' : List Char} (hr : Follows r) (hr' : Follows r')
    (h : x.json ++ r = x'.json ++ r') : x.value = x'.value ∧ r = r' := by
  have hends : ∀ n {t : List Char}, Follows t → (numberText n ++ t).takeWhile isNumberChar =
      numberText n := by
    rintro n t ⟨c, s, rfl, hc⟩
    have hnot : isNumberChar c = false := by
      rcases hc with rfl | rfl
      · decide
      · decide
    rw [List.takeWhile_append_of_pos (numberText_chars n), List.takeWhile_cons,
      if_neg (by simp [hnot]), List.append_nil]
  have hquote : ∀ s n t t', quote s ++ t ≠ numberText n ++ t' := by
    intro s n t t' he
    obtain ⟨d, ds, hd⟩ := List.exists_cons_of_ne_nil (numberText_ne_nil n)
    rw [hd] at he
    have hdigit := numberText_chars n d (hd ▸ List.mem_cons_self)
    rw [← (List.cons.inj he).1] at hdigit
    revert hdigit
    decide
  cases x with
  | text s =>
    cases x' with
    | text s' =>
      obtain ⟨rfl, hrest⟩ := quote_cancel h
      exact ⟨rfl, hrest⟩
    | number n => exact absurd h (hquote s n r r')
  | number n =>
    cases x' with
    | text s => exact absurd h.symm (hquote s n r' r)
    | number m =>
      simp only [Scalar.json] at h
      have hread := congrArg (List.takeWhile isNumberChar) h
      rw [hends n hr, hends m hr'] at hread
      rw [hread] at h
      exact ⟨congrArg Scalar.number (jsNumber_of_text hread), List.append_cancel_left h⟩

/-- `JSON.stringify` of an array. -/
def arrayText (l : List Scalar) : List Char :=
  '[' :: List.intercalate [','] (l.map Scalar.json) ++ [']']

/-- The rest of an array after an element. -/
def scalarRest (l : List Scalar) : List Char := l.flatMap (fun x => ',' :: x.json) ++ [']']

theorem follows_scalarRest (l : List Scalar) : Follows (scalarRest l) := by
  cases l with
  | nil => exact ⟨']', [], rfl, .inr rfl⟩
  | cons x l => exact ⟨',', x.json ++ scalarRest l, by simp [scalarRest], .inl rfl⟩

theorem arrayText_cons (x : Scalar) (l : List Scalar) :
    arrayText (x :: l) = '[' :: (x.json ++ scalarRest l) := by
  unfold arrayText
  induction l generalizing x with
  | nil => simp [scalarRest]
  | cons y l ih =>
    have htail := (List.cons.inj ((List.cons_append ..).symm.trans (ih y))).2
    rw [List.map_cons, List.map_cons, List.intercalate_cons_cons, ← List.map_cons, List.cons_append,
      List.append_assoc, List.append_assoc, htail]
    simp [scalarRest]

theorem scalarRest_values {l l' : List Scalar} (hlen : l.length = l'.length)
    (h : scalarRest l = scalarRest l') : l.map Scalar.value = l'.map Scalar.value := by
  have hstep : ∀ (y : Scalar) m, scalarRest (y :: m) = ',' :: (y.json ++ scalarRest m) := by
    intro y m
    simp [scalarRest]
  induction l generalizing l' with
  | nil =>
    obtain rfl := List.length_eq_zero_iff.mp hlen.symm
    rfl
  | cons x l ih =>
    cases l' with
    | nil => cases hlen
    | cons x' l' =>
      rw [hstep, hstep] at h
      obtain ⟨hx, hrest⟩ := scalar_cancel (follows_scalarRest l) (follows_scalarRest l')
        (List.cons.inj h).2
      rw [List.map_cons, List.map_cons, hx, ih (Nat.succ.inj hlen) hrest]

/-- Arrays of one length with the same text have the same values. -/
theorem arrayText_values {l l' : List Scalar} (hlen : l.length = l'.length)
    (h : arrayText l = arrayText l') : l.map Scalar.value = l'.map Scalar.value := by
  cases l with
  | nil =>
    obtain rfl := List.length_eq_zero_iff.mp hlen.symm
    rfl
  | cons x l =>
    cases l' with
    | nil => cases hlen
    | cons x' l' =>
      rw [arrayText_cons, arrayText_cons] at h
      obtain ⟨hx, hrest⟩ := scalar_cancel (follows_scalarRest l) (follows_scalarRest l')
        (List.cons.inj h).2
      rw [List.map_cons, List.map_cons, hx, scalarRest_values (Nat.succ.inj hlen) hrest]

/-- No line break is in a quoted text. -/
theorem newline_not_mem_quote (s : List Char) : '\n' ∉ quote s := by
  unfold quote
  simp only [List.cons_append, List.mem_cons, List.mem_append, List.mem_flatMap, List.not_mem_nil,
    or_false, not_or, not_exists, not_and]
  refine ⟨by decide, fun c _ hmem => ?_, by decide⟩
  have hhex : ∀ n < 16, hexDigit n ≠ '\n' := by decide
  unfold escapeChar at hmem
  split_ifs at hmem with h1 h2 h3 h4 h5 h6 h7 h8
  all_goals simp only [List.mem_cons, List.not_mem_nil, or_false] at hmem
  all_goals try simp at hmem
  · rcases hmem with hmem | hmem
    · exact hhex _ (by omega) hmem.symm
    · exact hhex _ (by omega) hmem.symm
  · exact h5 hmem.symm

/-- No line break is in the text of an array. -/
theorem newline_not_mem_arrayText (l : List Scalar) : '\n' ∉ arrayText l := by
  have hscalar : ∀ x : Scalar, '\n' ∉ x.json := by
    intro x
    cases x with
    | text s => exact newline_not_mem_quote s
    | number n =>
      intro hmem
      have hc := numberText_chars n _ hmem
      revert hc
      decide
  cases l with
  | nil => decide
  | cons x l =>
    rw [arrayText_cons, scalarRest]
    simp only [List.mem_cons, List.mem_append, List.mem_flatMap, List.not_mem_nil, or_false, not_or,
      not_exists, not_and]
    exact ⟨by decide, hscalar x, fun y _ => ⟨by decide, hscalar y⟩, by decide⟩

end Licensecc.Codec
