-- Quotas. Where each admitted step takes something of what is left and no step gives
-- any back, a run admits no more than was left when it began.
import Mathlib.Data.List.Range
import Mathlib.Algebra.Order.Group.Int

namespace Licensecc.Conc

variable {σ ε : Type}

section
variable (step : σ → ε → σ) (admits : σ → ε → Bool)

/-- The steps of a run that are admitted. -/
def admissions : σ → List ε → Nat
  | _, [] => 0
  | s, e :: es => (if admits s e then 1 else 0) + admissions (step s e) es

end

section
variable {step : σ → ε → σ} {admits : σ → ε → Bool} {Inv : σ → Prop} {Ok : ε → Prop}

theorem foldl_inv (hinv : ∀ s e, Inv s → Ok e → Inv (step s e)) {s : σ} {es : List ε} (hs : Inv s)
    (hes : ∀ e ∈ es, Ok e) : Inv (es.foldl step s) := by
  induction es generalizing s with
  | nil => exact hs
  | cons e es ih =>
    obtain ⟨he, hrest⟩ := List.forall_mem_cons.mp hes
    exact ih (hinv s e hs he) hrest

variable (step admits) in
/-- A run admits no more than is left. -/
theorem admissions_le (left : σ → Nat) (hinv : ∀ s e, Inv s → Ok e → Inv (step s e))
    (hleft : ∀ s e, Inv s → Ok e → left (step s e) ≤ left s)
    (htake : ∀ s e, Inv s → Ok e → admits s e = true → left (step s e) + 1 ≤ left s)
    {s : σ} {es : List ε} (hs : Inv s) (hes : ∀ e ∈ es, Ok e) :
    admissions step admits s es ≤ left s := by
  induction es generalizing s with
  | nil => exact Nat.zero_le _
  | cons e es ih =>
    obtain ⟨he, hrest⟩ := List.forall_mem_cons.mp hes
    have hlater := ih (hinv s e hs he) hrest
    unfold admissions
    by_cases hadm : admits s e = true
    · have := htake s e hs he hadm
      rw [if_pos hadm]
      omega
    · have := hleft s e hs he
      rw [if_neg hadm]
      omega

variable (step admits) in
/-- Where each state has a step that is admitted, a run can be as long as one likes. -/
theorem exists_admissions (At : Nat → σ → Prop) (event : Nat → ε)
    (h : ∀ n s, At n s → admits s (event n) = true ∧ At (n + 1) (step s (event n))) (k : Nat)
    {n : Nat} {s : σ} (hs : At n s) :
    admissions step admits s ((List.range' n k).map event) = k := by
  induction k generalizing n s with
  | zero => rfl
  | succ k ih =>
    obtain ⟨hadm, hnext⟩ := h n s hs
    rw [List.range'_succ, List.map_cons]
    unfold admissions
    rw [if_pos hadm, ih hnext]
    omega

end

end Licensecc.Conc
