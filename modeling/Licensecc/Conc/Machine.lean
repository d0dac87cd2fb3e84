-- Machines that take one action after another. A law that every action keeps
-- holds in every state of every run.
import Mathlib.Tactic.Common

namespace Licensecc.Conc.Machine

variable {σ κ : Type} {act : κ → σ → σ}

/-- The state after a list of actions. -/
def run (act : κ → σ → σ) : σ → List κ → σ
  | s, [] => s
  | s, a :: as => run act (act a s) as

/-- Every action of the run meets a condition on the state in which it is taken. -/
def Meets (act : κ → σ → σ) (φ : κ → σ → Prop) : σ → List κ → Prop
  | _, [] => True
  | s, a :: as => φ a s ∧ Meets act φ (act a s) as

/-- A property holds in every state of the run. -/
def Always (act : κ → σ → σ) (P : σ → Prop) : σ → List κ → Prop
  | s, [] => P s
  | s, a :: as => P s ∧ Always act P (act a s) as

variable {φ ψ : κ → σ → Prop} {I P : σ → Prop} {s : σ} {as : List κ}

instance decidableMeets [∀ a s, Decidable (φ a s)] :
    (s : σ) → (as : List κ) → Decidable (Meets act φ s as)
  | _, [] => .isTrue trivial
  | s, a :: as =>
    have := decidableMeets (act a s) as
    inferInstanceAs (Decidable (φ a s ∧ Meets act φ (act a s) as))

theorem Meets.mono (h : Meets act φ s as) (himp : ∀ a s, φ a s → ψ a s) : Meets act ψ s as := by
  induction as generalizing s with
  | nil => trivial
  | cons a as ih => exact ⟨himp a s h.1, ih h.2⟩

/-- The rule of invariants. -/
theorem run_inv (hstep : ∀ a s, φ a s → I s → I (act a s)) (hφ : Meets act φ s as) (h : I s) :
    I (run act s as) := by
  induction as generalizing s with
  | nil => exact h
  | cons a as ih => exact ih hφ.2 (hstep a s hφ.1 h)

theorem meets_of_inv (hstep : ∀ a s, φ a s → I s → ψ a s ∧ I (act a s)) (hφ : Meets act φ s as)
    (h : I s) : Meets act ψ s as := by
  induction as generalizing s with
  | nil => trivial
  | cons a as ih =>
    obtain ⟨hψ, h'⟩ := hstep a s hφ.1 h
    exact ⟨hψ, ih hφ.2 h'⟩

theorem always_of_inv (hstep : ∀ a s, φ a s → I s → I (act a s)) (hP : ∀ s, I s → P s)
    (hφ : Meets act φ s as) (h : I s) : Always act P s as := by
  induction as generalizing s with
  | nil => exact hP s h
  | cons a as ih => exact ⟨hP s h, ih hφ.2 (hstep a s hφ.1 h)⟩

theorem meets_true (s : σ) (as : List κ) : Meets act (fun _ _ => True) s as := by
  induction as generalizing s with
  | nil => trivial
  | cons a as ih => exact ⟨trivial, ih _⟩

theorem Always.now (h : Always act P s as) : P s := by
  cases as with
  | nil => exact h
  | cons a as => exact h.1

theorem Always.last (h : Always act P s as) : P (run act s as) := by
  induction as generalizing s with
  | nil => exact h
  | cons a as ih => exact ih h.2

/-- A property that holds at first, and after an action exactly when the action meets a
condition, holds in every state of a run exactly when every action meets the
condition. -/
theorem always_iff_meets (hstep : ∀ a s, I s → (φ a s ↔ P (act a s)))
    (hI : ∀ a s, I s → φ a s → I (act a s)) (hP : P s) (h : I s) :
    Always act P s as ↔ Meets act φ s as := by
  induction as generalizing s with
  | nil => exact ⟨fun _ => trivial, fun _ => hP⟩
  | cons a as ih =>
    constructor
    · rintro ⟨-, hrest⟩
      have ha := (hstep a s h).mpr hrest.now
      exact ⟨ha, (ih hrest.now (hI a s h ha)).mp hrest⟩
    · rintro ⟨ha, hrest⟩
      have hP' := (hstep a s h).mp ha
      exact ⟨hP, (ih hP' (hI a s h ha)).mpr hrest⟩

/-! ## Machines with results -/

section
variable {ρ : Type} {call : κ → σ → ρ × σ}

/-- One call with its result and the states around it. -/
structure Called (κ ρ σ : Type) where
  call : κ
  before : σ
  result : ρ
  after : σ

/-- The calls of a list, one after another. -/
def calls (call : κ → σ → ρ × σ) : σ → List κ → List (Called κ ρ σ)
  | _, [] => []
  | s, k :: ks => ⟨k, s, (call k s).1, (call k s).2⟩ :: calls call (call k s).2 ks

/-- Each event is one call, in a state that keeps the invariant. -/
theorem of_mem_calls (hstep : ∀ k s, I s → I (call k s).2) (h : I s) {ks : List κ}
    {e : Called κ ρ σ} (he : e ∈ calls call s ks) :
    I e.before ∧ call e.call e.before = (e.result, e.after) := by
  induction ks generalizing s with
  | nil => cases he
  | cons k ks ih =>
    rcases List.mem_cons.mp he with rfl | he
    · exact ⟨h, rfl⟩
    · exact ih (hstep k s h) he

/-- A relation that each call keeps and that composes holds from the first state to the
state before every call. -/
theorem calls_rel {R : σ → σ → Prop} (hrefl : ∀ s, R s s)
    (htrans : ∀ {a b c}, R a b → R b c → R a c) (hstep : ∀ k s, I s → R s (call k s).2)
    (hI : ∀ k s, I s → I (call k s).2) (h : I s) {ks : List κ} {e : Called κ ρ σ}
    (he : e ∈ calls call s ks) : R s e.before := by
  induction ks generalizing s with
  | nil => cases he
  | cons k ks ih =>
    rcases List.mem_cons.mp he with rfl | he
    · exact hrefl s
    · exact htrans (hstep k s h) (ih (hI k s h) he)

/-- Such a relation holds from the state after a call to the states before all later
ones. -/
theorem calls_pairwise {R : σ → σ → Prop} (hrefl : ∀ s, R s s)
    (htrans : ∀ {a b c}, R a b → R b c → R a c) (hstep : ∀ k s, I s → R s (call k s).2)
    (hI : ∀ k s, I s → I (call k s).2) (h : I s) (ks : List κ) :
    (calls call s ks).Pairwise fun e e' => R e.after e'.before := by
  induction ks generalizing s with
  | nil => exact .nil
  | cons k ks ih =>
    exact .cons (fun e' he' => calls_rel hrefl htrans hstep hI (hI k s h) he') (ih (hI k s h))

end

end Licensecc.Conc.Machine
