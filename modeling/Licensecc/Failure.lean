-- The laws of computations that can fail: a sequence that succeeds has parts
-- that succeed, and a check that succeeds has its condition.
import Mathlib.Data.List.Forall2
import Mathlib.Tactic.Common

namespace Licensecc

/-- There are two of each pair: slots, clocks. -/
instance neZero_two : @NeZero Nat Zero.ofOfNat0 2 := ⟨by decide⟩

variable {ε α β : Type}

/-- A sequence that succeeds has a first part that succeeds. -/
theorem bind_eq_ok {x : Except ε α} {f : α → Except ε β} {b : β} :
    (x >>= f) = .ok b ↔ ∃ a, x = .ok a ∧ f a = .ok b := by
  cases x <;> simp [bind, Except.bind]

theorem store_eq_ok {x : Except ε α} {f : α → β} {b : β} :
    (do let a ← x; return f a) = .ok b ↔ ∃ a, x = .ok a ∧ b = f a := by
  simp only [bind_eq_ok, pure, Except.pure, Except.ok.injEq, @eq_comm _ _ b]

/-- A list of computations that succeeds has the results of all. -/
theorem mapM_eq_ok {f : α → Except ε β} {l : List α} {r : List β} :
    l.mapM f = .ok r ↔ List.Forall₂ (fun a b => f a = .ok b) l r := by
  induction l generalizing r with
  | nil =>
    rw [List.mapM_nil, List.forall₂_nil_left_iff]
    exact ⟨fun h => (Except.ok.inj h).symm, fun h => congrArg _ h.symm⟩
  | cons a l ih =>
    rw [List.mapM_cons, bind_eq_ok, List.forall₂_cons_left_iff]
    constructor
    · rintro ⟨b, hb, h⟩
      obtain ⟨bs, hbs, rfl⟩ := store_eq_ok.mp h
      exact ⟨b, bs, hb, ih.mp hbs, rfl⟩
    · rintro ⟨b, bs, hb, hbs, rfl⟩
      exact ⟨b, hb, store_eq_ok.mpr ⟨bs, ih.mpr hbs, rfl⟩⟩

/-- Each element of the second list is related to one of the first. -/
theorem exists_left_of_mem {R : α → β → Prop} {l : List α} {l' : List β}
    (h : List.Forall₂ R l l') {b : β} (hb : b ∈ l') : ∃ a, R a b := by
  induction h with
  | nil => cases hb
  | cons hab _ ih =>
    rcases List.mem_cons.mp hb with rfl | hb
    · exact ⟨_, hab⟩
    · exact ih hb

/-- An error unless a condition holds. -/
def ensure (p : Prop) [Decidable p] (error : ε) : Except ε Unit :=
  if p then .ok () else .error error

theorem unit_bind_eq_ok {x : Except ε Unit} {f : Unit → Except ε β} {b : β} :
    (x >>= f) = .ok b ↔ x = .ok () ∧ f () = .ok b := by
  cases x <;> simp [bind, Except.bind]

theorem ensure_bind_eq_ok {p : Prop} [Decidable p] {error : ε} {x : Unit → Except ε α} {a : α} :
    (ensure p error >>= x) = .ok a ↔ p ∧ x () = .ok a := by
  unfold ensure
  by_cases h : p
  · simp [h, bind, Except.bind]
  · simp [h, bind, Except.bind]

end Licensecc
