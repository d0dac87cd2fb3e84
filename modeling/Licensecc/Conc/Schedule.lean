-- Schedules of a system: lists of choices that are played one after another. A
-- schedule that plays to its end is a run.
import Licensecc.Conc.System

namespace Licensecc.Conc.System

variable {σ ω ρ ι α : Type}

/-- One choice. The number is the place of a program. -/
inductive Choice (σ ω ρ ι α : Type) where
  | start (p : Prog σ ω ρ α)
  | read (n : Nat)
  | write (n : Nat) (i : ι)
  | lost (n : Nat) (i : ι)

variable (S : System σ ω ρ ι α) [∀ i s, Decidable (S.admits i s)]

/-- The configuration after a choice, when the system can take it. -/
def choose (c : Config σ ω ρ α) : Choice σ ω ρ ι α → Option (Config σ ω ρ α)
  | .start p => some { c with threads := p :: c.threads }
  | .read n =>
    match c.threads[n]? with
    | some (.read k) => some { c with threads := c.threads.set n (k c.state) }
    | _ => none
  | .write n i =>
    match c.threads[n]? with
    | some (.write w k) =>
      let r := S.exec i w c.state
      if S.admits i c.state then some ⟨r.2, c.threads.set n (k (some r.1))⟩ else none
    | _ => none
  | .lost n i =>
    match c.threads[n]? with
    | some (.write w k) =>
      let r := S.exec i w c.state
      if S.admits i c.state then some ⟨r.2, c.threads.set n (k none)⟩ else none
    | _ => none

def playAll (c : Config σ ω ρ α) : List (Choice σ ω ρ ι α) → Option (Config σ ω ρ α)
  | [] => some c
  | a :: rest => (S.choose c a).bind fun c' => playAll c' rest

/-- Every program that the schedule starts is one of the system. -/
def StartsAll : List (Choice σ ω ρ ι α) → Prop
  | [] => True
  | .start p :: rest => S.starts p ∧ StartsAll rest
  | _ :: rest => StartsAll rest

variable {S} {c c' : Config σ ω ρ α}

theorem step_of_choose {a : Choice σ ω ρ ι α} {rest : List (Choice σ ω ρ ι α)}
    (h : S.choose c a = some c') (ha : S.StartsAll (a :: rest)) :
    S.Step c c' ∧ S.StartsAll rest := by
  cases a with
  | start p =>
    obtain rfl := Option.some.inj h
    exact ⟨.start ha.1, ha.2⟩
  | read n =>
    simp only [choose] at h
    split at h
    · obtain rfl := Option.some.inj h
      exact ⟨.read ‹_›, ha⟩
    · cases h
  | write n i =>
    simp only [choose] at h
    split at h
    · rename_i hn
      obtain ⟨hi, h⟩ := Option.ite_none_right_eq_some.mp h
      obtain rfl := Option.some.inj h
      exact ⟨.write hn hi, ha⟩
    · cases h
  | lost n i =>
    simp only [choose] at h
    split at h
    · rename_i hn
      obtain ⟨hi, h⟩ := Option.ite_none_right_eq_some.mp h
      obtain rfl := Option.some.inj h
      exact ⟨.lost hn hi, ha⟩
    · cases h

/-- A schedule that plays to its end is a run. -/
theorem reach_of_playAll {as : List (Choice σ ω ρ ι α)} (h : S.playAll c as = some c')
    (ha : S.StartsAll as) : S.Reach c c' := by
  induction as generalizing c with
  | nil =>
    obtain rfl := Option.some.inj h
    exact .refl
  | cons a rest ih =>
    obtain ⟨c₁, h1, h2⟩ := Option.bind_eq_some_iff.mp h
    obtain ⟨hstep, hrest⟩ := step_of_choose h1 ha
    exact .head hstep (ih h2 hrest)

end Licensecc.Conc.System
