-- The laws of a system of programs. Any number of programs start, take steps
-- in any order, lose answers and crash. A law of one step is a law of every
-- run.
import Licensecc.Conc.Prog
import Mathlib.Logic.Relation

namespace Licensecc.Conc

variable {σ ω ρ ι α : Type}

/-- A system: the step of a write with its oracle, the oracles that a state
admits, and the programs that can start. -/
structure System (σ ω ρ ι α : Type) where
  exec : ι → ω → σ → ρ × σ
  admits : ι → σ → Prop
  starts : Prog σ ω ρ α → Prop

/-- The shared state with the programs that have started. A program that has
ended stays with its value. -/
structure Config (σ ω ρ α : Type) where
  state : σ
  threads : List (Prog σ ω ρ α)

namespace System

variable (S : System σ ω ρ ι α)

/-- One step of the system. -/
inductive Step : Config σ ω ρ α → Config σ ω ρ α → Prop
  | start {c p} : S.starts p → Step c { c with threads := p :: c.threads }
  | read {c : Config σ ω ρ α} {n k} : c.threads[n]? = some (.read k) →
      Step c { c with threads := c.threads.set n (k c.state) }
  | write {c : Config σ ω ρ α} {n w k i} : c.threads[n]? = some (.write w k) →
      S.admits i c.state →
      Step c ⟨(S.exec i w c.state).2, c.threads.set n (k (some (S.exec i w c.state).1))⟩
  | lost {c : Config σ ω ρ α} {n w k i} : c.threads[n]? = some (.write w k) →
      S.admits i c.state → Step c ⟨(S.exec i w c.state).2, c.threads.set n (k none)⟩
  | failed {c : Config σ ω ρ α} {n w k} : c.threads[n]? = some (.write w k) →
      Step c { c with threads := c.threads.set n (k none) }
  | crash {c : Config σ ω ρ α} {n p} : c.threads[n]? = some p → p.value? = none →
      Step c { c with threads := c.threads.eraseIdx n }

/-- A run of the system. -/
def Reach : Config σ ω ρ α → Config σ ω ρ α → Prop := Relation.ReflTransGen S.Step

variable {S} {c c' : Config σ ω ρ α}

/-- A law that each write keeps holds in every state of a run. -/
theorem reach_state {I : σ → Prop} (hstep : ∀ i w s, S.admits i s → I s → I (S.exec i w s).2)
    (h : S.Reach c c') (h0 : I c.state) : I c'.state := by
  induction h with
  | refl => exact h0
  | tail _ hs ih =>
    cases hs with
    | write _ hi => exact hstep _ _ _ hi ih
    | lost _ hi => exact hstep _ _ _ hi ih
    | _ => exact ih

/-- A relation that each write keeps and that composes holds from any state of
a run to every later one. -/
theorem reach_rel {R : σ → σ → Prop} (hrefl : ∀ s, R s s)
    (htrans : ∀ {a b c}, R a b → R b c → R a c)
    (hstep : ∀ i w s, S.admits i s → R s (S.exec i w s).2) (h : S.Reach c c') :
    R c.state c'.state :=
  reach_state (I := fun s => R c.state s) (fun i w s hi hr => htrans hr (hstep i w s hi)) h
    (hrefl _)

/-- The programs of a system in which each write that meets `φ` is a change
that the others rely on. -/
structure Keeps (S : System σ ω ρ ι α) (rely : σ → σ → Prop) (φ : ω → σ → Prop)
    (I : σ → Prop) : Prop where
  refl : ∀ s, I s → rely s s
  trans : ∀ {a b c}, rely a b → rely b c → rely a c
  inv : ∀ i w s, S.admits i s → φ w s → I s → I (S.exec i w s).2
  guarantee : ∀ i w s, S.admits i s → φ w s → I s → rely s (S.exec i w s).2

def env (S : System σ ω ρ ι α) (rely : σ → σ → Prop) : Prog.Env σ ω ρ ι :=
  ⟨S.exec, S.admits, rely⟩

section
variable {rely : σ → σ → Prop} {φ : ω → σ → Prop} {Q : α → σ → Prop} {I : σ → Prop}

/-- Every program of the configuration is safe. -/
structure AllSafe (S : System σ ω ρ ι α) (rely : σ → σ → Prop) (φ : ω → σ → Prop)
    (Q : α → σ → Prop) (I : σ → Prop) (c : Config σ ω ρ α) : Prop where
  inv : I c.state
  safe : ∀ p ∈ c.threads, p.Safe (S.env rely) φ Q c.state

/-- The state after the write of a safe program, which every program can
take. -/
theorem AllSafe.after_write (hk : S.Keeps rely φ I) (h : AllSafe S rely φ Q I c) {n : Nat} {w : ω}
    {k : Option ρ → Prog σ ω ρ α} {i : ι} (hn : c.threads[n]? = some (.write w k))
    (hi : S.admits i c.state) {q : Prog σ ω ρ α}
    (hq : q = k none ∨ q = k (some (S.exec i w c.state).1)) :
    AllSafe S rely φ Q I ⟨(S.exec i w c.state).2, c.threads.set n q⟩ := by
  obtain ⟨hφ, hnone, hsome⟩ := h.safe _ (List.mem_of_getElem? hn) _ (hk.refl _ h.inv)
  have hrely := hk.guarantee i w c.state hi hφ h.inv
  refine ⟨hk.inv i w c.state hi hφ h.inv, fun p hp => ?_⟩
  rcases List.mem_or_eq_of_mem_set hp with hp | rfl
  · exact (h.safe p hp).rely hk.trans hrely
  · rcases hq with rfl | rfl
    · exact hnone.rely hk.trans hrely
    · exact hsome i hi

theorem AllSafe.step (hk : S.Keeps rely φ I) (hstart : ∀ p, S.starts p → ∀ s, I s →
      p.Safe (S.env rely) φ Q s) (h : AllSafe S rely φ Q I c) (hs : S.Step c c') :
    AllSafe S rely φ Q I c' := by
  cases hs with
  | start hp =>
    refine ⟨h.inv, fun p hp' => ?_⟩
    rcases List.mem_cons.mp hp' with rfl | hp'
    · exact hstart _ hp _ h.inv
    · exact h.safe p hp'
  | read hn =>
    refine ⟨h.inv, fun p hp => ?_⟩
    rcases List.mem_or_eq_of_mem_set hp with hp | rfl
    · exact h.safe p hp
    · exact h.safe _ (List.mem_of_getElem? hn) _ (hk.refl _ h.inv)
  | write hn hi => exact h.after_write hk hn hi (.inr rfl)
  | lost hn hi => exact h.after_write hk hn hi (.inl rfl)
  | failed hn =>
    refine ⟨h.inv, fun p hp => ?_⟩
    rcases List.mem_or_eq_of_mem_set hp with hp | rfl
    · exact h.safe p hp
    · exact (h.safe _ (List.mem_of_getElem? hn) _ (hk.refl _ h.inv)).2.1
  | crash => exact ⟨h.inv, fun p hp => h.safe p (List.mem_of_mem_eraseIdx hp)⟩

/-- In every run from a state with no programs, every program is safe: the
state keeps the invariant, and each value that a program has returned meets
the condition on values. -/
theorem reach_safe (hk : S.Keeps rely φ I) (hstart : ∀ p, S.starts p → ∀ s, I s →
      p.Safe (S.env rely) φ Q s) {s : σ} (h0 : I s) (h : S.Reach ⟨s, []⟩ c) :
    AllSafe S rely φ Q I c := by
  induction h with
  | refl => exact ⟨h0, by simp⟩
  | tail _ hs ih => exact ih.step hk hstart hs

theorem AllSafe.value (hk : S.Keeps rely φ I) (h : AllSafe S rely φ Q I c) {a : α}
    (ha : .done a ∈ c.threads) : Q a c.state :=
  h.safe _ ha _ (hk.refl _ h.inv)

end

end System

end Licensecc.Conc
