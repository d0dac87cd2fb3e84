-- Programs that ask their surroundings one question at a time. The answers come
-- from oracles, and a program that runs out of oracles has crashed. A law of
-- every answer is a law of every run.
import Mathlib.Data.List.Basic
import Mathlib.Tactic.Common

namespace Licensecc.Conc

/-- A program that asks questions `ω` and gets answers `ρ`. -/
inductive Dialog (ω ρ α : Type) where
  | done (a : α)
  | ask (o : ω) (k : ρ → Dialog ω ρ α)

namespace Dialog

variable {σ ω ρ ι κ α β : Type}

def bind (p : Dialog ω ρ α) (f : α → Dialog ω ρ β) : Dialog ω ρ β :=
  match p with
  | done a => f a
  | ask o k => ask o fun r => bind (k r) f

instance : Monad (Dialog ω ρ) where
  pure := done
  bind := bind

/-- One question. -/
def question (o : ω) : Dialog ω ρ ρ := ask o done

/-! ## Runs -/

/-- The run of a program, with one oracle for each question. It has no result when
the oracles end before it does. -/
def run (answer : ι → ω → σ → ρ × σ) : Dialog ω ρ α → σ → List ι → Option α × σ
  | done a, s, _ => (some a, s)
  | ask _ _, s, [] => (none, s)
  | ask o k, s, i :: is => run answer (k (answer i o s).1) (answer i o s).2 is

/-- Whatever the oracles are, the program ends with a value and a state that meet
`Q`, and `C` holds of every state in which it can crash. -/
def Ensures (answer : ι → ω → σ → ρ × σ) (Q : α → σ → Prop) (C : σ → Prop) :
    Dialog ω ρ α → σ → Prop
  | done a, s => Q a s
  | ask o k, s => C s ∧ ∀ i, Ensures answer Q C (k (answer i o s).1) (answer i o s).2

variable {answer : ι → ω → σ → ρ × σ} {Q : α → σ → Prop} {C : σ → Prop}

theorem Ensures.done {a : α} {s : σ} (h : Q a s) :
    Ensures answer Q C (pure a : Dialog ω ρ α) s := h

/-- The rule of a sequence. -/
theorem Ensures.bind {Q' : β → σ → Prop} {f : α → Dialog ω ρ β} {p : Dialog ω ρ α} {s : σ}
    (hp : Ensures answer Q C p s) (hf : ∀ a s', Q a s' → Ensures answer Q' C (f a) s') :
    Ensures answer Q' C (p >>= f) s := by
  induction p generalizing s with
  | done a => exact hf a s hp
  | ask o k ih => exact ⟨hp.1, fun i => ih _ (hp.2 i)⟩

/-- The rule of a question. -/
theorem Ensures.question {Q : ρ → σ → Prop} {o : ω} {s : σ} (hc : C s)
    (h : ∀ i, Q (answer i o s).1 (answer i o s).2) :
    Ensures answer Q C (question o) s := ⟨hc, h⟩

theorem Ensures.mono {Q' : α → σ → Prop} {C' : σ → Prop} {p : Dialog ω ρ α} {s : σ}
    (h : Ensures answer Q C p s) (hq : ∀ a s, Q a s → Q' a s) (hc : ∀ s, C s → C' s) :
    Ensures answer Q' C' p s := by
  induction p generalizing s with
  | done a => exact hq a s h
  | ask o k ih => exact ⟨hc s h.1, fun i => ih _ (h.2 i)⟩

theorem Ensures.run {p : Dialog ω ρ α} {s : σ} (h : Ensures answer Q C p s) (is : List ι) :
    (∀ a, (p.run answer s is).1 = some a → Q a (p.run answer s is).2) ∧
      ((p.run answer s is).1 = none → C (p.run answer s is).2) := by
  induction p generalizing s is with
  | done a =>
    refine ⟨fun b hb => ?_, fun hb => by cases hb⟩
    obtain rfl := Option.some.inj hb
    exact h
  | ask o k ih =>
    cases is with
    | nil => exact ⟨fun b hb => (by cases hb), fun _ => h.1⟩
    | cons i is => exact ih _ (h.2 i) is

/-! ## Calls one after another -/

/-- A call with its result, if it did not crash, and the states around it. -/
structure Event (κ α σ : Type) where
  call : κ
  before : σ
  result : Option α
  after : σ

/-- The events of a list of calls, each with its oracles. A call after a crash finds
the state that the crash has left. -/
def trace (answer : ι → ω → σ → ρ × σ) (program : κ → Dialog ω ρ α) :
    σ → List (κ × List ι) → List (Event κ α σ)
  | _, [] => []
  | s, (c, is) :: calls =>
    ⟨c, s, ((program c).run answer s is).1, ((program c).run answer s is).2⟩ ::
      trace answer program ((program c).run answer s is).2 calls

variable {program : κ → Dialog ω ρ α}

/-- Each event is the run of its call. -/
theorem run_of_mem_trace {s : σ} {calls : List (κ × List ι)} {e : Event κ α σ}
    (h : e ∈ trace answer program s calls) :
    ∃ is, (program e.call).run answer e.before is = (e.result, e.after) := by
  induction calls generalizing s with
  | nil => cases h
  | cons c calls ih =>
    unfold trace at h
    rcases List.mem_cons.mp h with rfl | h
    · exact ⟨c.2, rfl⟩
    · exact ih h

/-- A relation that each call keeps and that composes holds from the first state to
every later one. -/
theorem trace_rel {R : σ → σ → Prop} (hrefl : ∀ s, R s s)
    (htrans : ∀ {a b c}, R a b → R b c → R a c)
    (hstep : ∀ c s is, R s ((program c).run answer s is).2) {s : σ} {calls : List (κ × List ι)}
    {e : Event κ α σ} (h : e ∈ trace answer program s calls) : R s e.before ∧ R s e.after := by
  induction calls generalizing s with
  | nil => cases h
  | cons c calls ih =>
    unfold trace at h
    rcases List.mem_cons.mp h with rfl | h
    · exact ⟨hrefl s, hstep _ _ _⟩
    · have hrest := ih h
      exact ⟨htrans (hstep _ _ _) hrest.1, htrans (hstep _ _ _) hrest.2⟩

/-- The state after an event is related to the states of all later ones. -/
theorem trace_pairwise {R : σ → σ → Prop} (hrefl : ∀ s, R s s)
    (htrans : ∀ {a b c}, R a b → R b c → R a c)
    (hstep : ∀ c s is, R s ((program c).run answer s is).2) (s : σ) (calls : List (κ × List ι)) :
    (trace answer program s calls).Pairwise fun e e' => R e.after e'.before := by
  induction calls generalizing s with
  | nil => exact .nil
  | cons c calls ih =>
    unfold trace
    exact .cons (fun e' he' => (trace_rel hrefl htrans hstep he').1) (ih _)

end Dialog

end Licensecc.Conc
