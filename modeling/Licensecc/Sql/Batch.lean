-- The laws of a batch. The statements of a batch run in order, each at its
-- own reading of the clock, and each sees the number of rows that the
-- statement before it changed. A failure of one statement undoes them all.
import Licensecc.Sql.Table
import Mathlib.Algebra.Order.Group.Int

namespace Licensecc.Sql

variable {σ : Type}

/-- A statement of a batch: the time, the `changes()` of the statement before
it and the state give the rows that it changes and the new state. -/
abbrev Stmt (σ : Type) := Int → Nat → σ → Except Abort (Nat × σ)

/-- The result of a statement that writes one part of the state. -/
def stored {τ : Type} (x : Except Abort (Nat × τ)) (f : τ → σ) : Except Abort (Nat × σ) :=
  x.map fun r => (r.1, f r.2)

theorem stored_eq_ok {τ : Type} {x : Except Abort (Nat × τ)} {f : τ → σ} {n : Nat} {s : σ} :
    stored x f = .ok (n, s) ↔ ∃ t, x = .ok (n, t) ∧ s = f t := by
  rcases x with e | ⟨m, t⟩
  · simp [stored, Except.map]
  · simp [stored, Except.map, eq_comm]

/-- The result of a statement that writes one part of the state and counts its
rows in another. -/
def counted {τ : Type} (x : Except Abort (Nat × τ)) (f : Nat → τ → σ) : Except Abort (Nat × σ) :=
  x.map fun r => (r.1, f r.1 r.2)

theorem counted_eq_ok {τ : Type} {x : Except Abort (Nat × τ)} {f : Nat → τ → σ} {n : Nat} {s : σ} :
    counted x f = .ok (n, s) ↔ ∃ t, x = .ok (n, t) ∧ s = f n t := by
  rcases x with e | ⟨m, t⟩
  · simp [counted, Except.map]
  · simp only [counted, Except.map, Except.ok.injEq, Prod.mk.injEq]
    constructor
    · rintro ⟨rfl, rfl⟩
      exact ⟨t, ⟨rfl, rfl⟩, rfl⟩
    · rintro ⟨t', ⟨rfl, rfl⟩, rfl⟩
      exact ⟨rfl, rfl⟩

/-- The result of a statement that inserts one row. -/
def inserted (x : Except Abort σ) : Except Abort (Nat × σ) := x.map fun s => (1, s)

theorem inserted_eq_ok {x : Except Abort σ} {n : Nat} {s : σ} :
    inserted x = .ok (n, s) ↔ n = 1 ∧ x = .ok s := by
  cases x <;> simp [inserted, Except.map, eq_comm]

/-- A `SELECT` of a batch, which leaves the `changes()` of the statement before
it. -/
def selects : Stmt σ := fun _ changes s => .ok (changes, s)

/-- `SELECT CASE WHEN .. THEN 1 ELSE json(text) END`: the text is no JSON, so
the last branch stops the batch. -/
def asserts (holds : σ → Prop) [DecidablePred holds] : Stmt σ := fun _ changes s =>
  if holds s then .ok (changes, s) else .error (.raised "malformed JSON")

theorem asserts_ok {holds : σ → Prop} [DecidablePred holds] {time : Int} {changes n : Nat}
    {s s' : σ} (h : asserts holds time changes s = .ok (n, s')) : holds s ∧ s' = s := by
  unfold asserts at h
  split at h
  · obtain ⟨-, rfl⟩ := Prod.mk.inj (Except.ok.inj h)
    exact ⟨‹_›, rfl⟩
  · cases h

/-- The statements from one state on, with the change counts of all. -/
def runBatch : List (Stmt σ) → (Nat → Int) → Nat → σ → Except Abort (List Nat × σ)
  | [], _, _, s => .ok ([], s)
  | stmt :: rest, clock, changes, s => do
    let (n, s₁) ← stmt (clock 0) changes s
    let (ns, s₂) ← runBatch rest (fun i => clock (i + 1)) n s₁
    return (n :: ns, s₂)

@[simp] theorem runBatch_nil {clock : Nat → Int} {changes : Nat} {s s' : σ} {ns : List Nat} :
    runBatch [] clock changes s = .ok (ns, s') ↔ ns = [] ∧ s' = s := by
  simp [runBatch, eq_comm]

theorem runBatch_cons {stmt : Stmt σ} {rest : List (Stmt σ)} {clock : Nat → Int} {changes : Nat}
    {s s' : σ} {ns : List Nat} :
    runBatch (stmt :: rest) clock changes s = .ok (ns, s') ↔
      ∃ n s₁ ms, stmt (clock 0) changes s = .ok (n, s₁) ∧
        runBatch rest (fun i => clock (i + 1)) n s₁ = .ok (ms, s') ∧ ns = n :: ms := by
  simp only [runBatch, bind_eq_ok, Prod.exists]
  constructor
  · rintro ⟨n, s₁, h1, ms, s₂, h2, h3⟩
    obtain ⟨rfl, rfl⟩ := Prod.mk.inj (Except.ok.inj h3)
    exact ⟨n, s₁, ms, h1, h2, rfl⟩
  · rintro ⟨n, s₁, ms, h1, h2, rfl⟩
    exact ⟨n, s₁, h1, ms, s', h2, rfl⟩

theorem runBatch_nil_ok {clock : Nat → Int} {changes : Nat} {s : σ} :
    ∃ ns s', runBatch [] clock changes s = .ok (ns, s') := ⟨[], s, rfl⟩

/-- A batch succeeds when its first statement does and the rest does after it. -/
theorem runBatch_cons_ok {stmt : Stmt σ} {rest : List (Stmt σ)} {clock : Nat → Int} {changes n : Nat}
    {s s₁ : σ} (h : stmt (clock 0) changes s = .ok (n, s₁))
    (hrest : ∃ ns s', runBatch rest (fun i => clock (i + 1)) n s₁ = .ok (ns, s')) :
    ∃ ns s', runBatch (stmt :: rest) clock changes s = .ok (ns, s') := by
  obtain ⟨ns, s', hrun⟩ := hrest
  exact ⟨n :: ns, s', Iff.mpr runBatch_cons ⟨n, s₁, ns, h, hrun, rfl⟩⟩

/-- A batch of two parts runs the second from where the first ends. -/
theorem runBatch_append {first second : List (Stmt σ)} {clock : Nat → Int} {changes : Nat}
    {s s' : σ} {ns : List Nat} (h : runBatch (first ++ second) clock changes s = .ok (ns, s')) :
    ∃ ms s₁ clock' changes' ms', runBatch first clock changes s = .ok (ms, s₁) ∧
      runBatch second clock' changes' s₁ = .ok (ms', s') ∧ ns = ms ++ ms' := by
  induction first generalizing clock changes s ns with
  | nil => exact ⟨[], s, clock, changes, ns, by simp, h, rfl⟩
  | cons stmt first ih =>
    obtain ⟨n, s₁, ms, h1, h2, rfl⟩ := Iff.mp runBatch_cons h
    obtain ⟨ms₁, s₂, clock', changes', ms₂, h3, h4, rfl⟩ := ih h2
    exact ⟨n :: ms₁, s₂, clock', changes', ms₂, Iff.mpr runBatch_cons ⟨n, s₁, ms₁, h1, h3, rfl⟩, h4,
      rfl⟩

/-- A batch of two parts succeeds when the first does and the second does from where
the first ends. -/
theorem runBatch_append_ok {first second : List (Stmt σ)} {clock : Nat → Int}
    {changes : Nat} {s : σ} (h : ∃ ns s', runBatch first clock changes s = .ok (ns, s'))
    (h' : ∀ ns s', runBatch first clock changes s = .ok (ns, s') → ∀ clock changes, ∃ ms s'',
      runBatch second clock changes s' = .ok (ms, s'')) :
    ∃ ns s', runBatch (first ++ second) clock changes s = .ok (ns, s') := by
  induction first generalizing clock changes s with
  | nil => exact h' [] s (runBatch_nil.mpr ⟨rfl, rfl⟩) clock changes
  | cons stmt first ih =>
    obtain ⟨ns, s', hrun⟩ := h
    obtain ⟨n, s₁, ms, h1, hrest, -⟩ := Iff.mp runBatch_cons hrun
    obtain ⟨ms', s₂, hall⟩ := ih ⟨ms, s', hrest⟩ fun ns' s'' hrun' =>
      h' (n :: ns') s'' (Iff.mpr runBatch_cons ⟨n, s₁, ns', h1, hrun', rfl⟩)
    exact ⟨n :: ms', s₂, Iff.mpr runBatch_cons ⟨n, s₁, ms', h1, hall, rfl⟩⟩

/-- Statements that do nothing leave the rest of the batch to run from the
same state. -/
theorem runBatch_skip {idle rest : List (Stmt σ)} {clock : Nat → Int} {changes : Nat} {s s' : σ}
    {ns : List Nat} (hidle : ∀ stmt ∈ idle, ∀ now n, stmt now n s = .ok (0, s))
    (h : runBatch (idle ++ rest) clock changes s = .ok (ns, s')) :
    ∃ clock' changes' ms, runBatch rest clock' changes' s = .ok (ms, s') := by
  induction idle generalizing clock changes ns with
  | nil => exact ⟨clock, changes, ns, h⟩
  | cons stmt idle ih =>
    obtain ⟨n, s₁, ms, h1, h2, -⟩ := Iff.mp runBatch_cons h
    rw [hidle stmt List.mem_cons_self] at h1
    obtain ⟨rfl, rfl⟩ := Prod.mk.inj (Except.ok.inj h1)
    exact ih (fun st hst => hidle st (List.mem_cons_of_mem _ hst)) h2

/-- `db.batch`: the state of the last statement when all of them succeed, and
else the state of before. -/
def transact (batch : List (Stmt σ)) (clock : Nat → Int) (s : σ) : Except Abort (List Nat) × σ :=
  match runBatch batch clock 0 s with
  | .ok (ns, s') => (.ok ns, s')
  | .error e => (.error e, s)

theorem transact_cases (batch : List (Stmt σ)) (clock : Nat → Int) (s : σ) :
    (∃ e, runBatch batch clock 0 s = .error e ∧ transact batch clock s = (.error e, s)) ∨
    ∃ ns s', runBatch batch clock 0 s = .ok (ns, s') ∧ transact batch clock s = (.ok ns, s') := by
  unfold transact
  cases h : runBatch batch clock 0 s with
  | error e => exact .inl ⟨e, rfl, rfl⟩
  | ok p => exact .inr ⟨p.1, p.2, rfl, rfl⟩

/-- A relation that each statement keeps and that composes holds across a
whole batch. -/
theorem runBatch_rel {R : σ → σ → Prop} (hrefl : ∀ s, R s s)
    (htrans : ∀ {a b c}, R a b → R b c → R a c) {batch : List (Stmt σ)}
    (hstep : ∀ stmt ∈ batch, ∀ now changes s n s', stmt now changes s = .ok (n, s') → R s s')
    {clock : Nat → Int} {changes : Nat} {s s' : σ} {ns : List Nat}
    (h : runBatch batch clock changes s = .ok (ns, s')) : R s s' := by
  induction batch generalizing clock changes s ns with
  | nil =>
    obtain ⟨-, rfl⟩ := runBatch_nil.mp h
    exact hrefl _
  | cons stmt rest ih =>
    obtain ⟨n, s₁, ms, h1, h2, -⟩ := Iff.mp runBatch_cons h
    have hr := hstep stmt (List.mem_cons_self) _ _ _ _ _ h1
    exact htrans hr (ih (fun st hst => hstep st (List.mem_cons_of_mem _ hst)) h2)

/-- The whole batch or nothing: what holds of the state before and of every
state that a successful batch reaches holds after `db.batch`. -/
theorem transact_rel {R : σ → σ → Prop} (hrefl : ∀ s, R s s) {batch : List (Stmt σ)}
    {clock : Nat → Int} {s : σ}
    (h : ∀ ns s', runBatch batch clock 0 s = .ok (ns, s') → R s s') :
    R s (transact batch clock s).2 := by
  rcases transact_cases batch clock s with ⟨e, -, ht⟩ | ⟨ns, s', hr, ht⟩
  · rw [ht]; exact hrefl s
  · rw [ht]; exact h ns s' hr

/-- A clock of a batch that starts no sooner than a given time and never runs
backwards. -/
structure Advances (start : Int) (clock : Nat → Int) : Prop where
  from_start : start ≤ clock 0
  forward : ∀ i j, i ≤ j → clock i ≤ clock j

end Licensecc.Sql
