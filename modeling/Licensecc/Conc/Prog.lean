-- Programs that read and write a shared state one step at a time, and the
-- rule that proves them. Between two steps of a program the state can change
-- in any way that the other programs may change it.
import Mathlib.Tactic.Common

namespace Licensecc.Conc

/-- A program over states `σ`, writes `ω` and results `ρ`. A write gives no
result when its answer is lost or when it never ran. -/
inductive Prog (σ ω ρ α : Type) where
  | done (a : α)
  | read (k : σ → Prog σ ω ρ α)
  | write (w : ω) (k : Option ρ → Prog σ ω ρ α)

namespace Prog

variable {σ ω ρ α β ι : Type}

def bind (p : Prog σ ω ρ α) (f : α → Prog σ ω ρ β) : Prog σ ω ρ β :=
  match p with
  | done a => f a
  | read k => read fun s => bind (k s) f
  | write w k => write w fun r => bind (k r) f

instance : Monad (Prog σ ω ρ) where
  pure := done
  bind := bind

theorem pure_eq (a : α) : (pure a : Prog σ ω ρ α) = done a := rfl

theorem bind_eq (p : Prog σ ω ρ α) (f : α → Prog σ ω ρ β) : (p >>= f) = p.bind f := rfl

/-- One read of the state. -/
def query (f : σ → α) : Prog σ ω ρ α := read fun s => done (f s)

/-- One write. -/
def request (w : ω) : Prog σ ω ρ (Option ρ) := write w done

/-- The value of a program that is at its end. -/
def value? : Prog σ ω ρ α → Option α
  | done a => some a
  | _ => none

theorem value?_eq_some {p : Prog σ ω ρ α} {a : α} : p.value? = some a ↔ p = done a := by
  cases p <;> simp [value?]

/-- What a program does up to its first write when nothing changes the state:
its value, or the write. -/
def alone (s : σ) : Prog σ ω ρ α → α ⊕ ω
  | done a => .inl a
  | read k => alone s (k s)
  | write w _ => .inr w

/-! ## Safety of one program -/

/-- What the programs share: the step of a write, the oracles that a state
admits for it, and the changes that others can make meanwhile. -/
structure Env (σ ω ρ ι : Type) where
  exec : ι → ω → σ → ρ × σ
  admits : ι → σ → Prop
  rely : σ → σ → Prop

/-- Every write of the program meets `φ` in the state in which it runs, and
every value that it ends with meets `Q` from then on. -/
def Safe (E : Env σ ω ρ ι) (φ : ω → σ → Prop) (Q : α → σ → Prop) : Prog σ ω ρ α → σ → Prop
  | done a, s => ∀ s', E.rely s s' → Q a s'
  | read k, s => ∀ s', E.rely s s' → Safe E φ Q (k s') s'
  | write w k, s => ∀ s', E.rely s s' → φ w s' ∧ Safe E φ Q (k none) s' ∧
      ∀ i, E.admits i s' → Safe E φ Q (k (some (E.exec i w s').1)) (E.exec i w s').2

variable {E : Env σ ω ρ ι} {φ : ω → σ → Prop} {Q : α → σ → Prop}

/-- What others do keeps a program safe. -/
theorem Safe.rely (htrans : ∀ {a b c}, E.rely a b → E.rely b c → E.rely a c)
    {p : Prog σ ω ρ α} {s s' : σ} (h : Safe E φ Q p s) (hr : E.rely s s') : Safe E φ Q p s' := by
  cases p with
  | done a => exact fun s'' hr' => h s'' (htrans hr hr')
  | read k => exact fun s'' hr' => h s'' (htrans hr hr')
  | write w k => exact fun s'' hr' => h s'' (htrans hr hr')

theorem Safe.done {a : α} {s : σ} (h : ∀ s', E.rely s s' → Q a s') :
    Safe E φ Q (Prog.done a) s := h

/-- The rule of a sequence. -/
theorem Safe.bind {Q' : β → σ → Prop} {f : α → Prog σ ω ρ β}
    {p : Prog σ ω ρ α} {s : σ} (hp : Safe E φ Q p s)
    (hf : ∀ a s', (∀ s'', E.rely s' s'' → Q a s'') → Safe E φ Q' (f a) s') :
    Safe E φ Q' (p >>= f) s := by
  rw [bind_eq]
  induction p generalizing s with
  | done a => exact hf a s hp
  | read k ih => exact fun s' hr => ih s' (hp s' hr)
  | write w k ih =>
    intro s' hr
    obtain ⟨h1, h2, h3⟩ := hp s' hr
    exact ⟨h1, ih none h2, fun i hi => ih _ (h3 i hi)⟩

/-- The rule of a read: what the read says of its own state has to last. -/
theorem Safe.query {f : σ → α} {s : σ}
    (h : ∀ s' s'', E.rely s s' → E.rely s' s'' → Q (f s') s'') :
    Safe E φ Q (query f) s := fun s' h1 s'' h2 => h s' s'' h1 h2

/-- The rule of a write. -/
theorem Safe.request {w : ω} {Q : Option ρ → σ → Prop} {s : σ}
    (hw : ∀ s', E.rely s s' → φ w s')
    (hnone : ∀ s' s'', E.rely s s' → E.rely s' s'' → Q none s'')
    (hsome : ∀ s' s'' i, E.rely s s' → E.admits i s' → E.rely (E.exec i w s').2 s'' →
      Q (some (E.exec i w s').1) s'') :
    Safe E φ Q (Prog.request w) s :=
  fun s' h1 => ⟨hw s' h1, fun s'' h2 => hnone s' s'' h1 h2, fun i hi s'' h2 => hsome s' s'' i h1 hi h2⟩

/-- A fact that nothing changes, neither the others nor the program, holds at the end. -/
theorem Safe.frame {F : σ → Prop} (hrely : ∀ {s s'}, E.rely s s' → F s → F s')
    (hexec : ∀ {i w s}, E.admits i s → φ w s → F s → F (E.exec i w s).2) {p : Prog σ ω ρ α} {s : σ}
    (h : Safe E φ Q p s) (hs : F s) : Safe E φ (fun a s => Q a s ∧ F s) p s := by
  induction p generalizing s with
  | done a => exact fun s' hr => ⟨h s' hr, hrely hr hs⟩
  | read k ih => exact fun s' hr => ih s' (h s' hr) (hrely hr hs)
  | write w k ih =>
    intro s' hr
    obtain ⟨h1, h2, h3⟩ := h s' hr
    have hs' := hrely hr hs
    exact ⟨h1, ih none h2 hs', fun i hi => ih _ (h3 i hi) (hexec hi h1 hs')⟩

theorem Safe.mono {φ' : ω → σ → Prop} {Q' : α → σ → Prop} {p : Prog σ ω ρ α} {s : σ}
    (h : Safe E φ Q p s) (hφ : ∀ w s, φ w s → φ' w s) (hQ : ∀ a s, Q a s → Q' a s) :
    Safe E φ' Q' p s := by
  induction p generalizing s with
  | done a => exact fun s' hr => hQ a s' (h s' hr)
  | read k ih => exact fun s' hr => ih s' (h s' hr)
  | write w k ih =>
    intro s' hr
    obtain ⟨h1, h2, h3⟩ := h s' hr
    exact ⟨hφ w s' h1, ih none h2, fun i hi => ih _ (h3 i hi)⟩

/-- A program that owes nothing is safe. -/
theorem Safe.trivial (p : Prog σ ω ρ α) (s : σ) :
    Safe E (fun _ _ => True) (fun _ _ => True) p s := by
  induction p generalizing s with
  | done a => exact fun _ _ => ⟨⟩
  | read k ih => exact fun s' _ => ih s' s'
  | write w k ih => exact fun s' _ => ⟨⟨⟩, ih none s', fun i _ => ih _ _⟩

/-! ## Programs that can fail -/

section
variable {ε : Type}

/-- A program that can fail is safe when it is safe and each value that it
ends with meets `Q`. An error needs nothing. -/
def Ends (E : Env σ ω ρ ι) (φ : ω → σ → Prop) (Q : α → σ → Prop)
    (x : ExceptT ε (Prog σ ω ρ) α) (s : σ) : Prop :=
  Safe E φ (fun r s => ∀ a, r = .ok a → Q a s) x.run s

theorem Ends.pure {a : α} {s : σ} (h : ∀ s', E.rely s s' → Q a s') :
    Ends E φ Q (pure a : ExceptT ε (Prog σ ω ρ) α) s := by
  intro s' hr b hb
  obtain rfl := Except.ok.inj hb
  exact h s' hr

theorem Ends.throw {e : ε} {s : σ} : Ends E φ Q (throw e : ExceptT ε (Prog σ ω ρ) α) s :=
  fun _ _ _ hb => nomatch hb

theorem Ends.lift {p : Prog σ ω ρ α} {s : σ} (h : Safe E φ Q p s) :
    Ends E φ Q (ExceptT.lift p : ExceptT ε (Prog σ ω ρ) α) s := by
  refine Safe.bind h fun a s' ha s'' hr b hb => ?_
  obtain rfl := Except.ok.inj hb
  exact ha s'' hr

theorem Ends.bind {Q' : β → σ → Prop} {x : ExceptT ε (Prog σ ω ρ) α}
    {f : α → ExceptT ε (Prog σ ω ρ) β} {s : σ} (hx : Ends E φ Q x s)
    (hf : ∀ a s', (∀ s'', E.rely s' s'' → Q a s'') → Ends E φ Q' (f a) s') :
    Ends E φ Q' (x >>= f) s := by
  refine Safe.bind hx fun r s' hr => ?_
  cases r with
  | ok a => exact hf a s' fun s'' h => hr s'' h a rfl
  | error e => exact fun _ _ _ hb => nomatch hb

theorem Ends.trivial (x : ExceptT ε (Prog σ ω ρ) α) (s : σ) :
    Ends E (fun _ _ => True) (fun _ _ => True) x s :=
  (Safe.trivial x.run s).mono (fun _ _ _ => ⟨⟩) fun _ _ _ _ _ => ⟨⟩

theorem Ends.tryCatch {x : ExceptT ε (Prog σ ω ρ) α} {f : ε → ExceptT ε (Prog σ ω ρ) α} {s : σ}
    (hx : Ends E φ Q x s) (hf : ∀ e s', Ends E φ Q (f e) s') :
    Ends E φ Q (tryCatch x f) s := by
  refine Safe.bind hx fun r s' hr => ?_
  cases r with
  | ok a => exact fun s'' h => hr s'' h
  | error e => exact hf e s'

/-! ## Programs alone -/

theorem alone_bind (p : Prog σ ω ρ α) (f : α → Prog σ ω ρ β) (s : σ) :
    alone s (p >>= f) = match alone s p with
      | .inl a => alone s (f a)
      | .inr w => .inr w := by
  rw [bind_eq]
  induction p with
  | done a => rfl
  | read k ih => exact ih s
  | write w k => rfl

/-- The program alone ends with this value. -/
def Yields (s : σ) (x : ExceptT ε (Prog σ ω ρ) α) (a : α) : Prop := alone s x.run = .inl (.ok a)

/-- The program alone ends with this error. -/
def Fails (s : σ) (x : ExceptT ε (Prog σ ω ρ) α) (e : ε) : Prop := alone s x.run = .inl (.error e)

/-- The program alone comes to this write. -/
def Writes (s : σ) (x : ExceptT ε (Prog σ ω ρ) α) (w : ω) : Prop := alone s x.run = .inr w

variable {s : σ} {x : ExceptT ε (Prog σ ω ρ) α} {f : α → ExceptT ε (Prog σ ω ρ) β} {w : ω}

theorem alone_run_bind (s : σ) (x : ExceptT ε (Prog σ ω ρ) α)
    (f : α → ExceptT ε (Prog σ ω ρ) β) : alone s (x >>= f).run = match alone s x.run with
      | .inl (.ok a) => alone s (f a).run
      | .inl (.error e) => .inl (.error e)
      | .inr w => .inr w := by
  rw [ExceptT.run_bind, alone_bind]
  rcases alone s x.run with (e | a) | w
  · rfl
  · rfl
  · rfl

@[simp] theorem yields_bind {b : β} : Yields s (x >>= f) b ↔ ∃ a, Yields s x a ∧ Yields s (f a) b := by
  unfold Yields
  rw [alone_run_bind]
  rcases alone s x.run with (e | a) | w <;> simp

@[simp] theorem writes_bind :
    Writes s (x >>= f) w ↔ Writes s x w ∨ ∃ a, Yields s x a ∧ Writes s (f a) w := by
  unfold Writes Yields
  rw [alone_run_bind]
  rcases alone s x.run with (e | a) | w <;> simp

@[simp] theorem yields_pure {a b : α} :
    Yields s (pure a : ExceptT ε (Prog σ ω ρ) α) b ↔ b = a := by
  simp [Yields, ExceptT.run_pure, pure_eq, alone, eq_comm]

@[simp] theorem not_writes_pure {a : α} :
    ¬ Writes s (pure a : ExceptT ε (Prog σ ω ρ) α) w := nofun

@[simp] theorem not_yields_throw {e : ε} {a : α} :
    ¬ Yields s (throw e : ExceptT ε (Prog σ ω ρ) α) a := nofun

@[simp] theorem not_writes_throw {e : ε} :
    ¬ Writes s (throw e : ExceptT ε (Prog σ ω ρ) α) w := nofun

@[simp] theorem yields_query {g : σ → α} {a : α} :
    Yields s (ExceptT.lift (query g) : ExceptT ε (Prog σ ω ρ) α) a ↔ a = g s := by
  simp [Yields, ExceptT.lift, query, ExceptT.run, ExceptT.mk, Functor.map, bind, alone, eq_comm]

@[simp] theorem not_writes_query {g : σ → α} :
    ¬ Writes s (ExceptT.lift (query g) : ExceptT ε (Prog σ ω ρ) α) w := nofun

@[simp] theorem writes_request {v : ω} :
    Writes s (ExceptT.lift (request v) : ExceptT ε (Prog σ ω ρ) (Option ρ)) w ↔ w = v := by
  simp [Writes, ExceptT.lift, request, ExceptT.run, ExceptT.mk, Functor.map, bind, alone, eq_comm]

@[simp] theorem not_yields_request {v : ω} {a : Option ρ} :
    ¬ Yields s (ExceptT.lift (request v) : ExceptT ε (Prog σ ω ρ) (Option ρ)) a := nofun

theorem alone_run_tryCatch (s : σ) (x : ExceptT ε (Prog σ ω ρ) α)
    (g : ε → ExceptT ε (Prog σ ω ρ) α) :
    alone s (tryCatch x g : ExceptT ε (Prog σ ω ρ) α).run = match alone s x.run with
      | .inl (.ok a) => .inl (.ok a)
      | .inl (.error e) => alone s (g e).run
      | .inr w => .inr w := by
  refine (alone_bind x.run _ s).trans ?_
  rcases alone s x.run with (e | a) | w
  · rfl
  · rfl
  · rfl

theorem yields_tryCatch {g : ε → ExceptT ε (Prog σ ω ρ) α} {a : α} :
    Yields s (tryCatch x g) a ↔ Yields s x a ∨ ∃ e, Fails s x e ∧ Yields s (g e) a := by
  unfold Yields Fails
  rw [alone_run_tryCatch]
  rcases alone s x.run with (e | a) | w <;> simp

theorem writes_tryCatch {g : ε → ExceptT ε (Prog σ ω ρ) α} :
    Writes s (tryCatch x g) w ↔ Writes s x w ∨ ∃ e, Fails s x e ∧ Writes s (g e) w := by
  unfold Writes Fails
  rw [alone_run_tryCatch]
  rcases alone s x.run with (e | a) | w <;> simp

end

end Prog

end Licensecc.Conc
