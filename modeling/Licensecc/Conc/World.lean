-- The world of a database: its clock, the ids that it has handed out, and a
-- log of the writes that ran. The log is for the laws only, and no program
-- reads it.
import Licensecc.Conc.System
import Licensecc.Sql.Batch

open Licensecc.Sql

namespace Licensecc.Conc

/-- The last second that SQLite dates reach. -/
def maxUnixepoch : Int := 253402300799

/-- One write that ran, with the database before and after it. -/
structure Entry (δ ω ρ : Type) where
  write : ω
  result : ρ
  before : δ
  after : δ

/-- A database in time. The log has the newest entry first. -/
structure World (δ ω ρ : Type) where
  now : Int
  minted : List String
  db : δ
  log : List (Entry δ ω ρ)

/-- Each entry of a log meets a condition on the entries before it. -/
def Chronicle {δ ω ρ : Type} (P : List (Entry δ ω ρ) → Entry δ ω ρ → Prop) :
    List (Entry δ ω ρ) → Prop
  | [] => True
  | e :: older => P older e ∧ Chronicle P older

/-- What a write learns from outside: the readings of the clock, the time at
its end, and a random id. -/
structure Oracle where
  clock : Nat → Int
  finish : Int
  id : String

namespace World

variable {δ ω ρ α : Type}

/-- The clock never runs backwards, and the id is new. -/
structure Admits (o : Oracle) (w : World δ ω ρ) : Prop where
  advances : Advances w.now o.clock
  finish : ∀ n, o.clock n ≤ o.finish
  range : o.finish ≤ maxUnixepoch
  fresh : o.id ∉ w.minted

/-- The world after a write, for the effect of a write on the database. -/
def exec (apply : Oracle → ω → δ → ρ × δ) (o : Oracle) (write : ω) (w : World δ ω ρ) :
    ρ × World δ ω ρ :=
  let r := apply o write w.db
  (r.1, ⟨o.finish, o.id :: w.minted, r.2, ⟨write, r.1, w.db, r.2⟩ :: w.log⟩)

/-- The system of a database. -/
def system (apply : Oracle → ω → δ → ρ × δ) (starts : Prog (World δ ω ρ) ω ρ α → Prop) :
    System (World δ ω ρ) ω ρ Oracle α := ⟨exec apply, Admits, starts⟩

theorem Admits.le_finish {o : Oracle} {w : World δ ω ρ} (h : Admits o w) : w.now ≤ o.finish :=
  le_trans h.advances.from_start (h.finish 0)

theorem Admits.le_clock {o : Oracle} {w : World δ ω ρ} (h : Admits o w) (n : Nat) :
    w.now ≤ o.clock n := le_trans h.advances.from_start (h.advances.forward 0 n (Nat.zero_le n))

/-- The newest entry of a log is a write that left the database as it is. -/
theorem log_head {starts : Prog (World δ ω ρ) ω ρ α → Prop} {apply : Oracle → ω → δ → ρ × δ}
    {w : World δ ω ρ} {c : Config (World δ ω ρ) ω ρ α} (h0 : w.log = [])
    (h : (system apply starts).Reach ⟨w, []⟩ c) {e : Entry δ ω ρ} {older : List (Entry δ ω ρ)}
    (hlog : c.state.log = e :: older) :
    e.after = c.state.db ∧ ∃ o, apply o e.write e.before = (e.result, e.after) := by
  have hall := @System.reach_state _ _ _ _ _ (system apply starts) _ _
    (fun w => ∀ e older, w.log = e :: older →
      e.after = w.db ∧ ∃ o, apply o e.write e.before = (e.result, e.after))
    (fun o write w _ _ e older hcons => by
      obtain ⟨rfl, -⟩ := List.cons.inj hcons
      exact ⟨rfl, o, rfl⟩) h
    (fun e older hcons => by
      rw [h0] at hcons
      cases hcons)
  exact hall e older hlog

/-! ## Schedules -/

/-- One choice of a schedule. The number is the place of the program, and a
write runs in one instant. -/
inductive Action (δ ω ρ α : Type) where
  | start (p : Prog (World δ ω ρ) ω ρ α)
  | read (n : Nat)
  | write (n : Nat) (time : Int) (id : String)
  | lost (n : Nat) (time : Int) (id : String)

/-- The oracle of an instant. -/
def instant (time : Int) (id : String) : Oracle := ⟨fun _ => time, time, id⟩

/-- The instant is one that the world admits. -/
def Ahead (time : Int) (id : String) (w : World δ ω ρ) : Prop :=
  w.now ≤ time ∧ time ≤ maxUnixepoch ∧ id ∉ w.minted

instance (time : Int) (id : String) (w : World δ ω ρ) : Decidable (Ahead time id w) :=
  inferInstanceAs (Decidable (_ ∧ _ ∧ _))

theorem Ahead.admits {time : Int} {id : String} {w : World δ ω ρ} (h : Ahead time id w) :
    Admits (instant time id) w :=
  ⟨⟨h.1, fun _ _ _ => le_rfl⟩, fun _ => le_rfl, h.2.1, h.2.2⟩

/-- The configuration after a choice, when the system can take it. -/
def act (apply : Oracle → ω → δ → ρ × δ) (c : Config (World δ ω ρ) ω ρ α) :
    Action δ ω ρ α → Option (Config (World δ ω ρ) ω ρ α)
  | .start p => some { c with threads := p :: c.threads }
  | .read n =>
    match c.threads[n]? with
    | some (.read k) => some { c with threads := c.threads.set n (k c.state) }
    | _ => none
  | .write n time id =>
    match c.threads[n]? with
    | some (.write w k) =>
      let r := exec apply (instant time id) w c.state
      if Ahead time id c.state then some ⟨r.2, c.threads.set n (k (some r.1))⟩ else none
    | _ => none
  | .lost n time id =>
    match c.threads[n]? with
    | some (.write w k) =>
      let r := exec apply (instant time id) w c.state
      if Ahead time id c.state then some ⟨r.2, c.threads.set n (k none)⟩ else none
    | _ => none

/-- The configuration after a schedule. -/
def play (apply : Oracle → ω → δ → ρ × δ) (c : Config (World δ ω ρ) ω ρ α) :
    List (Action δ ω ρ α) → Option (Config (World δ ω ρ) ω ρ α)
  | [] => some c
  | a :: rest => (act apply c a).bind fun c' => play apply c' rest

/-- Every program that the schedule starts is one of the system. -/
def Starts (starts : Prog (World δ ω ρ) ω ρ α → Prop) : List (Action δ ω ρ α) → Prop
  | [] => True
  | .start p :: rest => starts p ∧ Starts starts rest
  | _ :: rest => Starts starts rest

variable {apply : Oracle → ω → δ → ρ × δ} {starts : Prog (World δ ω ρ) ω ρ α → Prop}
  {c c' : Config (World δ ω ρ) ω ρ α}

theorem step_of_act {a : Action δ ω ρ α} {rest : List (Action δ ω ρ α)}
    (h : act apply c a = some c') (ha : Starts starts (a :: rest)) :
    (system apply starts).Step c c' ∧ Starts starts rest := by
  cases a with
  | start p =>
    obtain rfl := Option.some.inj h
    exact ⟨.start ha.1, ha.2⟩
  | read n =>
    simp only [act] at h
    split at h
    · obtain rfl := Option.some.inj h
      exact ⟨.read ‹_›, ha⟩
    · cases h
  | write n time id =>
    simp only [act] at h
    split at h
    · rename_i hn
      obtain ⟨hahead, h⟩ := Option.ite_none_right_eq_some.mp h
      obtain rfl := Option.some.inj h
      exact ⟨.write (i := instant time id) hn hahead.admits, ha⟩
    · cases h
  | lost n time id =>
    simp only [act] at h
    split at h
    · rename_i hn
      obtain ⟨hahead, h⟩ := Option.ite_none_right_eq_some.mp h
      obtain rfl := Option.some.inj h
      exact ⟨.lost (i := instant time id) hn hahead.admits, ha⟩
    · cases h

/-- A schedule that plays to its end is a run. -/
theorem reach_of_play {as : List (Action δ ω ρ α)} (h : play apply c as = some c')
    (ha : Starts starts as) : (system apply starts).Reach c c' := by
  induction as generalizing c with
  | nil =>
    obtain rfl := Option.some.inj h
    exact .refl
  | cons a rest ih =>
    obtain ⟨c₁, h1, h2⟩ := Option.bind_eq_some_iff.mp h
    obtain ⟨hstep, hrest⟩ := step_of_act h1 ha
    exact .head hstep (ih h2 hrest)

end World

end Licensecc.Conc
