-- Credits. The answer of one write gives a program a credit, and another write costs
-- one. Whatever overlaps, fails or crashes, no more credits are spent than were given.
import Licensecc.Conc.Stable

namespace Licensecc.Conc

variable {σ ω ρ ι α β : Type}

namespace Prog

variable (cost : ω → Nat) (gain : ρ → Nat)

/-- With this many credits the program can pay for each of its writes, and it has `Q a`
of them left when it ends with `a`. -/
def Solvent (Q : α → Nat) : Prog σ ω ρ α → Nat → Prop
  | done a, n => Q a ≤ n
  | read k, n => ∀ s, Solvent Q (k s) n
  | write w k, n => cost w ≤ n ∧ Solvent Q (k none) (n - cost w) ∧
      ∀ r, Solvent Q (k (some r)) (n - cost w + gain r)

variable {cost gain} {Q : α → Nat} {Q' : β → Nat} {p : Prog σ ω ρ α} {n m : Nat}

theorem Solvent.mono (h : p.Solvent cost gain Q n) (hle : n ≤ m) : p.Solvent cost gain Q m := by
  induction p generalizing n m with
  | done a => exact Nat.le_trans h hle
  | read k ih => exact fun s => ih s (h s) hle
  | write w k ih =>
    obtain ⟨h1, h2, h3⟩ := h
    exact ⟨by omega, ih none h2 (by omega), fun r => ih _ (h3 r) (by omega)⟩

theorem Solvent.bind {f : α → Prog σ ω ρ β} (h : p.Solvent cost gain Q n)
    (hf : ∀ a, (f a).Solvent cost gain Q' (Q a)) : (p >>= f).Solvent cost gain Q' n := by
  rw [bind_eq]
  induction p generalizing n with
  | done a => exact (hf a).mono h
  | read k ih => exact fun s => ih s (h s)
  | write w k ih =>
    obtain ⟨h1, h2, h3⟩ := h
    exact ⟨h1, ih none h2, fun r => ih _ (h3 r)⟩

theorem Solvent.pure {a : α} (h : Q a ≤ n) :
    (Pure.pure a : Prog σ ω ρ α).Solvent cost gain Q n := h

theorem Solvent.query {f : σ → α} (h : ∀ s, Q (f s) ≤ n) :
    (query f : Prog σ ω ρ α).Solvent cost gain Q n := h

theorem Solvent.request {w : ω} {Q : Option ρ → Nat} (hcost : cost w ≤ n)
    (hnone : Q none ≤ n - cost w) (hsome : ∀ r, Q (some r) ≤ n - cost w + gain r) :
    (Prog.request w : Prog σ ω ρ (Option ρ)).Solvent cost gain Q n := ⟨hcost, hnone, hsome⟩

/-- A program whose writes cost nothing needs no credit. -/
theorem Solvent.of_always (h : p.Always fun w => cost w = 0) :
    p.Solvent cost gain (fun _ => 0) n := by
  induction p generalizing n with
  | done a => exact Nat.zero_le _
  | read k ih => exact fun s => ih s (h s)
  | write w k ih =>
    have hcost : cost w = 0 := h.1
    exact ⟨by omega, ih none (h.2 none), fun r => ih _ (h.2 _)⟩

end Prog

namespace System

variable {S : System σ ω ρ ι α} {cost : ω → Nat} {gain : ρ → Nat} {c c' : Config σ ω ρ α}
  {ts : List (Prog σ ω ρ α)} {k : Nat}

/-- The programs can pay, each with a share of the credits. -/
def Funded (cost : ω → Nat) (gain : ρ → Nat) : List (Prog σ ω ρ α) → Nat → Prop
  | [], _ => True
  | p :: rest, k => ∃ n m, n + m ≤ k ∧ p.Solvent cost gain (fun _ => 0) n ∧ Funded cost gain rest m

theorem Funded.mono {k' : Nat} (h : Funded cost gain ts k) (hle : k ≤ k') :
    Funded cost gain ts k' := by
  cases ts with
  | nil => trivial
  | cons p rest =>
    obtain ⟨n, m, hsum, hp, hrest⟩ := h
    exact ⟨n, m, by omega, hp, hrest⟩

/-- One program has its share, and it can go on as any program that can pay with what it
then has. -/
theorem Funded.set {j : Nat} {p : Prog σ ω ρ α} (h : Funded cost gain ts k)
    (hj : ts[j]? = some p) : ∃ n, n ≤ k ∧ p.Solvent cost gain (fun _ => 0) n ∧
      ∀ (q : Prog σ ω ρ α) n', q.Solvent cost gain (fun _ => 0) n' →
        Funded cost gain (ts.set j q) (k - n + n') := by
  induction ts generalizing j k with
  | nil => simp at hj
  | cons t rest ih =>
    obtain ⟨n, m, hsum, ht, hrest⟩ := h
    cases j with
    | zero =>
      obtain rfl := Option.some.inj hj
      exact ⟨n, by omega, ht, fun q n' hq => ⟨n', m, by omega, hq, hrest⟩⟩
    | succ j =>
      obtain ⟨n₁, hle, hp, hset⟩ := ih hrest (by simpa using hj)
      refine ⟨n₁, by omega, hp, fun q n' hq => ?_⟩
      exact ⟨n, m - n₁ + n', by omega, ht, hset q n' hq⟩

theorem Funded.eraseIdx {j : Nat} (h : Funded cost gain ts k) :
    Funded cost gain (ts.eraseIdx j) k := by
  induction ts generalizing j k with
  | nil => trivial
  | cons t rest ih =>
    obtain ⟨n, m, hsum, ht, hrest⟩ := h
    cases j with
    | zero => exact hrest.mono (by omega)
    | succ j => exact ⟨n, m, hsum, ht, ih hrest⟩

/-- What is spent and what the programs can still spend is covered by what was given. -/
def Covered (cost : ω → Nat) (gain : ρ → Nat) (spent given : σ → Nat) (c : Config σ ω ρ α) :
    Prop := ∃ k, spent c.state + k ≤ given c.state ∧ Funded cost gain c.threads k

section
variable {spent given : σ → Nat}

theorem Covered.after_write (hstep : ∀ i w s, S.admits i s →
      spent (S.exec i w s).2 ≤ spent s + cost w ∧
      given s + gain (S.exec i w s).1 ≤ given (S.exec i w s).2)
    (h : Covered cost gain spent given c) {j : Nat} {w : ω} {k : Option ρ → Prog σ ω ρ α} {i : ι}
    (hj : c.threads[j]? = some (.write w k)) (hi : S.admits i c.state) {q : Prog σ ω ρ α}
    (hq : q = k none ∨ q = k (some (S.exec i w c.state).1)) :
    Covered cost gain spent given ⟨(S.exec i w c.state).2, c.threads.set j q⟩ := by
  obtain ⟨credits, hle, hfunded⟩ := h
  obtain ⟨n, hn, ⟨hcost, hnone, hsome⟩, hset⟩ := hfunded.set hj
  obtain ⟨hspent, hgiven⟩ := hstep i w c.state hi
  rcases hq with rfl | rfl
  · refine ⟨_, ?_, hset _ _ hnone⟩
    simp only
    omega
  · refine ⟨_, ?_, hset _ _ (hsome _)⟩
    simp only
    omega

variable (cost gain spent given) in
/-- In every run of programs that can pay for what they do, no more is spent than was
given. -/
theorem reach_covered (hstart : ∀ p, S.starts p → p.Solvent cost gain (fun _ => 0) 0)
    (hstep : ∀ i w s, S.admits i s → spent (S.exec i w s).2 ≤ spent s + cost w ∧
      given s + gain (S.exec i w s).1 ≤ given (S.exec i w s).2)
    {s : σ} (h0 : spent s ≤ given s) (h : S.Reach ⟨s, []⟩ c) :
    spent c.state ≤ given c.state := by
  suffices hcovered : Covered cost gain spent given c by
    obtain ⟨k, hle, -⟩ := hcovered
    omega
  induction h with
  | refl => exact ⟨0, h0, trivial⟩
  | tail _ hs ih =>
    cases hs with
    | start hp =>
      obtain ⟨k, hle, hfunded⟩ := ih
      exact ⟨k, hle, 0, k, by omega, hstart _ hp, hfunded⟩
    | read hj =>
      obtain ⟨k, hle, hfunded⟩ := ih
      obtain ⟨n, hn, hread, hset⟩ := hfunded.set hj
      exact ⟨_, by simp only; omega, hset _ n (hread _)⟩
    | write hj hi => exact ih.after_write hstep hj hi (.inr rfl)
    | lost hj hi => exact ih.after_write hstep hj hi (.inl rfl)
    | failed hj =>
      obtain ⟨k, hle, hfunded⟩ := ih
      obtain ⟨n, hn, ⟨-, hnone, -⟩, hset⟩ := hfunded.set hj
      exact ⟨_, by simp only; omega, hset _ _ hnone⟩
    | crash =>
      obtain ⟨k, hle, hfunded⟩ := ih
      exact ⟨k, hle, hfunded.eraseIdx⟩

end

end System

end Licensecc.Conc
