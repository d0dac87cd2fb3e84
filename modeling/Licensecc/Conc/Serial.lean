-- Programs that run one after another, in surroundings that change the state between
-- any two of their steps. A law that the surroundings keep, and that each write of a
-- safe program keeps, holds after any number of programs.
import Licensecc.Conc.System

namespace Licensecc.Conc.System

variable {σ ω ρ ι α : Type} (S : System σ ω ρ ι α) (around : σ → σ → Prop)

/-- One step while a program runs: a step of the program, or one of its surroundings. -/
inductive SoloStep : Prog σ ω ρ α × σ → Prog σ ω ρ α × σ → Prop
  | around {p s s'} : around s s' → SoloStep (p, s) (p, s')
  | read {k s} : SoloStep (.read k, s) (k s, s)
  | write {w k i s} : S.admits i s →
      SoloStep (.write w k, s) (k (some (S.exec i w s).1), (S.exec i w s).2)
  | failed {w k s} : SoloStep (.write w k, s) (k none, s)

/-- Programs one after another. Each can stop after any of its steps. -/
inductive Serial (s : σ) : σ → Prop
  | refl : Serial s s
  | around {s' s''} : Serial s s' → around s' s'' → Serial s s''
  | program {s' s'' p q} : Serial s s' → S.starts p →
      Relation.ReflTransGen (SoloStep S around) (p, s') (q, s'') → Serial s s''

/-- What a law of serial programs rests on. -/
structure SerialKeeps (rely : σ → σ → Prop) (φ : ω → σ → Prop) (I : σ → Prop) : Prop where
  refl : ∀ s, I s → rely s s
  trans : ∀ {a b c}, rely a b → rely b c → rely a c
  around : ∀ s s', I s → around s s' → rely s s' ∧ I s'
  inv : ∀ i w s, S.admits i s → φ w s → I s → I (S.exec i w s).2

variable {S around} {rely : σ → σ → Prop} {φ : ω → σ → Prop} {Q : α → σ → Prop} {I : σ → Prop}

theorem solo_safe (hk : S.SerialKeeps around rely φ I) {p q : Prog σ ω ρ α} {s s' : σ}
    (hp : p.Safe (S.env rely) φ Q s) (hs : I s)
    (h : Relation.ReflTransGen (SoloStep S around) (p, s) (q, s')) : I s' := by
  suffices hall : ∀ x : Prog σ ω ρ α × σ, Relation.ReflTransGen (SoloStep S around) (p, s) x →
      x.1.Safe (S.env rely) φ Q x.2 ∧ I x.2 from (hall _ h).2
  intro x hx
  induction hx with
  | refl => exact ⟨hp, hs⟩
  | tail _ hstep ih =>
    obtain ⟨hsafe, hI⟩ := ih
    cases hstep with
    | around hr =>
      obtain ⟨hrely, hI'⟩ := hk.around _ _ hI hr
      exact ⟨hsafe.rely hk.trans hrely, hI'⟩
    | read => exact ⟨hsafe _ (hk.refl _ hI), hI⟩
    | write hi =>
      obtain ⟨hφ, -, hsome⟩ := hsafe _ (hk.refl _ hI)
      exact ⟨hsome _ hi, hk.inv _ _ _ hi hφ hI⟩
    | failed => exact ⟨(hsafe _ (hk.refl _ hI)).2.1, hI⟩

/-- The rule of serial programs. -/
theorem serial_safe (hk : S.SerialKeeps around rely φ I)
    (hstart : ∀ p, S.starts p → ∀ s, I s → p.Safe (S.env rely) φ Q s) {s s' : σ} (hs : I s)
    (h : S.Serial around s s') : I s' := by
  induction h with
  | refl => exact hs
  | around _ hr ih => exact (hk.around _ _ ih hr).2
  | program _ hp hrun ih => exact solo_safe hk (hstart _ hp _ ih) ih hrun

end Licensecc.Conc.System
