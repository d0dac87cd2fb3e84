-- Facts that last. The surroundings of a program are the writes of the other programs,
-- each of which meets its condition, and a fact that every such write keeps is still
-- there when the program goes on.
import Licensecc.Conc.System

namespace Licensecc.Conc

namespace Prog

variable {σ ω ρ α β : Type} {P : ω → Prop} {p : Prog σ ω ρ α}

/-- Every write that the program can come to is of one kind. -/
def Always (P : ω → Prop) : Prog σ ω ρ α → Prop
  | done _ => True
  | read k => ∀ s, Always P (k s)
  | write w k => P w ∧ ∀ r, Always P (k r)

theorem Always.pure {a : α} : (Pure.pure a : Prog σ ω ρ α).Always P := trivial

theorem Always.query {f : σ → α} : (query f : Prog σ ω ρ α).Always P := fun _ => trivial

theorem Always.request {w : ω} (h : P w) : (request w : Prog σ ω ρ (Option ρ)).Always P :=
  ⟨h, fun _ => trivial⟩

theorem Always.bind {f : α → Prog σ ω ρ β} (h : p.Always P) (hf : ∀ a, (f a).Always P) :
    (p >>= f).Always P := by
  rw [bind_eq]
  induction p with
  | done a => exact hf a
  | read k ih => exact fun s => ih s (h s)
  | write w k ih => exact ⟨h.1, fun r => ih r (h.2 r)⟩

theorem Always.ite {c : Prop} [Decidable c] {q : Prog σ ω ρ α} (hp : p.Always P)
    (hq : q.Always P) : (if c then p else q).Always P := by
  split
  · exact hp
  · exact hq

theorem Always.mono {P' : ω → Prop} (h : p.Always P) (hP : ∀ w, P w → P' w) : p.Always P' := by
  induction p with
  | done a => trivial
  | read k ih => exact fun s => ih s (h s)
  | write w k ih => exact ⟨hP w h.1, fun r => ih r (h.2 r)⟩

end Prog

namespace System

variable {σ ω ρ ι α β : Type} (S : System σ ω ρ ι α) (φ : ω → σ → Prop) (I : σ → Prop)

/-- One write that meets its condition, in a state with the invariant. -/
def Writes (s s' : σ) : Prop := ∃ i w, S.admits i s ∧ φ w s ∧ I s ∧ s' = (S.exec i w s).2

/-- Any number of such writes. -/
def Evolves : σ → σ → Prop := Relation.ReflTransGen (S.Writes φ I)

/-- Every such write keeps the fact. -/
def Stable (F : σ → Prop) : Prop :=
  ∀ i w s, S.admits i s → φ w s → I s → F s → F (S.exec i w s).2

variable {S φ I} {F K : σ → Prop}

theorem Stable.evolves (h : S.Stable φ I F) {s s' : σ} (he : S.Evolves φ I s s') (hs : F s) :
    F s' := by
  induction he with
  | refl => exact hs
  | tail _ hw ih =>
    obtain ⟨i, w, hi, hφ, hI, rfl⟩ := hw
    exact h i w _ hi hφ hI ih

theorem Stable.and (hF : S.Stable φ I F) (hK : S.Stable φ I K) :
    S.Stable φ I fun s => F s ∧ K s :=
  fun i w s hi hφ hI hs => ⟨hF i w s hi hφ hI hs.1, hK i w s hi hφ hI hs.2⟩

theorem stable_true : S.Stable φ I fun _ => True := fun _ _ _ _ _ _ _ => trivial

theorem evolves_keeps (hinv : S.Stable φ I I) : S.Keeps (S.Evolves φ I) φ I where
  refl _ _ := .refl
  trans h h' := h.trans h'
  inv i w s hi hφ hI := hinv i w s hi hφ hI hI
  guarantee i w s hi hφ hI := .single ⟨i, w, hi, hφ, hI, rfl⟩

/-! ## Programs with facts -/

/-- From a state with the invariant, the program is safe, and it ends with the fact. -/
def Ensures (S : System σ ω ρ ι α) (φ : ω → σ → Prop) (I : σ → Prop) (F : β → σ → Prop)
    (p : Prog σ ω ρ β) (s : σ) : Prop :=
  p.Safe (S.env (S.Evolves φ I)) φ (fun a s => I s ∧ F a s) s

section
variable (hinv : S.Stable φ I I) {F : β → σ → Prop} {s : σ}
include hinv

theorem Ensures.done {b : β} (hI : I s) (hF : S.Stable φ I (F b)) (h : F b s) :
    S.Ensures φ I F (pure b) s :=
  fun _ he => ⟨hinv.evolves he hI, hF.evolves he h⟩

/-- A read gives a fact of its own state that lasts. -/
theorem Ensures.query {f : σ → β} (hI : I s) (hK : S.Stable φ I K) (hs : K s)
    (hF : ∀ b, S.Stable φ I (F b)) (h : ∀ s', I s' → K s' → F (f s') s') :
    S.Ensures φ I F (Prog.query f) s := by
  refine Prog.Safe.query fun s' s'' h1 h2 => ?_
  have hI' := hinv.evolves h1 hI
  exact ⟨hinv.evolves h2 hI', (hF _).evolves h2 (h s' hI' (hK.evolves h1 hs))⟩

/-- A write runs in a state in which its condition follows from what lasts. -/
theorem Ensures.request {w : ω} {F : Option ρ → σ → Prop} (hI : I s) (hK : S.Stable φ I K)
    (hs : K s) (hF : ∀ r, S.Stable φ I (F r)) (hφ : ∀ s', I s' → K s' → φ w s')
    (hnone : ∀ s', I s' → K s' → F none s')
    (hsome : ∀ i s', S.admits i s' → I s' → K s' → F (some (S.exec i w s').1) (S.exec i w s').2) :
    S.Ensures φ I F (Prog.request w) s := by
  refine Prog.Safe.request (fun s' h1 => hφ s' (hinv.evolves h1 hI) (hK.evolves h1 hs))
    (fun s' s'' h1 h2 => ?_) fun s' s'' i h1 hi h2 => ?_
  · have hI' := hinv.evolves h1 hI
    exact ⟨hinv.evolves h2 hI', (hF _).evolves h2 (hnone s' hI' (hK.evolves h1 hs))⟩
  · have hI' := hinv.evolves h1 hI
    have hK' := hK.evolves h1 hs
    have hI'' := hinv i w s' hi (hφ s' hI' hK') hI' hI'
    exact ⟨hinv.evolves h2 hI'', (hF _).evolves h2 (hsome i s' hi hI' hK')⟩

omit hinv in
theorem Ensures.bind {γ : Type} {p : Prog σ ω ρ β} {f : β → Prog σ ω ρ γ} {F' : γ → σ → Prop}
    (h : S.Ensures φ I F p s) (hf : ∀ b s', I s' → F b s' → S.Ensures φ I F' (f b) s') :
    S.Ensures φ I F' (p >>= f) s := by
  refine Prog.Safe.bind h fun b s' hb => ?_
  obtain ⟨hI, hF⟩ := hb s' .refl
  exact hf b s' hI hF

end

/-! ## Programs that owe nothing -/

/-- A program that only makes writes that meet their condition everywhere keeps every fact
that lasts. -/
theorem Ensures.of_always (hinv : S.Stable φ I I) {P : ω → Prop} (hφ : ∀ w, P w → ∀ s, φ w s)
    {p : Prog σ ω ρ β} (hp : p.Always P) {s : σ} (hI : I s) (hK : S.Stable φ I K) (hs : K s) :
    S.Ensures φ I (fun _ => K) p s := by
  induction p generalizing s with
  | done b => exact fun s' he => ⟨hinv.evolves he hI, hK.evolves he hs⟩
  | read k ih =>
    intro s' he
    exact ih s' (hp s') (hinv.evolves he hI) (hK.evolves he hs)
  | write w k ih =>
    intro s' he
    have hI' := hinv.evolves he hI
    have hK' := hK.evolves he hs
    have hφ' := hφ w hp.1 s'
    refine ⟨hφ', ih none (hp.2 none) hI' hK', fun i hi => ?_⟩
    exact ih _ (hp.2 _) (hinv i w s' hi hφ' hI' hI') (hK i w s' hi hφ' hI' hK')

/-- In every run of programs that are safe from every state with the invariant, the
invariant holds. -/
theorem reach_inv (hinv : S.Stable φ I I)
    (hstart : ∀ p, S.starts p → ∀ s, I s → S.Ensures φ I (fun _ _ => True) p s) {s : σ} (h0 : I s)
    {c : Config σ ω ρ α} (h : S.Reach ⟨s, []⟩ c) : I c.state :=
  (reach_safe (evolves_keeps hinv) hstart h0 h).inv

end System

end Licensecc.Conc
