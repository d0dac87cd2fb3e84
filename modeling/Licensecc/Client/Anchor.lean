-- The anchor of a lease in the client. It takes one sample of two clocks before the
-- request is sent, and counts the time of the lease from there. One clock runs on
-- while the machine sleeps and the other stands still, and the anchor gives the lease
-- up when the two no longer advance together.
import Licensecc.Client.Lease
import Licensecc.Conc.Machine
import Mathlib.Algebra.Order.Floor.Div
import Mathlib.Algebra.Order.Group.Abs
import Mathlib.Algebra.Order.Group.Int

open Licensecc.Codec Licensecc.Protocol Licensecc.Conc

namespace Licensecc.Client

/-! ## Samples -/

/-- A reading of the clock that counts sleep, between two readings of the clock that
does not. A tick is 100 ns. -/
structure BoundClockSample where
  inclusive : Nat
  awake_before : Nat
  awake_after : Nat
  process_id : Nat
  deriving DecidableEq

def ticks_per_second : Nat := 10000000

/-- The largest number of an `std::int64_t`. -/
def int64_max : Nat := 9223372036854775807

def sample_valid (s : BoundClockSample) : Bool :=
  s.process_id ≠ 0 && s.inclusive ≤ int64_max && s.awake_after ≤ int64_max &&
    s.awake_before ≤ s.inclusive && s.awake_before ≤ s.awake_after &&
    s.awake_after - s.awake_before ≤ 100000

/-- The least time that the machine has slept. Both readings fit in an `std::int64_t`. -/
def low (s : BoundClockSample) : Int := (s.inclusive : Int) - s.awake_after

def high (s : BoundClockSample) : Int := (s.inclusive : Int) - s.awake_before

def bound_effective_time (issued_at original_ticks current_ticks : Nat) : Option Nat :=
  if safe_max < issued_at ∨ current_ticks < original_ticks then none
  else
    let elapsed := current_ticks - original_ticks
    let seconds := elapsed / ticks_per_second + if elapsed % ticks_per_second ≠ 0 then 1 else 0
    if safe_max - issued_at < seconds then none else some (issued_at + seconds)

/-! ## The anchor -/

/-- The anchor, with the number of samples that its platform has given. -/
structure BoundLeaseAnchor where
  operation_id : Bytes
  original : BoundClockSample
  previous : BoundClockSample
  bias_low : Int
  bias_high : Int
  live : Bool
  samples : Nat
  deriving DecidableEq

inductive BoundAnchorResult where
  | accepted (claims : BoundLeaseClaims) (effective_time : Nat)
  | invalid_lease
  | continuity_lost

/-- `create`, for the random bytes and the first sample of the platform. -/
def BoundLeaseAnchor.create (random : Option Bytes) (sample : Option BoundClockSample) :
    Option BoundLeaseAnchor := do
  let random ← random
  let operation_id := bytesOf (encode64 urlAlphabet random)
  if !token operation_id 32 then none
  let original ← sample
  if !sample_valid original then none
  return {
    operation_id := operation_id
    original := original
    previous := original
    bias_low := low original
    bias_high := high original
    live := true
    samples := 1 }

/-- `observe`. Its value is whether the anchor is still live. -/
def BoundLeaseAnchor.observe (a : BoundLeaseAnchor) (sample : BoundClockSample) :
    BoundLeaseAnchor :=
  if !a.live || !sample_valid sample || sample.process_id ≠ a.original.process_id ||
      sample.inclusive < a.previous.inclusive || sample.awake_before < a.previous.awake_after ||
      sample.awake_after < a.previous.awake_after then { a with live := false }
  else
    let next_low := max a.bias_low (low sample)
    let next_high := min a.bias_high (high sample)
    if next_high < next_low then { a with live := false }
    else { a with bias_low := next_low, bias_high := next_high, previous := sample }

/-- What each call of `sample` gives. A call that fails gives nothing. -/
abbrev AnchorClock := Nat → Option BoundClockSample

/-- One sample that is observed. It has no value when the continuity is lost. -/
def BoundLeaseAnchor.sample (clock : AnchorClock) (a : BoundLeaseAnchor) :
    Option BoundClockSample × BoundLeaseAnchor :=
  match clock a.samples with
  | none => (none, { a with live := false, samples := a.samples + 1 })
  | some s =>
    let next := { a with samples := a.samples + 1 }.observe s
    (if next.live then some s else none, next)

/-- A call of `check`. -/
structure AnchorCheck where
  token : Bytes
  keys : List BoundLeaseTrustKey
  expected : BoundLeaseExpected

section
variable (crypto : Crypto)

/-- The claims that verify at the time of a sample. -/
def AnchorCheck.candidate (c : AnchorCheck) (original current : Nat) : Option BoundLeaseClaims := do
  let parsed ← decode_bound_lease c.token
  let now ← bound_effective_time parsed.claims.issued_at original current
  verify_bound_lease crypto c.token c.keys c.expected now

def BoundLeaseAnchor.check (clock : AnchorClock) (c : AnchorCheck) (a : BoundLeaseAnchor) :
    BoundAnchorResult × BoundLeaseAnchor :=
  if !a.live then (.continuity_lost, a)
  else if c.expected.operation_id ≠ a.operation_id then (.invalid_lease, a)
  else
    match a.sample clock with
    | (none, a) => (.continuity_lost, a)
    | (some first, a) =>
      match c.candidate crypto a.original.inclusive first.inclusive with
      | none => (.invalid_lease, a)
      | some candidate =>
        -- The time that the verification has taken counts too.
        match a.sample clock with
        | (none, a) => (.continuity_lost, a)
        | (some second, a) =>
          match bound_effective_time candidate.issued_at a.original.inclusive second.inclusive with
          | none => (.invalid_lease, a)
          | some now =>
            if candidate.expires_at ≤ now then (.invalid_lease, a) else (.accepted candidate now, a)

end

/-! ## Clocks that advance together -/

variable {s t : BoundClockSample} {ss : List BoundClockSample} {clock : AnchorClock}
  {a a' : BoundLeaseAnchor}

/-- A reading of the running clock between the two of the sample. -/
def Awake (s : BoundClockSample) (x : Int) : Prop := (s.awake_before : Int) ≤ x ∧ x ≤ s.awake_after

/-- How far two samples can tell the clocks: by the widths of both brackets. -/
def allowedDrift (s t : BoundClockSample) : Int :=
  ((s.awake_after : Int) - s.awake_before) + (t.awake_after - t.awake_before)

/-- Whatever the running clock has shown in the brackets of the two samples, it has
diverged from the other clock by no more than the allowed drift. -/
def WithinDrift (s t : BoundClockSample) : Prop :=
  ∀ x y, Awake s x → Awake t y →
    |((t.inclusive : Int) - s.inclusive) - (y - x)| ≤ allowedDrift s t

/-- One sample is before another one on both clocks. -/
def Precedes (s t : BoundClockSample) : Prop :=
  s.inclusive ≤ t.inclusive ∧ s.awake_after ≤ t.awake_before

/-- Samples of one process on clocks that advance together. -/
structure Steady (ss : List BoundClockSample) : Prop where
  valid : ∀ s ∈ ss, sample_valid s = true
  process : ∀ s ∈ ss, ∀ t ∈ ss, s.process_id = t.process_id
  ordered : ss.Pairwise Precedes
  drift : ∀ s ∈ ss, ∀ t ∈ ss, WithinDrift s t

/-- The first calls of `sample` have given these samples. -/
def Gives (clock : AnchorClock) (n : Nat) (ss : List BoundClockSample) : Prop :=
  (List.range n).map clock = ss.map some

/-- The first samples are steady. -/
def SteadyUpTo (clock : AnchorClock) (n : Nat) : Prop := ∃ ss, Gives clock n ss ∧ Steady ss

theorem bracket_of_valid (h : sample_valid s = true) :
    s.awake_before ≤ s.awake_after ∧ s.awake_after - s.awake_before ≤ 100000 := by
  simp only [sample_valid, Bool.and_eq_true, decide_eq_true_eq] at h
  exact ⟨h.1.2, h.2⟩

/-- The clocks are within the drift when the brackets of the bias meet. -/
theorem withinDrift_iff (hs : s.awake_before ≤ s.awake_after) (ht : t.awake_before ≤ t.awake_after) :
    WithinDrift s t ↔ low s ≤ high t ∧ low t ≤ high s := by
  constructor
  · intro h
    have hfirst := abs_le.mp (h s.awake_before t.awake_after ⟨le_rfl, by omega⟩ ⟨by omega, le_rfl⟩)
    have hlast := abs_le.mp (h s.awake_after t.awake_before ⟨by omega, le_rfl⟩ ⟨le_rfl, by omega⟩)
    unfold allowedDrift at hfirst hlast
    unfold low high
    omega
  · rintro ⟨h1, h2⟩ x y ⟨hx, hx'⟩ ⟨hy, hy'⟩
    unfold low high at h1 h2
    rw [abs_le]
    unfold allowedDrift
    omega

theorem steady_append (h : Steady ss) : Steady (ss ++ [s]) ↔ sample_valid s = true ∧
    ∀ t ∈ ss, t.process_id = s.process_id ∧ Precedes t s ∧ low t ≤ high s ∧ low s ≤ high t := by
  constructor
  · intro hall
    have hs : sample_valid s = true := hall.valid s (by simp)
    refine ⟨hs, fun t ht => ⟨hall.process t (by simp [ht]) s (by simp), ?_, ?_⟩⟩
    · exact (List.pairwise_append.mp hall.ordered).2.2 t ht s List.mem_cons_self
    · exact (withinDrift_iff (bracket_of_valid (h.valid t ht)).1 (bracket_of_valid hs).1).mp
        (hall.drift t (by simp [ht]) s (by simp))
  · rintro ⟨hs, hall⟩
    have hbracket := (bracket_of_valid hs).1
    have hself : WithinDrift s s := (withinDrift_iff hbracket hbracket).mpr (by
      unfold low high
      omega)
    have hdrift : ∀ t ∈ ss, WithinDrift t s ∧ WithinDrift s t := by
      intro t ht
      have ht' := (bracket_of_valid (h.valid t ht)).1
      obtain ⟨-, -, h1, h2⟩ := hall t ht
      exact ⟨(withinDrift_iff ht' hbracket).mpr ⟨h1, h2⟩, (withinDrift_iff hbracket ht').mpr ⟨h2, h1⟩⟩
    refine ⟨?_, ?_, List.pairwise_append.mpr ⟨h.ordered, List.pairwise_singleton _ _, ?_⟩, ?_⟩
    · intro t ht
      rcases List.mem_append.mp ht with ht | ht
      · exact h.valid t ht
      · rw [List.mem_singleton.mp ht]
        exact hs
    · intro t ht u hu
      rcases List.mem_append.mp ht with ht | ht <;> rcases List.mem_append.mp hu with hu | hu
      · exact h.process t ht u hu
      · rw [List.mem_singleton.mp hu]
        exact (hall t ht).1
      · rw [List.mem_singleton.mp ht]
        exact (hall u hu).1.symm
      · rw [List.mem_singleton.mp ht, List.mem_singleton.mp hu]
    · intro t ht u hu
      rw [List.mem_singleton.mp hu]
      exact (hall t ht).2.1
    · intro t ht u hu
      rcases List.mem_append.mp ht with ht | ht <;> rcases List.mem_append.mp hu with hu | hu
      · exact h.drift t ht u hu
      · rw [List.mem_singleton.mp hu]
        exact (hdrift t ht).1
      · rw [List.mem_singleton.mp ht]
        exact (hdrift u hu).2
      · rw [List.mem_singleton.mp ht, List.mem_singleton.mp hu]
        exact hself

theorem Steady.of_append (h : Steady (ss ++ [s])) : Steady ss :=
  ⟨fun t ht => h.valid t (by simp [ht]),
    fun t ht u hu => h.process t (by simp [ht]) u (by simp [hu]),
    (List.pairwise_append.mp h.ordered).1,
    fun t ht u hu => h.drift t (by simp [ht]) u (by simp [hu])⟩

/-! ## What the anchor keeps -/

/-- The anchor knows of the samples it has observed the first, the last and the part
that the brackets of the bias share. -/
structure Tracks (a : BoundLeaseAnchor) (ss : List BoundClockSample) : Prop where
  steady : Steady ss
  original : a.original ∈ ss
  last : ss.getLast? = some a.previous
  low_le : ∀ s ∈ ss, low s ≤ a.bias_low
  le_high : ∀ s ∈ ss, a.bias_high ≤ high s
  low_of : ∃ s ∈ ss, low s = a.bias_low
  high_of : ∃ s ∈ ss, high s = a.bias_high

/-- The samples before the last one precede what it precedes. -/
theorem Steady.precedes (h : Steady ss) (hlast : ss.getLast? = some t) (hp : Precedes t s) :
    ∀ u ∈ ss, Precedes u s := by
  obtain ⟨rest, rfl⟩ := List.getLast?_eq_some_iff.mp hlast
  intro u hu
  rcases List.mem_append.mp hu with hu | hu
  · have hut := (List.pairwise_append.mp h.ordered).2.2 u hu t List.mem_cons_self
    have ht := (bracket_of_valid (h.valid t (by simp))).1
    exact ⟨hut.1.trans hp.1, hut.2.trans (ht.trans hp.2)⟩
  · rw [List.mem_singleton.mp hu]
    exact hp

/-- The sample goes on where the anchor is. -/
structure Continues (a : BoundLeaseAnchor) (s : BoundClockSample) : Prop where
  valid : sample_valid s = true
  process : s.process_id = a.original.process_id
  ordered : Precedes a.previous s
  bias : max a.bias_low (low s) ≤ min a.bias_high (high s)

theorem observe_continues (hlive : a.live = true) (h : Continues a s) : a.observe s =
    { a with
      bias_low := max a.bias_low (low s), bias_high := min a.bias_high (high s), previous := s } := by
  have hbracket := (bracket_of_valid h.valid).1
  obtain ⟨hinclusive, hawake⟩ := h.ordered
  have hafter : a.previous.awake_after ≤ s.awake_after := hawake.trans hbracket
  unfold BoundLeaseAnchor.observe
  rw [if_neg (by simp [hlive, h.valid, h.process, hinclusive, hawake, hafter])]
  dsimp only
  rw [if_neg (not_lt.mpr h.bias)]

theorem observe_breaks (h : ¬ Continues a s) : a.observe s = { a with live := false } := by
  unfold BoundLeaseAnchor.observe
  split
  · rfl
  · rename_i hchecks
    simp only [Bool.or_eq_true, Bool.not_eq_true', decide_eq_true_eq, not_or, Bool.not_eq_false,
      not_lt, ne_eq, not_not] at hchecks
    obtain ⟨⟨⟨⟨⟨-, hvalid⟩, hprocess⟩, hinclusive⟩, hawake⟩, -⟩ := hchecks
    dsimp only
    split
    · rfl
    · rename_i hbias
      exact absurd ⟨hvalid, hprocess, ⟨hinclusive, hawake⟩, not_lt.mp hbias⟩ h

/-- The samples go on steadily exactly with a sample that goes on where the anchor is. -/
theorem Tracks.continues_iff (h : Tracks a ss) : Continues a s ↔ Steady (ss ++ [s]) := by
  have hprev : a.previous ∈ ss := List.mem_of_getLast? h.last
  obtain ⟨l, hl, hlow⟩ := h.low_of
  obtain ⟨u, hu, hhigh⟩ := h.high_of
  rw [steady_append h.steady]
  constructor
  · intro hc
    have hbias := hc.bias
    refine ⟨hc.valid, fun t ht => ⟨?_, h.steady.precedes h.last hc.ordered t ht, ?_, ?_⟩⟩
    · rw [hc.process]
      exact h.steady.process t ht _ h.original
    · have hle := h.low_le t ht
      omega
    · have hle := h.le_high t ht
      omega
  · rintro ⟨hvalid, hall⟩
    refine ⟨hvalid, (hall _ h.original).1.symm, (hall _ hprev).2.1, ?_⟩
    have hbracket := (bracket_of_valid hvalid).1
    have hself : low s ≤ high s := by
      unfold low high
      omega
    have hfirst := (hall l hl).2.2.1
    have hlast := (hall u hu).2.2.2
    have hboth := ((withinDrift_iff (bracket_of_valid (h.steady.valid l hl)).1
      (bracket_of_valid (h.steady.valid u hu)).1).mp (h.steady.drift l hl u hu)).1
    omega

theorem Tracks.next (h : Tracks a ss) (hc : Continues a s) :
    Tracks { a with
      bias_low := max a.bias_low (low s), bias_high := min a.bias_high (high s), previous := s }
      (ss ++ [s]) := by
  obtain ⟨l, hl, hlow⟩ := h.low_of
  obtain ⟨u, hu, hhigh⟩ := h.high_of
  refine ⟨h.continues_iff.mp hc, List.mem_append_left _ h.original, by simp, ?_, ?_, ?_, ?_⟩
  · intro t ht
    rcases List.mem_append.mp ht with ht | ht
    · exact (h.low_le t ht).trans (le_max_left _ _)
    · rw [List.mem_singleton.mp ht]
      exact le_max_right _ _
  · intro t ht
    rcases List.mem_append.mp ht with ht | ht
    · exact (min_le_left _ _).trans (h.le_high t ht)
    · rw [List.mem_singleton.mp ht]
      exact min_le_right _ _
  · rcases le_total a.bias_low (low s) with hle | hle
    · exact ⟨s, by simp, (max_eq_right hle).symm⟩
    · exact ⟨l, by simp [hl], hlow.trans (max_eq_left hle).symm⟩
  · rcases le_total a.bias_high (high s) with hle | hle
    · exact ⟨u, by simp [hu], hhigh.trans (min_eq_left hle).symm⟩
    · exact ⟨s, by simp, (min_eq_right hle).symm⟩

/-! ## Checks -/

/-- A live anchor tracks the samples that it was given. A lost one was given samples
that are not steady. -/
structure Anchored (clock : AnchorClock) (a : BoundLeaseAnchor) : Prop where
  live : a.live = true → ∃ ss, Gives clock a.samples ss ∧ Tracks a ss
  lost : a.live = false → ¬ SteadyUpTo clock a.samples

theorem Gives.succ {n : Nat} (h : Gives clock n ss) (hs : clock n = some s) :
    Gives clock (n + 1) (ss ++ [s]) := by
  unfold Gives at h ⊢
  rw [List.range_succ, List.map_append, h, List.map_append]
  simp [hs]

theorem Gives.of_succ {n : Nat} (h : Gives clock (n + 1) ss) :
    ∃ rest s, ss = rest ++ [s] ∧ Gives clock n rest ∧ clock n = some s := by
  unfold Gives at h
  rw [List.range_succ, List.map_append] at h
  obtain ⟨rest, last, rfl, hrest, hlast⟩ := List.map_eq_append_iff.mp h.symm
  obtain ⟨s, rfl, hs⟩ := List.map_eq_singleton_iff.mp hlast
  exact ⟨rest, s, rfl, hrest.symm, hs.symm⟩

theorem Gives.unique {n : Nat} {ss' : List BoundClockSample} (h : Gives clock n ss)
    (h' : Gives clock n ss') : ss' = ss :=
  List.map_injective_iff.mpr (Option.some_injective _) (h'.symm.trans h)

/-- What one sample does to an anchor that is live. -/
structure Sampled (clock : AnchorClock) (a : BoundLeaseAnchor) (r : Option BoundClockSample)
    (a' : BoundLeaseAnchor) : Prop where
  anchored : Anchored clock a'
  original : a'.original = a.original
  samples : a'.samples = a.samples + 1
  live : a'.live = r.isSome
  inclusive : a.previous.inclusive ≤ a'.previous.inclusive
  last : ∀ s, r = some s →
    clock a.samples = some s ∧ a'.previous = s

theorem Anchored.sample (h : Anchored clock a) (hlive : a.live = true) :
    Sampled clock a (a.sample clock).1 (a.sample clock).2 := by
  obtain ⟨ss, hgives, htracks⟩ := h.live hlive
  have hlost : (∀ s, clock a.samples = some s → ¬ Continues a s) →
      ¬ SteadyUpTo clock (a.samples + 1) := by
    rintro hbreaks ⟨all, hall, hsteady⟩
    obtain ⟨rest, s, rfl, hrest, hs⟩ := hall.of_succ
    rw [hgives.unique hrest] at hsteady
    exact hbreaks s hs (htracks.continues_iff.mpr hsteady)
  unfold BoundLeaseAnchor.sample
  cases hclock : clock a.samples with
  | none =>
    refine ⟨⟨fun hl => (by cases hl), fun _ => hlost fun s hs => ?_⟩, rfl, rfl, rfl, le_rfl, nofun⟩
    rw [hclock] at hs
    cases hs
  | some s =>
    dsimp only
    by_cases hc : Continues a s
    · rw [observe_continues (a := { a with samples := a.samples + 1 }) hlive
        ⟨hc.valid, hc.process, hc.ordered, hc.bias⟩]
      dsimp only
      rw [if_pos hlive]
      refine ⟨⟨fun _ => ⟨ss ++ [s], hgives.succ hclock, ?_⟩, fun hl => ?_⟩, rfl, rfl, hlive,
        hc.ordered.1, ?_⟩
      · obtain ⟨h1, h2, h3, h4, h5, h6, h7⟩ := htracks.next hc
        exact ⟨h1, h2, h3, h4, h5, h6, h7⟩
      · rw [show a.live = false from hl] at hlive
        cases hlive
      · rintro _ ⟨⟩
        exact ⟨hclock, rfl⟩
    · rw [observe_breaks (a := { a with samples := a.samples + 1 }) fun hc' =>
        hc ⟨hc'.valid, hc'.process, hc'.ordered, hc'.bias⟩]
      refine ⟨⟨fun hl => (by cases hl), fun _ => hlost fun t ht => ?_⟩, rfl, rfl, rfl, le_rfl, nofun⟩
      rw [hclock] at ht
      obtain rfl := Option.some.inj ht
      exact hc

/-- How an anchor can be later than it was. -/
structure Later (a a' : BoundLeaseAnchor) : Prop where
  original : a'.original = a.original
  lost : a.live = false → a'.live = false
  inclusive : a.previous.inclusive ≤ a'.previous.inclusive

theorem Later.refl (a : BoundLeaseAnchor) : Later a a := ⟨rfl, id, le_rfl⟩

theorem Later.trans {a'' : BoundLeaseAnchor} (h : Later a a') (h' : Later a' a'') : Later a a'' :=
  ⟨h'.original.trans h.original, fun hl => h'.lost (h.lost hl), h.inclusive.trans h'.inclusive⟩

theorem Sampled.later {r : Option BoundClockSample} (h : Sampled clock a r a')
    (hlive : a.live = true) : Later a a' := by
  refine ⟨h.original, fun hl => ?_, h.inclusive⟩
  rw [hl] at hlive
  cases hlive

/-- What one check does. -/
structure CheckEnds (clock : AnchorClock) (a : BoundLeaseAnchor) (r : BoundAnchorResult)
    (a' : BoundLeaseAnchor) : Prop where
  anchored : Anchored clock a'
  later : Later a a'
  lost : r = .continuity_lost ↔ a'.live = false
  time : ∀ claims now, r = .accepted claims now →
    clock (a'.samples - 1) = some a'.previous ∧
      bound_effective_time claims.issued_at a.original.inclusive a'.previous.inclusive = some now

theorem Anchored.check {crypto : Crypto} (h : Anchored clock a) (c : AnchorCheck) :
    CheckEnds clock a (a.check crypto clock c).1 (a.check crypto clock c).2 := by
  unfold BoundLeaseAnchor.check
  split
  · rename_i hdead
    have hdead : a.live = false := by simpa using hdead
    exact ⟨h, .refl a, by simp [hdead], nofun⟩
  rename_i hlive
  have hlive : a.live = true := by simpa using hlive
  split
  · exact ⟨h, .refl a, by simp [hlive], nofun⟩
  have hfirst := h.sample hlive
  rcases hsample : a.sample clock with ⟨r₁, a₁⟩
  rw [hsample] at hfirst
  have hlater₁ := hfirst.later hlive
  cases r₁ with
  | none =>
    have hdead : a₁.live = false := hfirst.live
    exact ⟨hfirst.anchored, hlater₁, by simp [hdead], nofun⟩
  | some first =>
    have hlive₁ : a₁.live = true := hfirst.live
    dsimp only
    cases hcandidate : c.candidate crypto a₁.original.inclusive first.inclusive with
    | none => exact ⟨hfirst.anchored, hlater₁, by simp [hlive₁], nofun⟩
    | some candidate =>
      have hsecond := hfirst.anchored.sample hlive₁
      rcases hsample₂ : a₁.sample clock with ⟨r₂, a₂⟩
      rw [hsample₂] at hsecond
      have hlater₂ := hlater₁.trans (hsecond.later hlive₁)
      cases r₂ with
      | none =>
        have hdead : a₂.live = false := hsecond.live
        exact ⟨hsecond.anchored, hlater₂, by simp [hdead], nofun⟩
      | some second =>
        have hlive₂ : a₂.live = true := hsecond.live
        obtain ⟨hclock, hprevious⟩ := hsecond.last second rfl
        have hprevious : second = a₂.previous := hprevious.symm
        subst hprevious
        have hlast : clock (a₂.samples - 1) = some a₂.previous := by
          rw [hsecond.samples]
          exact hclock
        have horiginal : a₂.original = a.original := hlater₂.original
        dsimp only
        rw [horiginal]
        cases htime : bound_effective_time candidate.issued_at a.original.inclusive
            a₂.previous.inclusive with
        | none => exact ⟨hsecond.anchored, hlater₂, by simp [hlive₂], nofun⟩
        | some now =>
          dsimp only
          split
          · exact ⟨hsecond.anchored, hlater₂, by simp [hlive₂], nofun⟩
          · refine ⟨hsecond.anchored, hlater₂, by simp [hlive₂], ?_⟩
            rintro _ _ ⟨⟩
            exact ⟨hlast, htime⟩

theorem create_anchored {random : Option Bytes}
    (h : BoundLeaseAnchor.create random (clock 0) = some a) :
    Anchored clock a ∧ clock 0 = some a.original ∧ a.previous = a.original := by
  unfold BoundLeaseAnchor.create at h
  obtain ⟨random, -, h⟩ := Option.bind_eq_some_iff.mp h
  dsimp only at h
  split at h
  · cases h
  obtain ⟨original, hclock, h⟩ := Option.bind_eq_some_iff.mp h
  split at h
  · cases h
  rename_i hvalid
  have hvalid : sample_valid original = true := by simpa using hvalid
  obtain rfl := Option.some.inj h
  have hbracket := (bracket_of_valid hvalid).1
  have hsteady : Steady [original] := by
    refine ⟨by simpa using hvalid, by simp, List.pairwise_singleton _ _, ?_⟩
    simp only [List.mem_singleton, forall_eq]
    refine (withinDrift_iff hbracket hbracket).mpr ?_
    unfold low high
    omega
  refine ⟨⟨fun _ => ⟨[original], ?_, ?_⟩, nofun⟩, hclock, rfl⟩
  · unfold Gives
    simpa using hclock
  · exact ⟨hsteady, by simp, rfl, by simp, by simp, ⟨original, by simp⟩, ⟨original, by simp⟩⟩

/-! ## The clock of a lease -/

theorem started_seconds (ticks : Nat) :
    ticks / ticks_per_second + (if ticks % ticks_per_second ≠ 0 then 1 else 0) =
      ticks ⌈/⌉ ticks_per_second := by
  rw [Nat.ceilDiv_eq_add_pred_div]
  unfold ticks_per_second
  split <;> omega

/-- The effective time counts the started seconds since the first sample. -/
theorem effective_time_eq {issued_at original current now : Nat}
    (h : bound_effective_time issued_at original current = some now) :
    original ≤ current ∧ now = issued_at + (current - original) ⌈/⌉ ticks_per_second := by
  unfold bound_effective_time at h
  simp only [started_seconds] at h
  split at h
  · cases h
  rename_i hchecks
  simp only [not_or, not_lt] at hchecks
  split at h
  · cases h
  exact ⟨hchecks.2, (Option.some.inj h).symm⟩

theorem Steady.allowed (h : Steady ss) (hs : s ∈ ss) (ht : t ∈ ss) : allowedDrift s t ≤ 200000 := by
  have hs := bracket_of_valid (h.valid s hs)
  have ht := bracket_of_valid (h.valid t ht)
  unfold allowedDrift
  omega

/-- The checks of an anchor, one after another. -/
def BoundLeaseAnchor.checks (crypto : Crypto) (clock : AnchorClock) (a : BoundLeaseAnchor)
    (checks : List AnchorCheck) : List (Machine.Called AnchorCheck BoundAnchorResult BoundLeaseAnchor) :=
  Machine.calls (fun c a => a.check crypto clock c) a checks

section
variable {crypto : Crypto} {checks : List AnchorCheck}
  {e : Machine.Called AnchorCheck BoundAnchorResult BoundLeaseAnchor}

theorem Anchored.of_mem_checks (h : Anchored clock a) (he : e ∈ a.checks crypto clock checks) :
    CheckEnds clock e.before e.result e.after ∧ Later a e.before := by
  have hkeep : ∀ (c : AnchorCheck) (b : BoundLeaseAnchor), Anchored clock b ∧ Later a b →
      Anchored clock (b.check crypto clock c).2 ∧ Later a (b.check crypto clock c).2 :=
    fun c b hb => ⟨(hb.1.check c).anchored, hb.2.trans (hb.1.check c).later⟩
  obtain ⟨hb, hcall⟩ := Machine.of_mem_calls hkeep ⟨h, .refl a⟩ he
  have hends : CheckEnds clock e.before (e.before.check crypto clock e.call).1
      (e.before.check crypto clock e.call).2 := hb.1.check e.call
  rw [hcall] at hends
  exact ⟨hends, hb.2⟩

theorem Anchored.checks_later (h : Anchored clock a) :
    (a.checks crypto clock checks).Pairwise fun e e' => Later e.after e'.before :=
  Machine.calls_pairwise (R := Later) (I := Anchored clock) .refl .trans
    (fun c _ hb => (hb.check c).later) (fun c _ hb => (hb.check c).anchored) h checks

end

/-- A clock that the machine sleeps through: one second after the first sample the
running clock has stood still. -/
def sleepClock : AnchorClock
  | 0 => some ⟨1000000000, 900000000, 900000000, 1⟩
  | n + 1 => some ⟨1010000000 + n, 900000000 + n, 900000000 + n, 1⟩

/-- An anchor made while the clock was good. -/
def sleepAnchor : BoundLeaseAnchor where
  operation_id := bytesOf (encode64 urlAlphabet (List.replicate 32 11))
  original := ⟨1000000000, 900000000, 900000000, 1⟩
  previous := ⟨1000000000, 900000000, 900000000, 1⟩
  bias_low := 100000000
  bias_high := 100000000
  live := true
  samples := 1

/-- A check of a token that no key has signed. -/
def sleepCheck : AnchorCheck where
  token := []
  keys := []
  expected := ⟨[], [], [], [], [], [], [], sleepAnchor.operation_id, 1, 0⟩

end Licensecc.Client
