-- The order of checkpoints. Two checkpoints of one identity are ordered by their
-- revision and then by their time of issue, and the order is a strict one.
import Licensecc.Client.Lease

open Licensecc.Codec Licensecc.Protocol

namespace Licensecc.Client

inductive BoundCheckpointDecision where
  | replace
  | unchanged
  | stale
  | conflict
  | invalid_candidate
  | invalid_stored
  | internal_error
  deriving DecidableEq

structure Statement where
  identity : BoundResumeStatement
  claims : BoundLeaseClaims

/-- The keys and the context that a store is created with. -/
structure Pins where
  crypto : Crypto
  trust : List BoundLeaseTrustKey
  expected : BoundResumeExpected

def inspect (p : Pins) (token : Bytes) : Option Statement := do
  let identity ← verify_bound_resume_statement p.crypto token p.trust p.expected
  let parsed ← decode_bound_lease token
  return ⟨identity, parsed.claims⟩

def compare_bound_checkpoints (p : Pins) (candidate : Bytes) (current : Option Bytes) :
    BoundCheckpointDecision :=
  match inspect p candidate with
  | none => .invalid_candidate
  | some next =>
    match current with
    | none => .replace
    | some current =>
      match inspect p current with
      | none => .invalid_stored
      | some prior =>
        let a := next.identity
        let b := prior.identity
        if a.binding_id ≠ b.binding_id ∨ a.license_fingerprint ≠ b.license_fingerprint ∨
            a.generation ≠ b.generation then .conflict
        else if candidate = current then .unchanged
        else if a.revision_floor < b.revision_floor then .stale
        else if b.revision_floor < a.revision_floor then .replace
        else if next.claims.issued_at < prior.claims.issued_at then .stale
        else if prior.claims.issued_at < next.claims.issued_at then .replace
        else if next.claims.signer_key_id = prior.claims.signer_key_id ∧
            next.claims.renew_after = prior.claims.renew_after ∧
            next.claims.expires_at = prior.claims.expires_at then .unchanged
        else .conflict

/-! ## The order of statements -/

/-- Two statements are of one identity. -/
def Statement.Same (x y : Statement) : Prop :=
  x.identity.binding_id = y.identity.binding_id ∧
    x.identity.license_fingerprint = y.identity.license_fingerprint ∧
    x.identity.generation = y.identity.generation

/-- The first statement comes before the second. -/
def Statement.Before (x y : Statement) : Prop :=
  x.identity.revision_floor < y.identity.revision_floor ∨
    x.identity.revision_floor = y.identity.revision_floor ∧ x.claims.issued_at < y.claims.issued_at

/-- Two statements have one place in the order and one policy. -/
def Statement.Equivalent (x y : Statement) : Prop :=
  x.identity.revision_floor = y.identity.revision_floor ∧
    x.claims.issued_at = y.claims.issued_at ∧ x.claims.signer_key_id = y.claims.signer_key_id ∧
    x.claims.renew_after = y.claims.renew_after ∧ x.claims.expires_at = y.claims.expires_at

instance (x y : Statement) : Decidable (x.Same y) :=
  inferInstanceAs (Decidable (_ ∧ _ ∧ _))

instance (x y : Statement) : Decidable (x.Before y) :=
  inferInstanceAs (Decidable (_ ∨ _ ∧ _))

instance (x y : Statement) : Decidable (x.Equivalent y) :=
  inferInstanceAs (Decidable (_ ∧ _ ∧ _ ∧ _ ∧ _))

theorem Statement.Same.symm {x y : Statement} (h : x.Same y) : y.Same x :=
  ⟨h.1.symm, h.2.1.symm, h.2.2.symm⟩

theorem Statement.Same.trans {x y z : Statement} (h : x.Same y) (h' : y.Same z) : x.Same z :=
  ⟨h.1.trans h'.1, h.2.1.trans h'.2.1, h.2.2.trans h'.2.2⟩

theorem Statement.Before.trans {x y z : Statement} (h : x.Before y) (h' : y.Before z) :
    x.Before z := by
  unfold Statement.Before at *
  omega

theorem Statement.Before.irrefl {x : Statement} : ¬ x.Before x := by
  unfold Statement.Before
  omega

variable {p : Pins} {a b c : Bytes}

/-- The decision on two statements. -/
def Statement.order (x y : Statement) : BoundCheckpointDecision :=
  if ¬ x.Same y then .conflict
  else if x.Before y then .stale
  else if y.Before x then .replace
  else if x.Equivalent y then .unchanged
  else .conflict

/-- What a comparison decides, by the statements. The test of the bytes adds nothing:
equal bytes have equal statements. -/
theorem compare_eq {x y : Statement} (hx : inspect p a = some x) (hy : inspect p b = some y) :
    compare_bound_checkpoints p a (some b) = x.order y := by
  unfold compare_bound_checkpoints
  rw [hx]
  dsimp only
  rw [hy]
  dsimp only
  unfold Statement.order
  by_cases hsame : x.Same y
  · have hconflict : ¬ (x.identity.binding_id ≠ y.identity.binding_id ∨
        x.identity.license_fingerprint ≠ y.identity.license_fingerprint ∨
        x.identity.generation ≠ y.identity.generation) := by
      unfold Statement.Same at hsame
      simpa only [ne_eq, not_or, not_not] using hsame
    rw [if_neg hconflict, if_neg (not_not.mpr hsame)]
    by_cases hab : a = b
    · obtain rfl := hab
      obtain rfl := Option.some.inj (hx.symm.trans hy)
      rw [if_pos rfl, if_neg Statement.Before.irrefl, if_neg Statement.Before.irrefl, if_pos]
      exact ⟨rfl, rfl, rfl, rfl, rfl⟩
    · rw [if_neg hab]
      rcases Nat.lt_trichotomy x.identity.revision_floor y.identity.revision_floor with h | h | h
      · have hb : x.Before y := .inl h
        rw [if_pos h, if_pos hb]
      · rcases Nat.lt_trichotomy x.claims.issued_at y.claims.issued_at with h' | h' | h'
        · have hb : x.Before y := .inr ⟨h, h'⟩
          rw [if_neg (by omega), if_neg (by omega), if_pos h', if_pos hb]
        · have hb : ¬ x.Before y := by
            unfold Statement.Before
            omega
          have hb' : ¬ y.Before x := by
            unfold Statement.Before
            omega
          rw [if_neg (by omega), if_neg (by omega), if_neg (by omega), if_neg (by omega),
            if_neg hb, if_neg hb']
          unfold Statement.Equivalent
          simp only [h, h', true_and]
        · have hb : ¬ x.Before y := by
            unfold Statement.Before
            omega
          have hb' : y.Before x := .inr ⟨h.symm, h'⟩
          rw [if_neg (by omega), if_neg (by omega), if_neg (by omega), if_pos h', if_neg hb,
            if_pos hb']
      · have hb : ¬ x.Before y := by
          unfold Statement.Before
          omega
        have hb' : y.Before x := .inl h
        rw [if_neg (by omega), if_pos h, if_neg hb, if_pos hb']
  · have hconflict : x.identity.binding_id ≠ y.identity.binding_id ∨
        x.identity.license_fingerprint ≠ y.identity.license_fingerprint ∨
        x.identity.generation ≠ y.identity.generation := by
      unfold Statement.Same at hsame
      simpa only [ne_eq, not_and_or] using hsame
    rw [if_pos hconflict, if_pos hsame]

theorem Statement.order_stale {x y : Statement} : x.order y = .stale ↔ x.Same y ∧ x.Before y := by
  unfold Statement.order
  by_cases hs : x.Same y
  · by_cases hb : x.Before y
    · simp [hs, hb]
    · rw [if_neg (not_not.mpr hs), if_neg hb]
      split_ifs <;> simp [hb]
  · simp [hs]

theorem Statement.order_replace {x y : Statement} :
    x.order y = .replace ↔ x.Same y ∧ y.Before x := by
  unfold Statement.order
  by_cases hs : x.Same y
  · by_cases hb : x.Before y
    · have hnot : ¬ y.Before x := fun h => Statement.Before.irrefl (hb.trans h)
      simp [hs, hb, hnot]
    · by_cases hb' : y.Before x
      · simp [hs, hb, hb']
      · rw [if_neg (not_not.mpr hs), if_neg hb, if_neg hb']
        split_ifs <;> simp [hb']
  · simp [hs]

theorem Statement.order_unchanged {x y : Statement} :
    x.order y = .unchanged ↔ x.Same y ∧ x.Equivalent y := by
  have hno : ∀ {x y : Statement}, x.Equivalent y → ¬ x.Before y := by
    intro x y h hb
    unfold Statement.Equivalent at h
    unfold Statement.Before at hb
    omega
  have hsymm : ∀ {x y : Statement}, x.Equivalent y → ¬ y.Before x := by
    intro x y h hb
    unfold Statement.Equivalent at h
    unfold Statement.Before at hb
    omega
  unfold Statement.order
  by_cases hs : x.Same y
  · by_cases he : x.Equivalent y
    · simp [hs, he, hno he, hsymm he]
    · rw [if_neg (not_not.mpr hs)]
      split_ifs <;> simp [he]
  · simp [hs]

/-! ## The order of checkpoints -/

/-- The first checkpoint is older than the second. -/
def Older (p : Pins) (a b : Bytes) : Prop := compare_bound_checkpoints p a (some b) = .stale

/-- The first checkpoint takes the place of the second, or has its policy. -/
def NotOlder (p : Pins) (a b : Bytes) : Prop :=
  compare_bound_checkpoints p a (some b) = .replace ∨
    compare_bound_checkpoints p a (some b) = .unchanged

/-- A comparison that decides on an order is about two checkpoints that are verified. -/
theorem exists_inspect {d : BoundCheckpointDecision}
    (h : compare_bound_checkpoints p a (some b) = d) (hcandidate : d ≠ .invalid_candidate)
    (hstored : d ≠ .invalid_stored) : ∃ x y, inspect p a = some x ∧ inspect p b = some y := by
  unfold compare_bound_checkpoints at h
  split at h
  · exact absurd h.symm hcandidate
  rename_i x hx
  dsimp only at h
  split at h
  · exact absurd h.symm hstored
  rename_i y hy
  exact ⟨x, y, hx, hy⟩

theorem older_iff : Older p a b ↔
    ∃ x y, inspect p a = some x ∧ inspect p b = some y ∧ x.Same y ∧ x.Before y := by
  constructor
  · intro h
    obtain ⟨x, y, hx, hy⟩ := exists_inspect h (by simp) (by simp)
    unfold Older at h
    rw [compare_eq hx hy] at h
    exact ⟨x, y, hx, hy, Statement.order_stale.mp h⟩
  · rintro ⟨x, y, hx, hy, h⟩
    unfold Older
    rw [compare_eq hx hy]
    exact Statement.order_stale.mpr h

theorem notOlder_iff : NotOlder p a b ↔ ∃ x y, inspect p a = some x ∧ inspect p b = some y ∧
    x.Same y ∧ (y.Before x ∨ x.Equivalent y) := by
  constructor
  · intro h
    have hxy : ∃ x y, inspect p a = some x ∧ inspect p b = some y := by
      rcases h with h | h
      · exact exists_inspect h (by simp) (by simp)
      · exact exists_inspect h (by simp) (by simp)
    obtain ⟨x, y, hx, hy⟩ := hxy
    unfold NotOlder at h
    rw [compare_eq hx hy, Statement.order_replace, Statement.order_unchanged, ← and_or_left] at h
    exact ⟨x, y, hx, hy, h⟩
  · rintro ⟨x, y, hx, hy, h⟩
    unfold NotOlder
    rw [compare_eq hx hy, Statement.order_replace, Statement.order_unchanged, ← and_or_left]
    exact h

/-- The order is strict. -/
theorem older_irrefl (a : Bytes) : ¬ Older p a a := by
  rw [older_iff]
  rintro ⟨x, y, hx, hy, -, hb⟩
  obtain rfl := Option.some.inj (hx.symm.trans hy)
  exact Statement.Before.irrefl hb

theorem older_trans (h : Older p a b) (h' : Older p b c) : Older p a c := by
  obtain ⟨x, y, hx, hy, hs, hb⟩ := older_iff.mp h
  obtain ⟨y', z, hy', hz, hs', hb'⟩ := older_iff.mp h'
  obtain rfl := Option.some.inj (hy.symm.trans hy')
  exact older_iff.mpr ⟨x, z, hx, hz, hs.trans hs', hb.trans hb'⟩

theorem NotOlder.not_older (h : NotOlder p a b) : ¬ Older p a b := by
  intro ho
  unfold Older at ho
  rcases h with h | h
  · rw [ho] at h
    cases h
  · rw [ho] at h
    cases h

theorem notOlder_refl (h : compare_bound_checkpoints p a none = .replace) : NotOlder p a a := by
  unfold compare_bound_checkpoints at h
  split at h
  · cases h
  rename_i x hx
  exact Iff.mpr notOlder_iff ⟨x, x, hx, hx, ⟨rfl, rfl, rfl⟩, .inr ⟨rfl, rfl, rfl, rfl, rfl⟩⟩

theorem notOlder_trans (h : NotOlder p a b) (h' : NotOlder p b c) : NotOlder p a c := by
  obtain ⟨x, y, hx, hy, hs, hb⟩ := Iff.mp notOlder_iff h
  obtain ⟨y', z, hy', hz, hs', hb'⟩ := Iff.mp notOlder_iff h'
  obtain rfl := Option.some.inj (hy.symm.trans hy')
  refine Iff.mpr notOlder_iff ⟨x, z, hx, hz, hs.trans hs', ?_⟩
  unfold Statement.Before Statement.Equivalent at *
  rcases hb with hb | hb
  · rcases hb' with hb' | hb'
    · left
      omega
    · left
      omega
  · rcases hb' with hb' | hb'
    · left
      omega
    · right
      exact ⟨hb.1.trans hb'.1, hb.2.1.trans hb'.2.1, hb.2.2.1.trans hb'.2.2.1, by omega, by omega⟩

/-- Of two checkpoints, the second is older, or both have one policy, or neither can
take the place of the other. -/
theorem stale_iff_replace : compare_bound_checkpoints p a (some b) = .stale ↔
    compare_bound_checkpoints p b (some a) = .replace := by
  constructor
  · intro h
    obtain ⟨x, y, hx, hy⟩ := exists_inspect h (by simp) (by simp)
    rw [compare_eq hx hy, Statement.order_stale] at h
    rw [compare_eq hy hx, Statement.order_replace]
    exact ⟨h.1.symm, h.2⟩
  · intro h
    obtain ⟨y, x, hy, hx⟩ := exists_inspect h (by simp) (by simp)
    rw [compare_eq hy hx, Statement.order_replace] at h
    rw [compare_eq hx hy, Statement.order_stale]
    exact ⟨h.1.symm, h.2⟩

theorem Statement.Equivalent.symm {x y : Statement} (h : x.Equivalent y) : y.Equivalent x :=
  ⟨h.1.symm, h.2.1.symm, h.2.2.1.symm, h.2.2.2.1.symm, h.2.2.2.2.symm⟩

/-- A checkpoint that the other does not replace, and does not conflict with, is not older. -/
theorem notOlder_of_compare (h : compare_bound_checkpoints p b (some a) = .unchanged ∨
    compare_bound_checkpoints p b (some a) = .stale) : NotOlder p a b := by
  rcases h with h | h
  · obtain ⟨y, x, hy, hx⟩ := exists_inspect h (by simp) (by simp)
    rw [compare_eq hy hx, Statement.order_unchanged] at h
    exact Iff.mpr notOlder_iff ⟨x, y, hx, hy, h.1.symm, .inr h.2.symm⟩
  · exact .inl (stale_iff_replace.mp h)

theorem NotOlder.not_conflict (h : NotOlder p a b) :
    compare_bound_checkpoints p a (some b) ≠ .conflict ∧
      compare_bound_checkpoints p b (some a) ≠ .conflict := by
  constructor
  · intro hc
    unfold NotOlder at h
    simp [hc] at h
  · intro hc
    obtain ⟨x, y, hx, hy, hs, hb | he⟩ := Iff.mp notOlder_iff h
    · rw [compare_eq hy hx, Statement.order_stale.mpr ⟨hs.symm, hb⟩] at hc
      cases hc
    · rw [compare_eq hy hx, Statement.order_unchanged.mpr ⟨hs.symm, he.symm⟩] at hc
      cases hc

end Licensecc.Client
