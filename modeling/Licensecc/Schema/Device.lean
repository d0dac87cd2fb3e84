-- The tables of the protected device leases: the devices, the bindings that
-- hold the device slots of an entitlement, and the rows of one issue.
import Licensecc.Schema.Grants

open Licensecc.Sql

namespace Licensecc

/-! ## Devices and bindings -/

inductive DeviceStatus where
  | active
  | disabled
  deriving DecidableEq

structure Device where
  id : String
  customer_id : String
  project : String
  key_id : String
  public_key_spki : String
  label : String := ""
  status : DeviceStatus := .active
  revision : Int := 0
  created_at : Int
  last_proof_at : Int

instance : Schema Device where
  check d := SafeTime d.revision ∧ SafeTime d.created_at ∧ SafeTime d.last_proof_at
  clash a b := a.id = b.id ∨ a.key_id = b.key_id
  beforeUpdate _ old new :=
    if new.id ≠ old.id ∨ new.customer_id ≠ old.customer_id ∨ new.project ≠ old.project ∨
        new.key_id ≠ old.key_id ∨ new.public_key_spki ≠ old.public_key_spki then
      some "device_identity_immutable"
    else if new.revision < old.revision then some "device_revision_cannot_shrink"
    else none
  beforeDelete _ := some "device_tombstone_required"
  clash_symm := fun h => h.imp Eq.symm Eq.symm
  decCheck := fun _ => inferInstance
  decClash := fun _ _ => inferInstance

inductive BindingState where
  | active
  | retiring
  | released
  deriving DecidableEq

structure Binding extends EntitlementKey where
  id : String
  device_id : String
  state : BindingState := .active
  generation : Int := 1
  revision : Int := 0
  hold_until : Int := 0
  created_at : Int
  updated_at : Int
  deriving DecidableEq

/-- Two bindings clash in their id, or as two active bindings of one device to
one entitlement. -/
instance : Schema Binding where
  check b := (1 ≤ b.generation ∧ b.generation ≤ maxSafeInteger) ∧ SafeTime b.revision ∧
    SafeTime b.hold_until ∧ SafeTime b.created_at ∧ SafeTime b.updated_at
  clash a b := a.id = b.id ∨ a.toEntitlementKey = b.toEntitlementKey ∧ a.device_id = b.device_id ∧
    a.state = .active ∧ b.state = .active
  beforeUpdate now old new :=
    if new.hold_until < old.hold_until then some "binding_hold_cannot_shrink"
    else if new.id ≠ old.id ∨ new.toEntitlementKey ≠ old.toEntitlementKey ∨
        new.device_id ≠ old.device_id then
      some "binding_identity_immutable"
    else if new.state = .released ∧ (old.state = .active ∨ now < old.hold_until) then
      some "binding_hold_active"
    else if (old.state = .retiring ∧ new.state = .active) ∨
        (old.state = .released ∧ new.state ≠ .released) then
      some "binding_retirement_terminal"
    else if new.revision < old.revision ∨ new.generation < old.generation then
      some "binding_revision_cannot_shrink"
    else none
  beforeDelete _ := some "binding_tombstone_required"
  clash_symm := fun h => h.imp Eq.symm fun ⟨h1, h2, h3, h4⟩ => ⟨h1.symm, h2.symm, h4, h3⟩
  decCheck := fun _ => inferInstance
  decClash := fun _ _ => inferInstance

/-- `boundOccupiedSql`: the binding holds a device slot at a time. -/
def Binding.boundOccupied (b : Binding) (now : Int) : Prop :=
  b.state = .active ∨ (b.state = .retiring ∧ now < b.hold_until)

instance (b : Binding) (now : Int) : Decidable (b.boundOccupied now) :=
  inferInstanceAs (Decidable (_ ∨ _ ∧ _))

/-- A slot that is held at a time was held at every time before. -/
theorem Binding.boundOccupied_anti {b : Binding} {now later : Int} (h : now ≤ later)
    (hb : b.boundOccupied later) : b.boundOccupied now := by
  rcases hb with ha | ⟨hr, hh⟩
  · exact .inl ha
  · exact .inr ⟨hr, by omega⟩

/-! ## Challenges and authorizations -/

inductive Purpose where
  | exchange
  | renew
  | retire
  deriving DecidableEq

structure Challenge where
  id : String
  purpose : Purpose
  subject_id : String
  key_id : String
  operation_id : String
  nonce_hash : String
  created_at : Int
  expires_at : Int
  consumed_invocation_id : Option String := none
  deriving DecidableEq

instance : Schema Challenge where
  check c := c.purpose ≠ .retire ∧ SafeTime c.created_at ∧ c.created_at < c.expires_at ∧
    c.expires_at ≤ maxSafeInteger
  clash a b := a.id = b.id ∨ a.nonce_hash = b.nonce_hash
  beforeUpdate _ old new :=
    if { new with consumed_invocation_id := none } ≠ { old with consumed_invocation_id := none } ∨
        old.consumed_invocation_id ≠ none ∨ new.consumed_invocation_id = none then
      some "challenge_immutable"
    else none
  clash_symm := fun h => h.imp Eq.symm Eq.symm
  decCheck := fun _ => inferInstance
  decClash := fun _ _ => inferInstance

inductive AuthorizationStatus where
  | pending
  | approved
  | consumed
  | denied
  deriving DecidableEq

structure Authorization where
  handle_hash : String
  client_id : String
  project : String
  key_id : String
  public_key_spki : String
  device_label : String := ""
  redirect_uri : String
  client_state : String
  pkce_challenge : String
  status : AuthorizationStatus := .pending
  revision : Int := 0
  customer_id : Option String := none
  feature : Option String := none
  license_fingerprint : Option String := none
  code_hash : Option String := none
  code_expires_at : Option Int := none
  approval_ciphertext : Option String := none
  created_at : Int
  expires_at : Int
  consumed_invocation_id : Option String := none
  consumed_operation_id : Option String := none
  recovery_until : Option Int := none
  requested_feature : String

/-- The CHECK of an attempt that a customer has not answered, or has. -/
def Authorization.answered (a : Authorization) : Prop :=
  match a.status with
  | .pending | .denied => a.customer_id = none ∧ a.feature = none ∧
      a.license_fingerprint = none ∧ a.code_hash = none ∧ a.code_expires_at = none ∧
      a.approval_ciphertext = none
  | .approved | .consumed => a.customer_id ≠ none ∧ a.feature ≠ none ∧
      a.license_fingerprint ≠ none ∧ a.code_hash ≠ none ∧
      ∃ t ∈ a.code_expires_at, a.created_at ≤ t ∧ t ≤ a.expires_at

/-- The CHECK of an attempt that an issue has consumed, or has not. -/
def Authorization.consumption (a : Authorization) : Prop :=
  match a.status with
  | .consumed => a.consumed_invocation_id ≠ none ∧ a.consumed_operation_id ≠ none ∧
      (∃ t ∈ a.recovery_until, a.created_at < t) ∧ a.approval_ciphertext = none
  | _ => a.consumed_invocation_id = none ∧ a.consumed_operation_id = none ∧
      a.recovery_until = none

instance (a : Authorization) : Decidable a.answered := by
  unfold Authorization.answered
  split <;> exact inferInstance

instance (a : Authorization) : Decidable a.consumption := by
  unfold Authorization.consumption
  split <;> exact inferInstance

/-- The columns of the request, which `tr_bound_attempt_intent_immutable` and
`tr_bound_requested_feature_immutable` freeze. -/
def Authorization.intentOf (a : Authorization) :=
  ((a.handle_hash, a.client_id, a.project, a.requested_feature), (a.key_id, a.public_key_spki),
    (a.redirect_uri, a.client_state, a.pkce_challenge), (a.created_at, a.expires_at))

/-- The columns of the answer, which `tr_bound_attempt_approval_immutable`
freezes. -/
def Authorization.approvalOf (a : Authorization) :=
  (a.customer_id, a.feature, a.license_fingerprint, a.code_hash, a.code_expires_at)

/-- The columns of the consumption, which
`tr_bound_attempt_consumption_immutable` freezes. -/
def Authorization.consumptionOf (a : Authorization) :=
  (a.consumed_invocation_id, a.consumed_operation_id, a.recovery_until)

/-- The status changes that `tr_bound_attempt_terminal` allows. -/
def AuthorizationStatus.mayBecome (old new : AuthorizationStatus) : Prop :=
  new = old ∨ (old = .pending ∧ (new = .approved ∨ new = .denied)) ∨
    (old = .approved ∧ new = .consumed)

instance (old new : AuthorizationStatus) : Decidable (old.mayBecome new) :=
  inferInstanceAs (Decidable (_ ∨ _ ∨ _))

/-- The two triggers on `requested_feature` let no stored row name another
feature, so their condition stands with the checks. -/
instance : Schema Authorization where
  check a := SafeTime a.revision ∧ (∀ t ∈ a.code_expires_at, SafeTime t) ∧
    SafeTime a.created_at ∧ a.created_at < a.expires_at ∧ a.expires_at ≤ maxSafeInteger ∧
    (∀ t ∈ a.recovery_until, SafeTime t) ∧ a.answered ∧ a.consumption ∧
    (∀ f ∈ a.feature, f = a.requested_feature)
  clash a b := a.handle_hash = b.handle_hash
  beforeUpdate _ old new :=
    if (old.status = .approved ∨ old.status = .consumed) ∧ new.approvalOf ≠ old.approvalOf then
      some "authorization_approval_immutable"
    else if old.status = .consumed ∧ new.consumptionOf ≠ old.consumptionOf then
      some "authorization_consumption_immutable"
    else if new.intentOf ≠ old.intentOf then some "authorization_intent_immutable"
    else if new.revision < old.revision then some "authorization_revision_cannot_shrink"
    else if ¬ old.status.mayBecome new.status then some "authorization_transition_invalid"
    else none
  clash_symm := Eq.symm
  decCheck := fun _ => inferInstance
  decClash := fun _ _ => inferInstance

/-- A challenge that an invocation has consumed stays as it is. -/
structure ChallengeAges (c c' : Challenge) : Prop where
  id : c'.id = c.id
  consumed : c.consumed_invocation_id ≠ none → c' = c

theorem ChallengeAges.refl (c : Challenge) : ChallengeAges c c := ⟨rfl, fun _ => rfl⟩

/-- The trigger `tr_bound_challenge_immutable` lets an update only age a
challenge. -/
theorem challenge_of_trigger {now : Int} {old new : Challenge}
    (h : Schema.beforeUpdate now old new = none) : ChallengeAges old new := by
  simp only [Schema.beforeUpdate, ite_eq_right_iff, reduceCtorEq, imp_false, not_or, ne_eq,
    not_not] at h
  have hid := congrArg Challenge.id h.1
  exact ⟨hid, fun hc => absurd h.2.1 hc⟩

/-- An attempt that an issue has consumed keeps what it was consumed by. -/
structure AttemptAges (a a' : Authorization) : Prop where
  handle_hash : a'.handle_hash = a.handle_hash
  consumed : a.status = .consumed → a'.status = .consumed ∧ a'.consumptionOf = a.consumptionOf

theorem AttemptAges.refl (a : Authorization) : AttemptAges a a := ⟨rfl, fun h => ⟨h, rfl⟩⟩

/-- The triggers on the attempts let an update only age an attempt. -/
theorem attempt_of_trigger {now : Int} {old new : Authorization}
    (h : Schema.beforeUpdate now old new = none) : AttemptAges old new := by
  simp only [Schema.beforeUpdate] at h
  split at h
  · cases h
  split at h
  · cases h
  rename_i hcon
  split at h
  · cases h
  rename_i hintent
  split at h
  · cases h
  split at h
  · cases h
  rename_i hbecome
  rw [ne_eq, not_not] at hintent
  refine ⟨congrArg (fun i => i.1.1) hintent, fun hs => ⟨?_, ?_⟩⟩
  · rcases not_not.mp hbecome with hb | ⟨hb, -⟩ | ⟨hb, -⟩
    · exact hb.trans hs
    · rw [hs] at hb
      cases hb
    · rw [hs] at hb
      cases hb
  · by_contra hne
    exact hcon ⟨hs, hne⟩

/-! ## Operations, leases and events -/

inductive OperationStatus where
  | prepared
  | complete
  deriving DecidableEq

/-- The response of a retirement, which its batch stores as JSON. -/
structure RetireResponse where
  binding_id : String
  state : BindingState
  effective_release_at : Int
  revision : Int
  generation : Int
  deriving DecidableEq

/-- The response of an issued lease. -/
structure LeaseResponse where
  code : String
  request_id : String
  device_id : String
  binding_id : String
  generation : Int
  entitlement : EntitlementKey
  lease : String
  renew_after : Int
  expires_at : Int
  accept_until : Int
  deriving DecidableEq

/-- `response_json`: empty when the recovery window has erased it. -/
inductive StoredResponse where
  | erased
  | lease (response : LeaseResponse)
  | retire (response : RetireResponse)
  deriving DecidableEq

structure Operation where
  key_id : String
  purpose : Purpose
  operation_id : String
  invocation_id : String
  request_digest : String
  customer_id : String
  binding_id : String
  lease_id : Option String
  status : OperationStatus := .prepared
  response_json : StoredResponse
  committed_at : Int
  retain_until : Int
  deriving DecidableEq

/-- The key of the table of operations. -/
structure OperationKey where
  key_id : String
  purpose : Purpose
  operation_id : String
  deriving DecidableEq

def Operation.operationKey (o : Operation) : OperationKey := ⟨o.key_id, o.purpose, o.operation_id⟩

/-- Two operations clash in the key of the table or in the invocation. -/
def Operation.sameSlot (a b : Operation) : Prop :=
  a.operationKey = b.operationKey ∨ a.invocation_id = b.invocation_id

instance (a b : Operation) : Decidable (a.sameSlot b) := inferInstanceAs (Decidable (_ ∨ _))

theorem Operation.sameSlot_symm {a b : Operation} (h : a.sameSlot b) : b.sameSlot a :=
  h.imp Eq.symm Eq.symm

instance : Schema Operation where
  check o := SafeTime o.committed_at ∧ o.committed_at < o.retain_until ∧
    o.retain_until ≤ maxSafeInteger
  clash a b := a.sameSlot b
  beforeInsert rows new :=
    if ∃ o ∈ rows, o.sameSlot new then some "operation_tombstone_required" else none
  beforeUpdate now old new :=
    if { new with status := old.status, response_json := old.response_json } ≠ old ∨
        ¬ ((old.status = .prepared ∧ new.status = .complete ∧
            new.response_json = old.response_json) ∨
          (old.status = .complete ∧ new.status = .complete ∧ old.retain_until ≤ now ∧
            new.response_json = .erased)) then
      some "operation_result_immutable"
    else none
  beforeDelete _ := some "operation_tombstone_required"
  clash_symm := Operation.sameSlot_symm
  decCheck := fun _ => inferInstance
  decClash := fun _ _ => inferInstance

structure Lease where
  id : String
  binding_id : String
  generation : Int
  entitlement_revision : Int
  invocation_id : String
  issued_at : Int
  expires_at : Int
  accept_until : Int
  token : String
  deriving DecidableEq

instance : Schema Lease where
  check l := (1 ≤ l.generation ∧ l.generation ≤ maxSafeInteger) ∧
    SafeTime l.entitlement_revision ∧ SafeTime l.issued_at ∧ l.issued_at < l.expires_at ∧
    l.expires_at - l.issued_at ≤ 86400 ∧ l.accept_until = l.expires_at + 120 ∧
    l.accept_until ≤ maxSafeInteger
  clash a b := a.id = b.id ∨ a.invocation_id = b.invocation_id
  clash_symm := fun h => h.imp Eq.symm Eq.symm
  decCheck := fun _ => inferInstance
  decClash := fun _ _ => inferInstance

structure BoundEvent where
  invocation_id : String
  binding_id : String
  customer_id : String
  event_type : Purpose
  actor : String
  occurred_at : Int

instance : Schema BoundEvent where
  check a := SafeTime a.occurred_at
  clash a b := a.invocation_id = b.invocation_id
  clash_symm := Eq.symm
  decCheck := fun _ => inferInstance
  decClash := fun _ _ => inferInstance

/-- The cached answer of a denial, which `mutation_idempotency` stores as
JSON. -/
structure DenialReceipt where
  invocation : String
  digest : String
  revision : Int

/-- A row of `mutation_idempotency` in the scope of a denial. -/
structure IdempotencyRow where
  scope : String
  idempotency_key : String
  response_json : DenialReceipt
  created_at : Int

instance : Schema IdempotencyRow where
  check _ := True
  clash a b := a.scope = b.scope ∧ a.idempotency_key = b.idempotency_key
  clash_symm := fun h => ⟨h.1.symm, h.2.symm⟩
  decCheck := fun _ => inferInstance
  decClash := fun _ _ => inferInstance

/-- A row that only a batch whose final condition holds can insert. -/
structure CommitCheck where
  invocation_id : String
  ok : Int

instance : Schema CommitCheck where
  check k := k.ok = 1
  clash a b := a.invocation_id = b.invocation_id
  clash_symm := Eq.symm
  decCheck := fun _ => inferInstance
  decClash := fun _ _ => inferInstance

end Licensecc
