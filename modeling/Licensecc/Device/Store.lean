-- The batch that issues a lease. Its guard admits a candidate, the statements
-- after it write the rows of the issue, and the last check stops the batch
-- when a row is missing.
import Licensecc.Schema.Db
import Licensecc.Device.Policy
import Mathlib.Tactic.MkIffOfInductiveProp

open Licensecc.Sql

namespace Licensecc

/-! ## The candidate -/

/-- The authority that the reads of an issue have seen. A renewal has no
attempt, so the four fields of the attempt are NULL there. The invocation id
is drawn when a batch runs. -/
structure Snapshot where
  purpose : Purpose
  keyId : String
  operationId : String
  invocationId : String := ""
  requestDigest : String
  customerId : String
  customerRevision : Int
  project : String
  feature : String
  fingerprint : String
  entitlementRevision : Int
  trialStamp : Int
  deviceId : String
  deviceRevision : Int
  publicKeySpki : String
  deviceLabel : String
  bindingId : String
  bindingRevision : Int
  generation : Int
  challengeId : String
  challengeExpiresAt : Int
  nonceHash : String
  subjectId : String
  attemptRevision : Option Int
  codeHash : Option String
  pkceChallenge : Option String
  redirectUri : Option String

def Snapshot.key (p : Snapshot) : EntitlementKey := ⟨p.project, p.feature, p.fingerprint⟩

def Snapshot.operationKey (p : Snapshot) : OperationKey := ⟨p.keyId, p.purpose, p.operationId⟩

/-- The signed candidate of a lease. -/
structure Candidate extends Snapshot where
  leaseId : String
  issuedAt : Int
  expiresAt : Int
  acceptUntil : Int
  token : String
  responseJson : LeaseResponse

/-! ## The conditions that the statements share -/

/-- The entitlement of the candidate, at a revision. -/
@[mk_iff] structure Owned (p : Candidate) (revision : Int) (allowUnstarted : Bool) (now : Int)
    (e : Entitlement) : Prop where
  key : e.toEntitlementKey = p.key
  customer : e.customer_id = p.customerId
  status : e.status = .active
  authority_revision : e.authority_revision = revision
  trial : boundTrialSql e p.keyId now allowUnstarted
  valid_from : ∀ t ∈ e.valid_from, t ≤ now
  valid_until : ∀ t ∈ e.valid_until, now < t

/-- The customer that owns the entitlement. -/
@[mk_iff] structure ActiveOwner (p : Candidate) (c : Customer) : Prop where
  id : c.id = p.customerId
  status : c.status = .active
  authority_revision : c.authority_revision = p.customerRevision

@[mk_iff] structure OpenChallenge (p : Candidate) (now : Int) (c : Challenge) : Prop where
  id : c.id = p.challengeId
  key_id : c.key_id = p.keyId
  purpose : c.purpose = p.purpose
  operation_id : c.operation_id = p.operationId
  subject_id : c.subject_id = p.subjectId
  nonce_hash : c.nonce_hash = p.nonceHash
  unconsumed : c.consumed_invocation_id = none
  expires_at : c.expires_at = p.challengeExpiresAt
  ahead : now < c.expires_at

@[mk_iff] structure ActiveDevice (p : Candidate) (d : Device) : Prop where
  id : d.id = p.deviceId
  key_id : d.key_id = p.keyId
  public_key_spki : d.public_key_spki = p.publicKeySpki
  customer_id : d.customer_id = p.customerId
  project : d.project = p.project
  status : d.status = .active
  revision : d.revision = p.deviceRevision

@[mk_iff] structure ActiveBinding (p : Candidate) (b : Binding) : Prop where
  id : b.id = p.bindingId
  key : b.toEntitlementKey = p.key
  device_id : b.device_id = p.deviceId
  state : b.state = .active
  generation : b.generation = p.generation
  revision : b.revision = p.bindingRevision

/-- The part of an approval that no issue changes. -/
@[mk_iff] structure SameApproval (p : Candidate) (now : Int) (a : Authorization) : Prop where
  handle_hash : a.handle_hash = p.subjectId
  customer_id : a.customer_id = some p.customerId
  project : a.project = p.project
  feature : a.feature = some p.feature
  license_fingerprint : a.license_fingerprint = some p.fingerprint
  key_id : a.key_id = p.keyId
  code_hash : Same a.code_hash p.codeHash
  pkce_challenge : p.pkceChallenge = some a.pkce_challenge
  redirect_uri : p.redirectUri = some a.redirect_uri
  expires_at : now < a.expires_at
  code_expires_at : ∃ t ∈ a.code_expires_at, now < t

@[mk_iff] structure Approved (p : Candidate) (now : Int) (a : Authorization) : Prop
    extends SameApproval p now a where
  public_key_spki : a.public_key_spki = p.publicKeySpki
  status : a.status = .approved
  revision : p.attemptRevision = some a.revision

/-- The operation that the guard of this invocation has inserted. -/
@[mk_iff] structure PreparedFor (p : Candidate) (o : Operation) : Prop where
  invocation_id : o.invocation_id = p.invocationId
  key_id : o.key_id = p.keyId
  purpose : o.purpose = p.purpose
  operation_id : o.operation_id = p.operationId
  request_digest : o.request_digest = p.requestDigest
  binding_id : o.binding_id = p.bindingId
  lease_id : o.lease_id = some p.leaseId
  customer_id : o.customer_id = p.customerId
  status : o.status = .prepared

instance (p : Candidate) (revision : Int) (allow : Bool) (now : Int) (e : Entitlement) :
    Decidable (Owned p revision allow now e) := decidable_of_iff' _ (owned_iff p revision allow now e)

instance (p : Candidate) (c : Customer) : Decidable (ActiveOwner p c) :=
  decidable_of_iff' _ (activeOwner_iff p c)

instance (p : Candidate) (now : Int) (c : Challenge) : Decidable (OpenChallenge p now c) :=
  decidable_of_iff' _ (openChallenge_iff p now c)

instance (p : Candidate) (d : Device) : Decidable (ActiveDevice p d) :=
  decidable_of_iff' _ (activeDevice_iff p d)

instance (p : Candidate) (b : Binding) : Decidable (ActiveBinding p b) :=
  decidable_of_iff' _ (activeBinding_iff p b)

instance (p : Candidate) (now : Int) (a : Authorization) : Decidable (SameApproval p now a) :=
  decidable_of_iff' _ (sameApproval_iff p now a)

instance (p : Candidate) (now : Int) (a : Authorization) : Decidable (Approved p now a) :=
  decidable_of_iff' _ (approved_iff p now a)

instance (p : Candidate) (o : Operation) : Decidable (PreparedFor p o) :=
  decidable_of_iff' _ (preparedFor_iff p o)

/-! ## The guard -/

/-- The window and the trial of the candidate against its entitlement. -/
@[mk_iff] structure WindowGuard (p : Candidate) (now : Int) (e : Entitlement) : Prop where
  issued : p.issuedAt ≤ now
  ahead : now < p.expiresAt
  shortest : 2 ≤ p.expiresAt - p.issuedAt
  longest : p.expiresAt - p.issuedAt ≤ 86400
  accept : p.acceptUntil = p.expiresAt + 120
  within : ∀ t ∈ e.valid_until, p.expiresAt ≤ t
  lease_seconds : e.lease_seconds ≤ 0 ∨ p.expiresAt ≤ p.issuedAt + e.lease_seconds
  stamp : p.trialStamp = if e.is_trial = 1 ∧ e.trial_started_at = none then 1 else 0
  stamp_room : p.trialStamp = 0 ∨ e.authority_revision < maxSafeInteger
  stamp_exchange : p.purpose = .exchange ∨ p.trialStamp = 0
  trial_deadline : e.is_trial = 0 ∨
    ∃ t ∈ boundTrialDeadlineSql e p.issuedAt, p.expiresAt ≤ t

/-- A new binding of an exchange: no row has its id, the device has no active
binding, and a device slot is free. -/
@[mk_iff] structure FreshBinding (db : Db) (p : Candidate) (now : Int) (e : Entitlement) : Prop where
  generation : p.generation = 1
  revision : p.bindingRevision = 0
  id : ¬ ∃ b ∈ db.device_bound_bindings, b.id = p.bindingId
  device : ¬ ∃ b ∈ db.device_bound_bindings, b.toEntitlementKey = p.key ∧
    b.device_id = p.deviceId ∧ b.state = .active
  capacity : db.occupied now p.key < e.max_active_devices

/-- The device and the binding of the candidate, for each purpose. -/
def SubjectGuard (db : Db) (p : Candidate) (now : Int) (e : Entitlement) : Prop :=
  (p.purpose = .renew ∧ p.subjectId = p.bindingId ∧
    (∃ d ∈ db.device_bound_devices, ActiveDevice p d) ∧
    ∃ b ∈ db.device_bound_bindings, ActiveBinding p b) ∨
  (p.purpose = .exchange ∧ (∃ a ∈ db.device_bound_authorizations, Approved p now a) ∧
    ((∃ d ∈ db.device_bound_devices, ActiveDevice p d) ∨
      (p.deviceRevision = 0 ∧
        ¬ ∃ d ∈ db.device_bound_devices, d.key_id = p.keyId ∨ d.id = p.deviceId)) ∧
    ((∃ b ∈ db.device_bound_bindings, ActiveBinding p b) ∨ FreshBinding db p now e))

/-- The condition of `BOUND_LEASE_GUARD_SQL` on the entitlement that it
joins. -/
@[mk_iff] structure LeaseGuard (db : Db) (p : Candidate) (now : Int) (e : Entitlement) : Prop where
  owned : Owned p p.entitlementRevision true now e
  owner : ∃ c ∈ db.customers, ActiveOwner p c
  purpose : p.purpose = .exchange ∨ p.purpose = .renew
  window : WindowGuard p now e
  challenge : ∃ c ∈ db.device_bound_challenges, OpenChallenge p now c
  subject : SubjectGuard db p now e

instance (p : Candidate) (now : Int) (e : Entitlement) : Decidable (WindowGuard p now e) :=
  decidable_of_iff' _ (windowGuard_iff p now e)

instance (db : Db) (p : Candidate) (now : Int) (e : Entitlement) :
    Decidable (FreshBinding db p now e) := decidable_of_iff' _ (freshBinding_iff db p now e)

instance (db : Db) (p : Candidate) (now : Int) (e : Entitlement) :
    Decidable (SubjectGuard db p now e) :=
  inferInstanceAs (Decidable (_ ∧ _ ∧ _ ∧ _ ∨ _ ∧ _ ∧ (_ ∨ _ ∧ _) ∧ (_ ∨ _)))

instance (db : Db) (p : Candidate) (now : Int) (e : Entitlement) :
    Decidable (LeaseGuard db p now e) := decidable_of_iff' _ (leaseGuard_iff db p now e)

/-! ## The rows of an issue -/

/-- The operation that the guard inserts. -/
def Candidate.operation (p : Candidate) (now : Int) : Operation where
  key_id := p.keyId
  purpose := p.purpose
  operation_id := p.operationId
  invocation_id := p.invocationId
  request_digest := p.requestDigest
  customer_id := p.customerId
  binding_id := p.bindingId
  lease_id := some p.leaseId
  response_json := .lease p.responseJson
  committed_at := now
  retain_until := now + 172800

def Candidate.device (p : Candidate) (o : Operation) : Device where
  id := p.deviceId
  customer_id := p.customerId
  project := p.project
  key_id := p.keyId
  public_key_spki := p.publicKeySpki
  label := p.deviceLabel
  created_at := o.committed_at
  last_proof_at := o.committed_at

def Candidate.binding (p : Candidate) (o : Operation) : Binding where
  toEntitlementKey := p.key
  id := p.bindingId
  device_id := p.deviceId
  created_at := o.committed_at
  updated_at := o.committed_at

def Candidate.lease (p : Candidate) : Lease where
  id := p.leaseId
  binding_id := p.bindingId
  generation := p.generation
  entitlement_revision := p.entitlementRevision + p.trialStamp
  invocation_id := p.invocationId
  issued_at := p.issuedAt
  expires_at := p.expiresAt
  accept_until := p.acceptUntil
  token := p.token

def Candidate.event (p : Candidate) (o : Operation) : BoundEvent where
  invocation_id := p.invocationId
  binding_id := p.bindingId
  customer_id := p.customerId
  event_type := p.purpose
  actor := p.keyId
  occurred_at := o.committed_at

/-! ## The statements -/

/-- `BOUND_LEASE_GUARD_SQL`. -/
def leaseGuard (p : Candidate) : Stmt Db := fun now _ db =>
  if ∃ e ∈ db.entitlements, LeaseGuard db p now e then
    inserted (db.insertOperation (p.operation now))
  else .ok (0, db)

/-- A statement whose rows all join the prepared operation of the candidate:
without that operation it selects no row. -/
def joined (p : Candidate) (f : Operation → Int → Db → Except Abort (Nat × Db)) : Stmt Db :=
  fun now _ db =>
    match db.device_bound_operations.find? (PreparedFor p ·) with
    | some o => f o now db
    | none => .ok (0, db)

/-- The rows that `stampTrial` selects. -/
def stampSelects (p : Candidate) (e : Entitlement) : Prop :=
  e.trial_started_at = none ∧ e.trial_device_key_id = none ∧ e.is_trial = 1 ∧
    p.trialStamp = 1 ∧ p.purpose = .exchange ∧ e.toEntitlementKey = p.key ∧
    e.authority_revision = p.entitlementRevision

instance (p : Candidate) (e : Entitlement) : Decidable (stampSelects p e) :=
  inferInstanceAs (Decidable (_ ∧ _ ∧ _ ∧ _ ∧ _ ∧ _ ∧ _))

def stampSet (p : Candidate) (o : Operation) (e : Entitlement) : Entitlement :=
  { e with
    trial_started_at := some o.committed_at, trial_device_key_id := some p.keyId,
    updated_at := o.committed_at }

def stampTrial (p : Candidate) : Stmt Db :=
  joined p fun o now db => db.updateEntitlements now false (stampSelects p) (stampSet p o)

def createDevice (p : Candidate) : Stmt Db :=
  joined p fun o _ db =>
    if p.purpose = .exchange ∧ ¬ ∃ d ∈ db.device_bound_devices, d.id = p.deviceId then
      inserted (db.insertDevice (p.device o))
    else .ok (0, db)

def createBinding (p : Candidate) : Stmt Db :=
  joined p fun o _ db =>
    if p.purpose = .exchange ∧ ¬ ∃ b ∈ db.device_bound_bindings, b.id = p.bindingId then
      inserted (db.insertBinding (p.binding o))
    else .ok (0, db)

def challengeSet (invocationId : String) (c : Challenge) : Challenge :=
  { c with consumed_invocation_id := some invocationId }

def consumeChallenge (p : Candidate) : Stmt Db :=
  joined p fun _ now db =>
    stored (db.device_bound_challenges.update now (OpenChallenge p now ·)
      (challengeSet p.invocationId)) fun t => { db with device_bound_challenges := t }

def approvalSet (p : Candidate) (o : Operation) (a : Authorization) : Authorization :=
  { a with
    status := .consumed, revision := a.revision + 1,
    consumed_invocation_id := some p.invocationId, consumed_operation_id := some p.operationId,
    recovery_until := some o.retain_until, approval_ciphertext := none }

def consumeApproval (p : Candidate) : Stmt Db :=
  joined p fun o now db =>
    stored (db.device_bound_authorizations.update now
      (fun a => p.purpose = .exchange ∧ Approved p now a) (approvalSet p o))
      fun t => { db with device_bound_authorizations := t }

def bindingSet (p : Candidate) (o : Operation) (b : Binding) : Binding :=
  { b with
    hold_until := max b.hold_until p.acceptUntil, revision := b.revision + 1,
    updated_at := o.committed_at }

def updateBinding (p : Candidate) : Stmt Db :=
  joined p fun o now db =>
    stored (db.device_bound_bindings.update now (ActiveBinding p ·) (bindingSet p o))
      fun t => { db with device_bound_bindings := t }

def deviceSet (o : Operation) (d : Device) : Device := { d with last_proof_at := o.committed_at }

def updateDevice (p : Candidate) : Stmt Db :=
  joined p fun o now db =>
    stored (db.device_bound_devices.update now (ActiveDevice p ·) (deviceSet o))
      fun t => { db with device_bound_devices := t }

def issueLease (p : Candidate) : Stmt Db :=
  joined p fun _ _ db => inserted (db.insertLease p.lease)

def audit (p : Candidate) : Stmt Db :=
  joined p fun o _ db => inserted (db.insertEvent (p.event o))

/-! ## The final check -/

@[mk_iff] structure FinalEntitlement (p : Candidate) (now : Int) (o : Operation)
    (e : Entitlement) : Prop where
  owned : Owned p (p.entitlementRevision + p.trialStamp) false now e
  deadline : e.is_trial = 0 ∨ ∃ t ∈ boundTrialDeadlineSql e p.issuedAt, p.expiresAt ≤ t
  stamp : p.trialStamp = 0 ∨
    (e.trial_started_at = some o.committed_at ∧ e.trial_device_key_id = some p.keyId)

@[mk_iff] structure FinalBinding (p : Candidate) (b : Binding) : Prop where
  id : b.id = p.bindingId
  key : b.toEntitlementKey = p.key
  device_id : b.device_id = p.deviceId
  state : b.state = .active
  generation : b.generation = p.generation
  revision : b.revision = p.bindingRevision + 1
  hold_until : p.acceptUntil ≤ b.hold_until

@[mk_iff] structure FinalLease (p : Candidate) (e : Entitlement) (l : Lease) : Prop where
  id : l.id = p.leaseId
  binding_id : l.binding_id = p.bindingId
  generation : l.generation = p.generation
  entitlement_revision : l.entitlement_revision = e.authority_revision
  invocation_id : l.invocation_id = p.invocationId
  issued_at : l.issued_at = p.issuedAt
  expires_at : l.expires_at = p.expiresAt
  accept_until : l.accept_until = p.acceptUntil
  token : l.token = p.token

@[mk_iff] structure FinalEvent (p : Candidate) (a : BoundEvent) : Prop where
  invocation_id : a.invocation_id = p.invocationId
  binding_id : a.binding_id = p.bindingId
  customer_id : a.customer_id = p.customerId
  actor : a.actor = p.keyId
  event_type : a.event_type = p.purpose

@[mk_iff] structure FinalChallenge (p : Candidate) (now : Int) (c : Challenge) : Prop where
  id : c.id = p.challengeId
  consumed : c.consumed_invocation_id = some p.invocationId
  operation_id : c.operation_id = p.operationId
  key_id : c.key_id = p.keyId
  subject_id : c.subject_id = p.subjectId
  purpose : c.purpose = p.purpose
  nonce_hash : c.nonce_hash = p.nonceHash
  expires_at : c.expires_at = p.challengeExpiresAt
  ahead : now < c.expires_at

@[mk_iff] structure FinalApproval (p : Candidate) (now : Int) (a : Authorization) : Prop
    extends SameApproval p now a where
  status : a.status = .consumed
  revision : p.attemptRevision.map (· + 1) = some a.revision
  invocation : a.consumed_invocation_id = some p.invocationId
  operation : a.consumed_operation_id = some p.operationId

instance (p : Candidate) (now : Int) (o : Operation) (e : Entitlement) :
    Decidable (FinalEntitlement p now o e) := decidable_of_iff' _ (finalEntitlement_iff p now o e)

instance (p : Candidate) (b : Binding) : Decidable (FinalBinding p b) :=
  decidable_of_iff' _ (finalBinding_iff p b)

instance (p : Candidate) (e : Entitlement) (l : Lease) : Decidable (FinalLease p e l) :=
  decidable_of_iff' _ (finalLease_iff p e l)

instance (p : Candidate) (a : BoundEvent) : Decidable (FinalEvent p a) :=
  decidable_of_iff' _ (finalEvent_iff p a)

instance (p : Candidate) (now : Int) (c : Challenge) : Decidable (FinalChallenge p now c) :=
  decidable_of_iff' _ (finalChallenge_iff p now c)

instance (p : Candidate) (now : Int) (a : Authorization) : Decidable (FinalApproval p now a) :=
  decidable_of_iff' _ (finalApproval_iff p now a)

/-- The condition of `BOUND_LEASE_FINALIZE_SQL` on the operation that it
completes: every row of the causal chain is there. -/
@[mk_iff] structure Finalizes (db : Db) (p : Candidate) (now : Int) (o : Operation) : Prop where
  invocation_id : o.invocation_id = p.invocationId
  prepared : o.status = .prepared
  ahead : now < p.expiresAt
  owner : ∃ c ∈ db.customers, ActiveOwner p c
  entitlement : ∃ e ∈ db.entitlements, FinalEntitlement p now o e ∧
    ∃ l ∈ db.device_bound_leases, FinalLease p e l
  device : ∃ d ∈ db.device_bound_devices, ActiveDevice p d ∧ d.last_proof_at = o.committed_at
  binding : ∃ b ∈ db.device_bound_bindings, FinalBinding p b
  event : ∃ a ∈ db.device_bound_events, FinalEvent p a
  challenge : ∃ c ∈ db.device_bound_challenges, FinalChallenge p now c
  approval : p.purpose = .renew ∨ ∃ a ∈ db.device_bound_authorizations, FinalApproval p now a

instance (db : Db) (p : Candidate) (now : Int) (o : Operation) : Decidable (Finalizes db p now o) :=
  decidable_of_iff' _ (finalizes_iff db p now o)

def operationSet (o : Operation) : Operation := { o with status := .complete }

/-- `BOUND_LEASE_FINALIZE_SQL`. -/
def finalize (p : Candidate) : Stmt Db := fun now _ db =>
  stored (db.device_bound_operations.update now (Finalizes db p now ·) operationSet)
    fun t => { db with device_bound_operations := t }

/-- The completed operation of the candidate. -/
@[mk_iff] structure CompleteFor (p : Candidate) (o : Operation) : Prop where
  invocation_id : o.invocation_id = p.invocationId
  status : o.status = .complete
  key_id : o.key_id = p.keyId
  purpose : o.purpose = p.purpose
  operation_id : o.operation_id = p.operationId
  request_digest : o.request_digest = p.requestDigest
  binding_id : o.binding_id = p.bindingId
  lease_id : o.lease_id = some p.leaseId
  response_json : o.response_json = .lease p.responseJson

instance (p : Candidate) (o : Operation) : Decidable (CompleteFor p o) :=
  decidable_of_iff' _ (completeFor_iff p o)

/-- The insert of a check row: its CHECK stops the batch when the condition
does not hold. -/
def assertThat (invocationId : String) (holds : Db → Int → Prop)
    [∀ db now, Decidable (holds db now)] : Stmt Db := fun now _ db => do
  let t ← db.device_bound_commit_checks.insert ⟨invocationId, if holds db now then 1 else 0⟩
  return (1, { db with device_bound_commit_checks := t })

/-- The delete of the check row of an invocation. -/
def removeCheck (invocationId : String) : Stmt Db := fun _ _ db =>
  stored (db.device_bound_commit_checks.delete (·.invocation_id = invocationId))
    fun t => { db with device_bound_commit_checks := t }

def assertComplete (p : Candidate) : Stmt Db :=
  assertThat p.invocationId fun db _ => ∃ o ∈ db.device_bound_operations, CompleteFor p o

/-- `BOUND_LEASE_COMMIT_SQL` before its last SELECT. -/
def boundLeaseCommit (p : Candidate) : List (Stmt Db) :=
  [leaseGuard p, stampTrial p, createDevice p, createBinding p, consumeChallenge p,
    consumeApproval p, updateBinding p, updateDevice p, issueLease p, audit p, finalize p,
    assertComplete p, removeCheck p.invocationId]

/-- The last SELECT of the batch. -/
def commitResult (p : Candidate) (db : Db) : Option StoredResponse :=
  (db.device_bound_operations.find? fun o =>
    o.invocation_id = p.invocationId ∧ o.status = .complete).map (·.response_json)

/-- The shape of the response that `commitBoundDeviceLease` asks of its
candidate before it runs the batch. -/
def Candidate.responseFits (p : Candidate) : Prop :=
  p.responseJson.code = (if p.purpose = .exchange then "device_activated" else "device_renewed") ∧
    p.responseJson.binding_id = p.bindingId ∧ p.responseJson.lease = p.token ∧
    p.responseJson.expires_at = p.expiresAt

instance (p : Candidate) : Decidable p.responseFits := inferInstanceAs (Decidable (_ ∧ _ ∧ _ ∧ _))

inductive CommitError where
  | invalid_candidate
  | invalid_candidate_response
  | aborted (reason : Abort)
  | commit_result_unavailable
  deriving DecidableEq

/-- `commitBoundDeviceLease` with the invocation id that it draws. -/
def commitBoundDeviceLease (p : Candidate) (clock : Nat → Int) (db : Db) :
    Except CommitError LeaseResponse × Db :=
  if ¬ (p.purpose = .exchange ∨ p.purpose = .renew) then (.error .invalid_candidate, db)
  else if ¬ p.responseFits then (.error .invalid_candidate_response, db)
  else
    match transact (boundLeaseCommit p) clock db with
    | (.error reason, db') => (.error (.aborted reason), db')
    | (.ok _, db') =>
      if commitResult p db' = some (.lease p.responseJson) then (.ok p.responseJson, db')
      else (.error .commit_result_unavailable, db')

end Licensecc
