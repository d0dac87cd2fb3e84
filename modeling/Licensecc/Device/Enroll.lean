-- The statements of an enrollment: a new attempt, the challenge of a request,
-- and the answer of a customer to a pending attempt. Each statement decides
-- what it admits from the rows and the clock of its own instant.
import Licensecc.Device.Commit

open Licensecc.Sql

namespace Licensecc

/-! ## Attempts -/

/-- The request that `createBoundAuthorization` stores, with the id of its
device key. -/
structure AuthorizationRequest where
  client_id : String
  project : String
  requested_feature : String
  key_id : String
  public_key_spki : String
  device_label : String
  redirect_uri : String
  state : String
  code_challenge : String

def AuthorizationRequest.row (q : AuthorizationRequest) (handle_hash : String) (now : Int) :
    Authorization where
  handle_hash := handle_hash
  client_id := q.client_id
  project := q.project
  key_id := q.key_id
  public_key_spki := q.public_key_spki
  device_label := q.device_label
  redirect_uri := q.redirect_uri
  client_state := q.state
  pkce_challenge := q.code_challenge
  requested_feature := q.requested_feature
  created_at := now
  expires_at := now + 300

def insertAuthorization (q : AuthorizationRequest) (handle_hash : String) : Stmt Db :=
  fun now _ db => inserted (do
    let device_bound_authorizations ← db.device_bound_authorizations.insert (q.row handle_hash now)
    return { db with device_bound_authorizations })

/-! ## Challenges -/

/-- What a challenge is asked for: the attempt of an exchange by the hash of its
handle, or the binding of a renewal. -/
inductive ChallengeSubject where
  | exchange (handle_hash : String)
  | renew (binding_id : String)

structure ChallengeRequest where
  subject : ChallengeSubject
  operation_id : String
  nonce_hash : String

def ChallengeRequest.purpose (q : ChallengeRequest) : Purpose :=
  match q.subject with
  | .exchange _ => .exchange
  | .renew _ => .renew

/-- The row that admits a challenge. -/
structure AdmittedSubject where
  subject_id : String
  key_id : String
  deadline : Int

/-- The operation that has consumed an attempt, while its response is stored. -/
def consumedBy (a : Authorization) (db : Db) : Option Operation :=
  db.device_bound_operations.find? fun o => o.key_id = a.key_id ∧ o.purpose = .exchange ∧
    some o.operation_id = a.consumed_operation_id ∧
    some o.invocation_id = a.consumed_invocation_id ∧ some o.customer_id = a.customer_id ∧
    o.status = .complete ∧ o.response_json ≠ .erased

/-- The deadline of a challenge for an attempt, when it admits one. -/
def exchangeDeadline (operation_id : String) (now : Int) (a : Authorization) (db : Db) :
    Option Int :=
  match a.status with
  | .pending => if now < a.expires_at then some a.expires_at else none
  | .approved =>
    if now < a.expires_at ∧ ∃ t ∈ a.code_expires_at, now < t then some a.expires_at else none
  | .consumed =>
    match a.recovery_until, consumedBy a db with
    | some recovery_until, some o =>
      if a.consumed_operation_id = some operation_id ∧ now < recovery_until ∧ now < o.retain_until
      then some (min recovery_until o.retain_until) else none
    | _, _ => none
  | .denied => none

/-- `exchangeSubject` and `renewSubject`. -/
def ChallengeRequest.admitted (q : ChallengeRequest) (now : Int) (db : Db) :
    Option AdmittedSubject :=
  match q.subject with
  | .exchange handle_hash =>
    (db.device_bound_authorizations.find? (·.handle_hash = handle_hash)).bind fun a =>
      (exchangeDeadline q.operation_id now a db).map fun deadline =>
        ⟨a.handle_hash, a.key_id, deadline⟩
  | .renew binding_id =>
    (db.device_bound_bindings.find? (·.id = binding_id)).bind fun b =>
      (db.device_bound_devices.find? (·.id = b.device_id)).map fun d => ⟨b.id, d.key_id, now + 60⟩

def ChallengeRequest.row (q : ChallengeRequest) (s : AdmittedSubject) (id : String) (now : Int) :
    Challenge where
  id := id
  purpose := q.purpose
  subject_id := s.subject_id
  key_id := s.key_id
  operation_id := q.operation_id
  nonce_hash := q.nonce_hash
  created_at := now
  expires_at := min (now + 60) s.deadline

def insertChallenge (q : ChallengeRequest) (id : String) : Stmt Db := fun now _ db =>
  match q.admitted now db with
  | some s =>
    if now < s.deadline then
      inserted (do
        let device_bound_challenges ← db.device_bound_challenges.insert (q.row s id now)
        return { db with device_bound_challenges })
    else .ok (0, db)
  | none => .ok (0, db)

/-! ## Approvals -/

/-- The approval of a customer, with the revisions that its reads have seen. -/
structure Approval where
  handleHash : String
  revision : Int
  customerId : String
  customerRevision : Int
  project : String
  feature : String
  fingerprint : String
  entitlementRevision : Int
  codeHash : String
  codeExpiresAt : Int
  ciphertext : String

def Approval.key (q : Approval) : EntitlementKey := ⟨q.project, q.feature, q.fingerprint⟩

/-- The entitlement that an approval names, at a time. -/
@[mk_iff] structure ApprovedEntitlement (q : Approval) (now : Int) (a : Authorization)
    (e : Entitlement) : Prop where
  key : e.toEntitlementKey = q.key
  customer_id : e.customer_id = q.customerId
  requested : e.feature = a.requested_feature
  status : e.status = .active
  authority_revision : e.authority_revision = q.entitlementRevision
  trial : boundTrialSql e a.key_id now true
  valid_from : ∀ t ∈ e.valid_from, t ≤ now
  valid_until : ∀ t ∈ e.valid_until, now < t

instance (q : Approval) (now : Int) (a : Authorization) (e : Entitlement) :
    Decidable (ApprovedEntitlement q now a e) :=
  decidable_of_iff' _ (approvedEntitlement_iff q now a e)

/-- The customer of an answer, active and at the revision of its reads. -/
def activeAnswerer (customerId : String) (revision : Int) (customers : Table Customer) : Prop :=
  ∃ c ∈ customers, c.id = customerId ∧ c.status = .active ∧ c.authority_revision = revision

instance (customerId : String) (revision : Int) (customers : Table Customer) :
    Decidable (activeAnswerer customerId revision customers) :=
  inferInstanceAs (Decidable (∃ _ ∈ _, _))

/-- The attempt that an approval selects. -/
@[mk_iff] structure Approves (db : Db) (q : Approval) (now : Int) (a : Authorization) : Prop where
  handle_hash : a.handle_hash = q.handleHash
  status : a.status = .pending
  revision : a.revision = q.revision
  expires_at : now < a.expires_at
  code_expires_at : now < q.codeExpiresAt
  owner : activeAnswerer q.customerId q.customerRevision db.customers
  entitlement : ∃ e ∈ db.entitlements, ApprovedEntitlement q now a e

instance (db : Db) (q : Approval) (now : Int) (a : Authorization) : Decidable (Approves db q now a) :=
  decidable_of_iff' _ (approves_iff db q now a)

def Approval.set (q : Approval) (a : Authorization) : Authorization :=
  { a with
    status := .approved, revision := a.revision + 1, customer_id := some q.customerId,
    feature := some q.feature, license_fingerprint := some q.fingerprint,
    code_hash := some q.codeHash, code_expires_at := some q.codeExpiresAt,
    approval_ciphertext := some q.ciphertext }

/-- The UPDATE of `approveBoundAuthorization`. -/
def approveAttempt (q : Approval) : Stmt Db := fun now _ db =>
  stored (db.device_bound_authorizations.update now (Approves db q now ·) q.set)
    fun t => { db with device_bound_authorizations := t }

/-! ## Denials -/

/-- The denial of a customer. -/
structure Denial where
  scope : String
  operationId : String
  digest : String
  invocation : String := ""
  handleHash : String
  expectedRevision : Int
  customerId : String
  customerRevision : Int

/-- The attempt that a denial selects. -/
@[mk_iff] structure Denies (customers : Table Customer) (q : Denial) (now : Int)
    (a : Authorization) : Prop where
  handle_hash : a.handle_hash = q.handleHash
  status : a.status = .pending
  revision : a.revision = q.expectedRevision
  expires_at : now < a.expires_at
  owner : activeAnswerer q.customerId q.customerRevision customers

instance (customers : Table Customer) (q : Denial) (now : Int) (a : Authorization) :
    Decidable (Denies customers q now a) := decidable_of_iff' _ (denies_iff customers q now a)

def Denial.receipt (q : Denial) (now : Int) : IdempotencyRow where
  scope := q.scope
  idempotency_key := q.operationId
  response_json := ⟨q.invocation, q.digest, q.expectedRevision + 1⟩
  created_at := now

/-- The row of the denial in `mutation_idempotency`. -/
def Denial.cached (q : Denial) (m : IdempotencyRow) : Prop :=
  m.scope = q.scope ∧ m.idempotency_key = q.operationId

instance (q : Denial) (m : IdempotencyRow) : Decidable (q.cached m) :=
  inferInstanceAs (Decidable (_ ∧ _))

def cacheDenial (q : Denial) : Stmt Db := fun now _ db =>
  if (∃ a ∈ db.device_bound_authorizations, Denies db.customers q now a) ∧
      ¬ ∃ m ∈ db.mutation_idempotency, q.cached m then
    inserted (do
      let mutation_idempotency ← db.mutation_idempotency.insert (q.receipt now)
      return { db with mutation_idempotency })
  else .ok (0, db)

def denyAttempt (q : Denial) : Stmt Db := fun now _ db =>
  stored (db.device_bound_authorizations.update now
    (fun a => Denies db.customers q now a ∧ ∃ m ∈ db.mutation_idempotency, q.cached m ∧
      m.response_json.invocation = q.invocation)
    fun a => { a with status := .denied, revision := a.revision + 1 })
    fun t => { db with device_bound_authorizations := t }

/-- The last check: the attempt is denied, and the receipt says so. -/
def denialDone (q : Denial) (db : Db) (now : Int) : Prop :=
  (∃ a ∈ db.device_bound_authorizations, a.handle_hash = q.handleHash ∧ a.status = .denied ∧
    a.revision = q.expectedRevision + 1 ∧ now < a.expires_at) ∧
  activeAnswerer q.customerId q.customerRevision db.customers ∧
  ∃ m ∈ db.mutation_idempotency, q.cached m ∧ m.response_json.digest = q.digest

instance (q : Denial) (db : Db) (now : Int) : Decidable (denialDone q db now) :=
  inferInstanceAs (Decidable ((∃ _ ∈ _, _ ∧ _ ∧ _ ∧ _) ∧ _ ∧ ∃ _ ∈ _, _ ∧ _))

/-- The batch of `denyBoundAuthorization`. -/
def denyBatch (q : Denial) : List (Stmt Db) :=
  [cacheDenial q, denyAttempt q, assertThat q.invocation (denialDone q), removeCheck q.invocation]

/-! ## What a challenge does -/

/-- A statement that succeeds has stored the challenge of an admitted subject,
or it has done nothing. -/
theorem insertChallenge_ok {q : ChallengeRequest} {id : String} {now : Int} {changes n : Nat}
    {db db' : Db} (h : insertChallenge q id now changes db = .ok (n, db')) :
    db' = db ∨ ∃ s, q.admitted now db = some s ∧ now < s.deadline ∧
      ∃ t, db.device_bound_challenges.insert (q.row s id now) = .ok t ∧
        db' = { db with device_bound_challenges := t } := by
  unfold insertChallenge at h
  split at h
  · rename_i s hs
    split at h
    · rename_i hlt
      exact .inr ⟨s, hs, hlt, store_eq_ok.mp (inserted_eq_ok.mp h).2⟩
    · exact .inl (Prod.mk.inj (Except.ok.inj h)).2.symm
  · exact .inl (Prod.mk.inj (Except.ok.inj h)).2.symm

/-! ## What a denial does -/

variable {q : Denial} {db db' : Db} {clock : Nat → Int}

/-- A batch that succeeds has cached its receipt or found one, and it has
denied at most the attempt of its handle. -/
structure DenyEffect (q : Denial) (clock : Nat → Int) (db db' : Db) : Prop where
  receipts : ∀ m ∈ db.mutation_idempotency, m ∈ db'.mutation_idempotency
  attempts : ∃ n, db.device_bound_authorizations.update (clock 1)
    (fun a => Denies db.customers q (clock 1) a ∧ ∃ m ∈ db'.mutation_idempotency, q.cached m ∧
      m.response_json.invocation = q.invocation)
    (fun a => { a with status := .denied, revision := a.revision + 1 }) =
      .ok (n, db'.device_bound_authorizations)
  done : denialDone q db' (clock 2)
  others : db' = { db with
    mutation_idempotency := db'.mutation_idempotency
    device_bound_authorizations := db'.device_bound_authorizations }

theorem cacheDenial_ok {now : Int} {changes n : Nat}
    (h : cacheDenial q now changes db = .ok (n, db')) : ∃ t, db' = { db with
      mutation_idempotency := t } ∧ ∀ m ∈ db.mutation_idempotency, m ∈ t := by
  unfold cacheDenial at h
  split at h
  · obtain ⟨-, h1⟩ := inserted_eq_ok.mp h
    obtain ⟨t, ht, rfl⟩ := store_eq_ok.mp h1
    exact ⟨t, rfl, fun m hm => (Table.mem_of_insert ht).mpr (.inr hm)⟩
  · obtain ⟨-, rfl⟩ := Prod.mk.inj (Except.ok.inj h)
    exact ⟨_, rfl, fun m hm => hm⟩

theorem denyBatch_ok {ns : List Nat} (h : runBatch (denyBatch q) clock 0 db = .ok (ns, db')) :
    DenyEffect q clock db db' := by
  obtain ⟨_, _, _, h1, h, -⟩ := runBatch_cons.mp h
  obtain ⟨receipts, rfl, hkept⟩ := cacheDenial_ok h1
  obtain ⟨_, _, _, h2, h, -⟩ := runBatch_cons.mp h
  obtain ⟨attempts, hattempts, rfl⟩ := stored_eq_ok.mp h2
  obtain ⟨_, _, _, h3, h, -⟩ := runBatch_cons.mp h
  obtain ⟨hdone, checks, hchecks, rfl⟩ := assertThat_ok h3
  obtain ⟨_, _, _, h4, h, -⟩ := runBatch_cons.mp h
  obtain ⟨checks', hchecks', rfl⟩ := stored_eq_ok.mp h4
  obtain ⟨-, rfl⟩ := runBatch_nil.mp h
  obtain rfl := remove_inserted hchecks hchecks'
  exact ⟨hkept, ⟨_, hattempts⟩, hdone, rfl⟩

end Licensecc
