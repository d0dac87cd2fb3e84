-- The laws of a recovery. Its batch consumes the challenge of the retry and
-- reads the stored response of the first run. It writes no other row.
import Licensecc.Device.Commit

open Licensecc.Sql

namespace Licensecc

/-! ## The batch -/

/-- The completed operation that a recovery returns, within its retention. -/
@[mk_iff] structure Recoverable (p : Snapshot) (now : Int) (o : Operation) : Prop where
  key_id : o.key_id = p.keyId
  purpose : o.purpose = p.purpose
  operation_id : o.operation_id = p.operationId
  request_digest : o.request_digest = p.requestDigest
  status : o.status = .complete
  stored : o.response_json ≠ .erased
  retain_until : now < o.retain_until
  customer_id : o.customer_id = p.customerId
  binding_id : o.binding_id = p.bindingId

@[mk_iff] structure RecoveryDevice (p : Snapshot) (d : Device) : Prop where
  id : d.id = p.deviceId
  key_id : d.key_id = p.keyId
  public_key_spki : d.public_key_spki = p.publicKeySpki
  customer_id : d.customer_id = p.customerId
  project : d.project = p.project
  status : d.status = .active
  revision : d.revision = p.deviceRevision

@[mk_iff] structure RecoveryBinding (p : Snapshot) (o : Operation) (b : Binding) : Prop where
  id : b.id = o.binding_id
  device_id : b.device_id = p.deviceId
  key : b.toEntitlementKey = p.key
  state : b.state = .active
  generation : b.generation = p.generation

@[mk_iff] structure RecoveryEntitlement (p : Snapshot) (now : Int) (e : Entitlement) : Prop where
  key : e.toEntitlementKey = p.key
  customer_id : e.customer_id = p.customerId
  status : e.status = .active
  authority_revision : e.authority_revision = p.entitlementRevision
  trial : boundTrialSql e p.keyId now false
  valid_from : ∀ t ∈ e.valid_from, t ≤ now
  valid_until : ∀ t ∈ e.valid_until, now < t

@[mk_iff] structure RecoveryApproval (p : Snapshot) (now : Int) (o : Operation)
    (a : Authorization) : Prop where
  handle_hash : a.handle_hash = p.subjectId
  status : a.status = .consumed
  invocation : a.consumed_invocation_id = some o.invocation_id
  operation : a.consumed_operation_id = some p.operationId
  recovery_until : ∃ t ∈ a.recovery_until, now < t
  customer_id : a.customer_id = some p.customerId
  project : a.project = p.project
  feature : a.feature = some p.feature
  license_fingerprint : a.license_fingerprint = some p.fingerprint
  key_id : a.key_id = p.keyId
  public_key_spki : a.public_key_spki = p.publicKeySpki
  code_hash : Same a.code_hash p.codeHash
  pkce_challenge : p.pkceChallenge = some a.pkce_challenge
  redirect_uri : p.redirectUri = some a.redirect_uri

instance (p : Snapshot) (now : Int) (o : Operation) : Decidable (Recoverable p now o) :=
  decidable_of_iff' _ (recoverable_iff p now o)

instance (p : Snapshot) (d : Device) : Decidable (RecoveryDevice p d) :=
  decidable_of_iff' _ (recoveryDevice_iff p d)

instance (p : Snapshot) (o : Operation) (b : Binding) : Decidable (RecoveryBinding p o b) :=
  decidable_of_iff' _ (recoveryBinding_iff p o b)

instance (p : Snapshot) (now : Int) (e : Entitlement) : Decidable (RecoveryEntitlement p now e) :=
  decidable_of_iff' _ (recoveryEntitlement_iff p now e)

instance (p : Snapshot) (now : Int) (o : Operation) (a : Authorization) :
    Decidable (RecoveryApproval p now o a) := decidable_of_iff' _ (recoveryApproval_iff p now o a)

/-- The authority of a recovery over one stored operation. -/
@[mk_iff] structure RecoveryAuthority (db : Db) (p : Snapshot) (now : Int) (o : Operation) : Prop where
  operation : Recoverable p now o
  device : ∃ d ∈ db.device_bound_devices, RecoveryDevice p d
  binding : ∃ b ∈ db.device_bound_bindings, RecoveryBinding p o b
  entitlement : ∃ e ∈ db.entitlements, RecoveryEntitlement p now e
  owner : ∃ c ∈ db.customers, c.id = p.customerId ∧ c.status = .active ∧
    c.authority_revision = p.customerRevision
  purpose : p.purpose = .exchange ∨ p.purpose = .renew
  subject : (p.purpose = .renew ∧ p.subjectId = p.bindingId) ∨
    (p.purpose = .exchange ∧ ∃ a ∈ db.device_bound_authorizations, RecoveryApproval p now o a)

instance (db : Db) (p : Snapshot) (now : Int) (o : Operation) :
    Decidable (RecoveryAuthority db p now o) :=
  decidable_of_iff' _ (recoveryAuthority_iff db p now o)

/-- The challenge of the retry, consumed or not. -/
@[mk_iff] structure RecoveryChallenge (p : Snapshot) (c : Challenge) : Prop where
  id : c.id = p.challengeId
  key_id : c.key_id = p.keyId
  purpose : c.purpose = p.purpose
  operation_id : c.operation_id = p.operationId
  subject_id : c.subject_id = p.subjectId
  nonce_hash : c.nonce_hash = p.nonceHash

instance (p : Snapshot) (c : Challenge) : Decidable (RecoveryChallenge p c) :=
  decidable_of_iff' _ (recoveryChallenge_iff p c)

/-- `validChallenge`. -/
def validChallenge (p : Snapshot) (now : Int) (c : Challenge) : Prop :=
  RecoveryChallenge p c ∧ c.expires_at = p.challengeExpiresAt ∧ now < c.expires_at

instance (p : Snapshot) (now : Int) (c : Challenge) : Decidable (validChallenge p now c) :=
  inferInstanceAs (Decidable (_ ∧ _ ∧ _))

def recoveryConsume (p : Snapshot) : Stmt Db := fun now _ db =>
  stored (db.device_bound_challenges.update now
    (fun c => c.consumed_invocation_id = none ∧ validChallenge p now c ∧
      ∃ o ∈ db.device_bound_operations, RecoveryAuthority db p now o)
    (challengeSet p.invocationId)) fun t => { db with device_bound_challenges := t }

def recoveryHolds (p : Snapshot) (db : Db) (now : Int) : Prop :=
  (∃ o ∈ db.device_bound_operations, RecoveryAuthority db p now o) ∧
    ∃ c ∈ db.device_bound_challenges, validChallenge p now c ∧
      c.consumed_invocation_id = some p.invocationId

instance (p : Snapshot) (db : Db) (now : Int) : Decidable (recoveryHolds p db now) :=
  inferInstanceAs (Decidable (_ ∧ ∃ _ ∈ _, _ ∧ _))

/-- `BOUND_RECOVERY_SQL` before its last SELECT. -/
def boundRecovery (p : Snapshot) : List (Stmt Db) :=
  [recoveryConsume p, assertThat p.invocationId (recoveryHolds p), removeCheck p.invocationId]

/-- The last SELECT of the batch. -/
def recoveryResult (p : Snapshot) (db : Db) : Option StoredResponse :=
  if ∃ c ∈ db.device_bound_challenges, RecoveryChallenge p c ∧
      c.consumed_invocation_id = some p.invocationId then
    (db.device_bound_operations.find? fun o => o.key_id = p.keyId ∧ o.purpose = p.purpose ∧
      o.operation_id = p.operationId ∧ o.request_digest = p.requestDigest ∧
      o.status = .complete ∧ o.customer_id = p.customerId ∧
      o.binding_id = p.bindingId).map (·.response_json)
  else none

/-- `recoverBoundDeviceLease` with the invocation id that it draws: none where
it throws. -/
def recoverBoundDeviceLease (p : Snapshot) (clock : Nat → Int) (db : Db) :
    Option LeaseResponse × Db :=
  match transact (boundRecovery p) clock db with
  | (.error _, db') => (none, db')
  | (.ok _, db') =>
    match recoveryResult p db' with
    | some (.lease response) => (some response, db')
    | _ => (none, db')

/-! ## What a recovery does -/

variable {p : Snapshot} {db db' : Db} {clock : Nat → Int}

/-- A batch that succeeds has found the stored operation and has consumed the
challenge of the retry. -/
structure RecoveryEffect (p : Snapshot) (clock : Nat → Int) (db db' : Db) : Prop where
  authority : ∃ o ∈ db.device_bound_operations, RecoveryAuthority db p (clock 1) o
  challenges : ∃ n, db.device_bound_challenges.update (clock 0)
    (fun c => c.consumed_invocation_id = none ∧ validChallenge p (clock 0) c ∧
      ∃ o ∈ db.device_bound_operations, RecoveryAuthority db p (clock 0) o)
    (challengeSet p.invocationId) = .ok (n, db'.device_bound_challenges)
  consumed : ∃ c ∈ db'.device_bound_challenges, validChallenge p (clock 1) c ∧
    c.consumed_invocation_id = some p.invocationId
  others : db' = { db with device_bound_challenges := db'.device_bound_challenges }

theorem boundRecovery_ok {ns : List Nat}
    (h : runBatch (boundRecovery p) clock 0 db = .ok (ns, db')) : RecoveryEffect p clock db db' := by
  obtain ⟨_, _, _, h1, h, -⟩ := runBatch_cons.mp h
  obtain ⟨challenges, hchallenges, rfl⟩ := stored_eq_ok.mp h1
  obtain ⟨_, _, _, h2, h, -⟩ := runBatch_cons.mp h
  obtain ⟨⟨⟨o, ho, ha⟩, hc⟩, checks, hchecks, rfl⟩ := assertThat_ok h2
  obtain ⟨_, _, _, h3, h, -⟩ := runBatch_cons.mp h
  obtain ⟨checks', hchecks', rfl⟩ := stored_eq_ok.mp h3
  obtain ⟨-, rfl⟩ := runBatch_nil.mp h
  obtain rfl := remove_inserted hchecks hchecks'
  refine ⟨⟨o, ho, ?_⟩, ⟨_, hchallenges⟩, hc, rfl⟩
  exact ⟨ha.operation, ha.device, ha.binding, ha.entitlement, ha.owner, ha.purpose, ha.subject⟩

/-- The response of a recovery is the response that the operation stores. -/
theorem recovery_response {response : LeaseResponse}
    (h : recoverBoundDeviceLease p clock db = (some response, db')) :
    RecoveryEffect p clock db db' ∧ ∃ o ∈ db.device_bound_operations, o.key_id = p.keyId ∧
      o.purpose = p.purpose ∧ o.operation_id = p.operationId ∧ o.status = .complete ∧
      o.response_json = .lease response := by
  unfold recoverBoundDeviceLease at h
  rcases transact_cases (boundRecovery p) clock db with ⟨e, -, ht⟩ | ⟨ns, db₁, hr, ht⟩
  · rw [ht] at h
    cases h
  rw [ht] at h
  have heff := boundRecovery_ok hr
  cases hres : recoveryResult p db₁ with
  | none => simp [hres] at h
  | some stored =>
    cases stored with
    | erased => simp [hres] at h
    | retire r => simp [hres] at h
    | lease r =>
      simp only [hres, Prod.mk.injEq, Option.some.injEq] at h
      obtain ⟨rfl, rfl⟩ := h
      refine ⟨heff, ?_⟩
      unfold recoveryResult at hres
      split at hres
      · obtain ⟨o, ho, hj⟩ := Option.map_eq_some_iff.mp hres
        obtain ⟨hmem, h1, h2, h3, -, h5, -⟩ := Table.find?_some ho
        rw [heff.others] at hmem
        exact ⟨o, hmem, h1, h2, h3, h5, hj⟩
      · cases hres

/-- The database after a recovery is the one after its batch. -/
theorem recovery_db (p : Snapshot) (clock : Nat → Int) (db : Db) :
    (recoverBoundDeviceLease p clock db).2 = (transact (boundRecovery p) clock db).2 := by
  unfold recoverBoundDeviceLease
  rcases transact (boundRecovery p) clock db with ⟨e | ns, db'⟩
  · rfl
  · dsimp only
    split <;> rfl

/-- A recovery writes no table but the challenges. -/
theorem recovery_writes_challenges (p : Snapshot) (clock : Nat → Int) (db : Db) :
    (recoverBoundDeviceLease p clock db).2 = { db with
      device_bound_challenges := (recoverBoundDeviceLease p clock db).2.device_bound_challenges } := by
  rw [recovery_db]
  rcases transact_cases (boundRecovery p) clock db with ⟨e, -, ht⟩ | ⟨ns, db', hr, ht⟩
  · rw [ht]
  · rw [ht]
    exact (boundRecovery_ok hr).others

/-- A recovery only consumes challenges. -/
theorem recovery_ages (p : Snapshot) (clock : Nat → Int) (db : Db) {c' : Challenge}
    (hc' : c' ∈ (recoverBoundDeviceLease p clock db).2.device_bound_challenges) :
    ∃ c ∈ db.device_bound_challenges, ChallengeAges c c' := by
  rw [recovery_db] at hc'
  rcases transact_cases (boundRecovery p) clock db with ⟨e, -, ht⟩ | ⟨ns, db', hr, ht⟩
  · rw [ht] at hc'
    exact ⟨c', hc', .refl c'⟩
  · rw [ht] at hc'
    obtain ⟨n, hu⟩ := (boundRecovery_ok hr).challenges
    exact forall₂_right (Table.forall₂_of_update hu (fun c _ _ => ChallengeAges.refl c)
      fun c _ _ => challenge_of_trigger) hc'

end Licensecc
