-- The issue of a lease. A run reads the rows that give its authority one
-- SELECT at a time, checks each of them, and ends with one batch: the commit
-- of a new lease, or the recovery of a stored one.
import Licensecc.Device.System

open Licensecc.Sql Licensecc.Conc

namespace Licensecc

/-! ## The request -/

structure Proof where
  key_id : String
  challenge_id : String
  nonce : String
  expires_at : Int
  signature : String
  deriving DecidableEq

/-- The part of a request that the device signs. -/
inductive Semantic where
  | exchange (attempt_handle code code_verifier redirect_uri operation_id : String)
  | renew (binding_id : String) (generation : Int) (operation_id : String)
  deriving DecidableEq

structure BoundRequest where
  semantic : Semantic
  proof : Proof
  deriving DecidableEq

def BoundRequest.purpose (r : BoundRequest) : Purpose :=
  match r.semantic with
  | .exchange .. => .exchange
  | .renew .. => .renew

def BoundRequest.operation_id (r : BoundRequest) : String :=
  match r.semantic with
  | .exchange _ _ _ _ operation_id => operation_id
  | .renew _ _ operation_id => operation_id

/-! ## What comes from outside -/

/-- The input of the device signature. -/
structure SignedInput where
  audience : String
  path : String
  key_id : String
  operation_id : String
  body_sha256 : String
  challenge_id : String
  nonce : String
  expires_at : Int

structure LeaseClaims where
  key_id : String
  issuer : String
  audience : String
  entitlement : EntitlementKey
  binding_id : String
  device_key_id : String
  generation : Int
  revocation_seq : Int
  lease_id : String
  operation_id : String
  issued_at : Int
  renew_after : Int
  expires_at : Int

structure BoundRequestError where
  code : String
  status : Nat
  deriving DecidableEq

/-- The hashes and signatures of the platform, and the configuration of the
deployment. -/
structure IssueEnv where
  boundSecretHash : String → String
  pkceHash : String → String
  bodyHash : Semantic → String
  requestDigest : String → Semantic → String
  verifyBoundDeviceProof : String → SignedInput → String → Bool
  signBoundDeviceLease : LeaseClaims → String
  signerKeyId : String
  issuer : String
  audience : String
  requestId : String
  /-- The error of `limitBoundVerified`, when it throws one. -/
  limitBoundVerified : Option BoundRequestError

/-- The ids that a run draws with `boundRandomId`. -/
structure IssueIds where
  device : String
  binding : String
  lease : String

/-- A run ends with an error of the protocol, or with an outcome that the
caller does not know. -/
inductive IssueError where
  | denied (error : BoundRequestError)
  | unknown
  deriving DecidableEq

abbrev Issue := ExceptT IssueError (Prog DeviceWorld DeviceWrite DeviceResult)

def deny {α : Type} (code : String) (status : Nat) : Issue α := throw (.denied ⟨code, status⟩)

/-- One SELECT. -/
def select {α : Type} (f : Db → Int → α) : Issue α :=
  ExceptT.lift (Prog.query fun w => f w.db w.now)

/-! ## The proof of the device -/

/-- The row that a request is about: the attempt of an exchange, or the binding
of a renewal with its device. -/
structure Subject where
  id : String
  key_id : String
  public_key_spki : String
  project : String
  customer_id : Option String
  feature : Option String
  license_fingerprint : Option String
  attempt : Option Authorization
  now : Int

def Subject.ofAttempt (a : Authorization) (now : Int) : Subject where
  id := a.handle_hash
  key_id := a.key_id
  public_key_spki := a.public_key_spki
  project := a.project
  customer_id := a.customer_id
  feature := a.feature
  license_fingerprint := a.license_fingerprint
  attempt := some a
  now := now

def Subject.ofBinding (b : Binding) (d : Device) (now : Int) : Subject where
  id := b.id
  key_id := d.key_id
  public_key_spki := d.public_key_spki
  project := b.project
  customer_id := some d.customer_id
  feature := some b.feature
  license_fingerprint := some b.license_fingerprint
  attempt := none
  now := now

structure Verified where
  subject : Subject
  challenge : Challenge
  nonceHash : String
  requestDigest : String

def selectAttempt (handle_hash : String) (db : Db) : Option Authorization :=
  db.device_bound_authorizations.find? (·.handle_hash = handle_hash)

/-- A binding with its device. -/
def selectBound (binding_id : String) (db : Db) : Option (Binding × Device) :=
  (db.device_bound_bindings.find? (·.id = binding_id)).bind fun b =>
    (db.device_bound_devices.find? (·.id = b.device_id)).map fun d => (b, d)

def proveSubject (k : IssueEnv) (semantic : Semantic) : Issue Subject :=
  match semantic with
  | .exchange attempt_handle .. => do
    match ← select fun db now => (selectAttempt (k.boundSecretHash attempt_handle) db, now) with
    | (some a, now) => return .ofAttempt a now
    | (none, _) => deny "authorization_unavailable" 404
  | .renew binding_id .. => do
    match ← select fun db now => (selectBound binding_id db, now) with
    | (some (b, d), now) => return .ofBinding b d now
    | (none, _) => deny "binding_unavailable" 404

/-- The challenge is the one that the request answers. -/
def challengeFits (request : BoundRequest) (subject : Subject) (nonceHash : String)
    (c : Challenge) : Prop :=
  c.subject_id = subject.id ∧ c.key_id = subject.key_id ∧ c.key_id = request.proof.key_id ∧
    c.purpose = request.purpose ∧ c.operation_id = request.operation_id ∧
    c.nonce_hash = nonceHash ∧ c.expires_at = request.proof.expires_at ∧
    c.consumed_invocation_id = none

instance (request : BoundRequest) (subject : Subject) (nonceHash : String) (c : Challenge) :
    Decidable (challengeFits request subject nonceHash c) :=
  inferInstanceAs (Decidable (_ ∧ _ ∧ _ ∧ _ ∧ _ ∧ _ ∧ _ ∧ _))

def signedInput (k : IssueEnv) (request : BoundRequest) (subject : Subject) (c : Challenge) :
    SignedInput where
  audience := k.audience
  path := if request.purpose = .exchange then "/v2/device-authorizations/exchange"
    else "/v2/device-leases/renew"
  key_id := subject.key_id
  operation_id := request.operation_id
  body_sha256 := k.bodyHash request.semantic
  challenge_id := c.id
  nonce := request.proof.nonce
  expires_at := c.expires_at

def prove (k : IssueEnv) (request : BoundRequest) : Issue Verified := do
  let subject ← proveSubject k request.semantic
  let (found, now) ← select fun db now =>
    (db.device_bound_challenges.find? (·.id = request.proof.challenge_id), now)
  let nonceHash := k.boundSecretHash request.proof.nonce
  match found with
  | none => deny "invalid_proof" 401
  | some challenge =>
    if ¬ challengeFits request subject nonceHash challenge then deny "invalid_proof" 401
    else if challenge.expires_at ≤ now then deny "challenge_expired" 410
    else if ¬ k.verifyBoundDeviceProof subject.public_key_spki (signedInput k request subject challenge)
        request.proof.signature then deny "invalid_proof" 401
    else return ⟨subject, challenge, nonceHash, k.requestDigest subject.key_id request.semantic⟩

/-! ## The authority -/

structure IssueAuthority where
  entitlement : Entitlement
  customer_revision : Int
  now : Int
  device : Option Device
  binding : Option Binding
  trial : TrialState

/-- The checks of an exchange on its attempt. -/
def attemptRefused (k : IssueEnv) (semantic : Semantic) (subject : Subject)
    (operation : Option Operation) : Option BoundRequestError :=
  match semantic, subject.attempt with
  | .exchange _ code code_verifier redirect_uri operation_id, some a =>
    if ¬ (a.status = .approved ∨ a.status = .consumed) then
      some ⟨"authorization_unavailable", 404⟩
    else if a.code_hash ≠ some (k.boundSecretHash code) ∨
        a.pkce_challenge ≠ k.pkceHash code_verifier ∨ a.redirect_uri ≠ redirect_uri then
      some ⟨"access_denied", 403⟩
    else
      match operation with
      | none =>
        if a.status ≠ .approved ∨ a.expires_at ≤ subject.now ∨
            ¬ (∃ t ∈ a.code_expires_at, subject.now < t) then
          some ⟨"authorization_expired", 410⟩
        else none
      | some o =>
        if a.status ≠ .consumed ∨ a.consumed_operation_id ≠ some operation_id ∨
            a.consumed_invocation_id ≠ some o.invocation_id then
          some ⟨"authorization_unavailable", 404⟩
        else none
  | _, _ => none

/-- The binding that a renewal or a replayed exchange names. -/
def boundId (semantic : Semantic) (operation : Option Operation) : Option String :=
  match operation, semantic with
  | some o, _ => some o.binding_id
  | none, .renew binding_id .. => some binding_id
  | none, .exchange .. => none

/-- The entitlement of the subject with the customer that owns it. -/
def selectEntitlement (subject : Subject) (db : Db) : Option (Entitlement × Customer) :=
  (db.entitlements.find? fun e => e.project = subject.project ∧ some e.feature = subject.feature ∧
    some e.license_fingerprint = subject.license_fingerprint ∧
    some e.customer_id = subject.customer_id).bind fun e =>
      (db.customers.find? (·.id = e.customer_id)).map fun c => (e, c)

/-- The entitlement and its customer are active, and the time is in its
dates. -/
def entitlementOpen (e : Entitlement) (c : Customer) (now : Int) : Prop :=
  e.status = .active ∧ c.status = .active ∧ (∀ t ∈ e.valid_from, t ≤ now) ∧
    ∀ t ∈ e.valid_until, now < t

instance (e : Entitlement) (c : Customer) (now : Int) : Decidable (entitlementOpen e c now) :=
  inferInstanceAs (Decidable (_ ∧ _ ∧ _ ∧ _))

/-- The checks on a device that the key has. -/
def deviceRefused (subject : Subject) (d : Device) : Option BoundRequestError :=
  if some d.customer_id ≠ subject.customer_id ∨ d.project ≠ subject.project then
    some ⟨"access_denied", 403⟩
  else if d.status ≠ .active then some ⟨"device_retired", 403⟩
  else if d.public_key_spki ≠ subject.public_key_spki then some ⟨"invalid_proof", 401⟩
  else none

/-- The row has the key of the subject. -/
def sameEntitlement (subject : Subject) (b : Binding) : Prop :=
  b.project = subject.project ∧ some b.feature = subject.feature ∧
    some b.license_fingerprint = subject.license_fingerprint

instance (subject : Subject) (b : Binding) : Decidable (sameEntitlement subject b) :=
  inferInstanceAs (Decidable (_ ∧ _ ∧ _))

/-- The checks on a binding that was found. -/
def bindingRefused (subject : Subject) (device : Option Device) (b : Binding) :
    Option BoundRequestError :=
  if device.map (·.id) ≠ some b.device_id ∨ ¬ sameEntitlement subject b then
    some ⟨"access_denied", 403⟩
  else if b.state ≠ .active then some ⟨"device_retired", 403⟩
  else none

/-- The binding that the run uses: the named one, or the active binding of the
device. -/
def selectBinding (subject : Subject) (named : Option String) (device : Option Device) (db : Db) :
    Option Binding :=
  match named, device with
  | some id, _ => db.device_bound_bindings.find? (·.id = id)
  | none, some d => db.device_bound_bindings.find? fun b =>
      b.device_id = d.id ∧ sameEntitlement subject b ∧ b.state = .active
  | none, none => none

/-- The slots in use of the entitlement of the subject. -/
def selectOccupied (subject : Subject) (db : Db) (now : Int) : Nat :=
  db.device_bound_bindings.count fun b => sameEntitlement subject b ∧ b.boundOccupied now

/-- An active binding of the key to the entitlement of the subject. -/
def selectCreated (subject : Subject) (db : Db) : Prop :=
  ∃ b ∈ db.device_bound_bindings, (∃ d ∈ db.device_bound_devices, d.id = b.device_id ∧
    d.key_id = subject.key_id) ∧ sameEntitlement subject b ∧ b.state = .active

instance (subject : Subject) (db : Db) : Decidable (selectCreated subject db) :=
  inferInstanceAs (Decidable (∃ _ ∈ _, (∃ _ ∈ _, _) ∧ _ ∧ _))

/-- The error of a check, when it has one. -/
def refuse : Option BoundRequestError → Issue Unit
  | some e => throw (.denied e)
  | none => return ()

/-- The test of the named binding before any other row is read. A retired
binding learns only that it is retired. -/
def checkBound (named : Option String) : Issue Unit :=
  match named with
  | none => return ()
  | some id => do
    match ← select fun db _ => selectBound id db with
    | some (b, d) =>
      if b.state ≠ .active ∨ d.status ≠ .active then deny "device_retired" 403
    | none => return ()

/-- The test of the capacity for a new binding. The row that records the
refusal is no part of the model. -/
def checkCapacity (subject : Subject) (e : Entitlement) : Issue Unit := do
  let occupied ← select fun db now => selectOccupied subject db now
  if e.max_active_devices ≤ occupied then
    let created ← select fun db _ => decide (selectCreated subject db)
    if created then deny "temporarily_unavailable" 503
    else deny "device_limit_reached" 409

/-- A first exchange, which is the only request that can start a trial. -/
def startsTrial (semantic : Semantic) (operation : Option Operation) : Bool :=
  match semantic with
  | .exchange .. => operation.isNone
  | .renew .. => false

/-- The check of a renewal on the generation of its binding. -/
def generationRefused (semantic : Semantic) (b : Binding) : Option BoundRequestError :=
  match semantic with
  | .renew _ generation _ =>
    if b.generation ≠ generation then some ⟨"revision_conflict", 409⟩ else none
  | .exchange .. => none

def authority (k : IssueEnv) (semantic : Semantic) (subject : Subject)
    (operation : Option Operation) : Issue IssueAuthority := do
  refuse (attemptRefused k semantic subject operation)
  let named := boundId semantic operation
  checkBound named
  match ← select fun db now => (selectEntitlement subject db, now) with
  | (none, _) => deny "access_denied" 403
  | (some (e, c), now) =>
    if ¬ entitlementOpen e c now then deny "access_denied" 403
    else
      match boundTrialState e subject.key_id now (startsTrial semantic operation) with
      | none => deny "access_denied" 403
      | some trial =>
        if trial.stamp ≠ 0 ∧ maxSafeInteger ≤ e.authority_revision then deny "access_denied" 403
        else do
          let device ← select fun db _ =>
            db.device_bound_devices.find? (·.key_id = subject.key_id)
          refuse (device.bind (deviceRefused subject))
          let binding ← select fun db _ => selectBinding subject named device db
          refuse (binding.bind (bindingRefused subject device))
          if named ≠ none ∧ (binding = none ∨ device = none) then deny "binding_unavailable" 404
          else do
            match binding with
            | some b => refuse (generationRefused semantic b)
            | none => checkCapacity subject e
            return ⟨e, c.authority_revision, now, device, binding, trial⟩

/-! ## The candidate -/

def Verified.snapshot (v : Verified) (request : BoundRequest) (a : IssueAuthority)
    (ids : IssueIds) : Snapshot where
  purpose := request.purpose
  keyId := v.subject.key_id
  operationId := request.operation_id
  requestDigest := v.requestDigest
  customerId := a.entitlement.customer_id
  customerRevision := a.customer_revision
  project := a.entitlement.project
  feature := a.entitlement.feature
  fingerprint := a.entitlement.license_fingerprint
  entitlementRevision := a.entitlement.authority_revision
  trialStamp := a.trial.stamp
  deviceId := (a.device.map (·.id)).getD ids.device
  deviceRevision := (a.device.map (·.revision)).getD 0
  publicKeySpki := v.subject.public_key_spki
  deviceLabel := ((v.subject.attempt.map (·.device_label)).orElse fun _ =>
    a.device.map (·.label)).getD ""
  bindingId := (a.binding.map (·.id)).getD ids.binding
  bindingRevision := (a.binding.map (·.revision)).getD 0
  generation := (a.binding.map (·.generation)).getD 1
  challengeId := v.challenge.id
  challengeExpiresAt := v.challenge.expires_at
  nonceHash := v.nonceHash
  subjectId := v.subject.id
  attemptRevision := v.subject.attempt.map (·.revision)
  codeHash := v.subject.attempt.bind (·.code_hash)
  pkceChallenge := v.subject.attempt.map (·.pkce_challenge)
  redirectUri := v.subject.attempt.map (·.redirect_uri)

/-- The end of the authority of an entitlement, as the lease window reads
it. -/
def authorityUntil (a : IssueAuthority) : Int :=
  min (min (a.entitlement.valid_until.getD maxSafeInteger) (a.trial.expiresAt.getD maxSafeInteger))
    (if 0 < a.entitlement.lease_seconds then a.now + a.entitlement.lease_seconds
      else maxSafeInteger)

def leaseClaims (k : IssueEnv) (p : Snapshot) (e : Entitlement) (w : LeaseWindow)
    (leaseId : String) : LeaseClaims where
  key_id := k.signerKeyId
  issuer := k.issuer
  audience := k.audience
  entitlement := e.toEntitlementKey
  binding_id := p.bindingId
  device_key_id := p.keyId
  generation := p.generation
  revocation_seq := e.revocation_seq
  lease_id := leaseId
  operation_id := p.operationId
  issued_at := w.issuedAt
  renew_after := w.renewAfter
  expires_at := w.expiresAt

def leaseResponse (k : IssueEnv) (p : Snapshot) (e : Entitlement) (w : LeaseWindow)
    (token : String) : LeaseResponse where
  code := if p.purpose = .exchange then "device_activated" else "device_renewed"
  request_id := k.requestId
  device_id := p.deviceId
  binding_id := p.bindingId
  generation := p.generation
  entitlement := e.toEntitlementKey
  lease := token
  renew_after := w.renewAfter
  expires_at := w.expiresAt
  accept_until := w.acceptUntil

/-- The signed candidate of a window. -/
def Snapshot.candidate (p : Snapshot) (k : IssueEnv) (e : Entitlement) (w : LeaseWindow)
    (leaseId : String) : Candidate where
  toSnapshot := p
  leaseId := leaseId
  issuedAt := w.issuedAt
  expiresAt := w.expiresAt
  acceptUntil := w.acceptUntil
  token := k.signBoundDeviceLease (leaseClaims k p e w leaseId)
  responseJson := leaseResponse k p e w (k.signBoundDeviceLease (leaseClaims k p e w leaseId))

/-! ## The run -/

def selectOperation (keyId : String) (request : BoundRequest) (db : Db) : Option Operation :=
  db.device_bound_operations.find? fun o => o.key_id = keyId ∧ o.purpose = request.purpose ∧
    o.operation_id = request.operation_id

/-- The checks on a stored operation. -/
def operationRefused (requestDigest : String) (now : Int) (o : Operation) :
    Option BoundRequestError :=
  if o.request_digest ≠ requestDigest then some ⟨"idempotency_conflict", 409⟩
  else if o.status ≠ .complete ∨ o.response_json = .erased ∨ o.retain_until ≤ now then
    some ⟨"idempotency_conflict", 409⟩
  else none

/-- The subject of a run that found its operation: an exchange reads its
attempt again. -/
def currentSubject (v : Verified) (operation : Option Operation) : Issue Verified :=
  match operation, v.subject.attempt with
  | some _, some _ => do
    let current ← select fun db now => (db.device_bound_authorizations.find? (fun a =>
      a.handle_hash = v.subject.id ∧ a.key_id = v.subject.key_id ∧
        a.public_key_spki = v.subject.public_key_spki)).map fun a => Subject.ofAttempt a now
    match current with
    | some subject => return { v with subject }
    | none => deny "temporarily_unavailable" 503
  | _, _ => return v

/-- The errors that a commit between two reads of the run can cause. -/
def competing : IssueError → Prop
  | .denied e => e.code ∈ ["authorization_expired", "authorization_unavailable",
      "device_limit_reached", "binding_unavailable"]
  | .unknown => False

instance (e : IssueError) : Decidable (competing e) := by
  cases e <;> unfold competing <;> infer_instance

/-- The authority of a run. A denial that a competing commit can have caused
is no denial when the operation is there by now. -/
def currentAuthority (k : IssueEnv) (request : BoundRequest) (v : Verified)
    (operation : Option Operation) : Issue IssueAuthority :=
  tryCatch (authority k request.semantic v.subject operation) fun error => do
    if operation = none ∧ competing error then
      let committed ← select fun db _ => (selectOperation v.subject.key_id request db).isSome
      if committed then deny "temporarily_unavailable" 503
    throw error

/-- A write whose answer is the response. Any other outcome is unknown to the
caller. -/
def respond (w : DeviceWrite) : Issue LeaseResponse := do
  match ← ExceptT.lift (Prog.request w) with
  | some (.issued response) => return response
  | some (.recovered response) => return response
  | _ => throw .unknown

/-- `issueBoundLease` on a request that has its form. -/
def issueBoundLease (k : IssueEnv) (request : BoundRequest) (ids : IssueIds) :
    Issue LeaseResponse := do
  let v ← prove k request
  let (operation, now) ← select fun db now => (selectOperation v.subject.key_id request db, now)
  refuse (operation.bind (operationRefused v.requestDigest now))
  let v ← currentSubject v operation
  let a ← currentAuthority k request v operation
  let p := v.snapshot request a ids
  match operation with
  | some _ => respond (.recover p)
  | none =>
    refuse k.limitBoundVerified
    match deviceLeaseWindow a.now (authorityUntil a) with
    | none => deny "access_denied" 403
    | some w => respond (.commit (p.candidate k a.entitlement w ids.lease))

/-! ## A request -/

def exampleEnv : IssueEnv where
  boundSecretHash := id
  pkceHash := id
  bodyHash _ := "body"
  requestDigest _ _ := "dg"
  verifyBoundDeviceProof _ _ _ := true
  signBoundDeviceLease _ := "t"
  signerKeyId := "signer"
  issuer := "issuer"
  audience := "audience"
  requestId := "q"
  limitBoundVerified := none

def exampleRequest : BoundRequest where
  semantic := .exchange "h" "c" "x" "r" "op"
  proof := ⟨"k", "ch", "n", 300, "sig"⟩

end Licensecc
