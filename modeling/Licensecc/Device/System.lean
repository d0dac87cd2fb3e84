-- The device system: every write that can reach the tables of the protected
-- devices, each as one batch or one statement of the database.
import Licensecc.Conc.World
import Licensecc.Device.Recover
import Licensecc.Device.Retire
import Licensecc.Device.Enroll

open Licensecc.Sql Licensecc.Conc

namespace Licensecc

/-! ## The writes -/

/-- An UPDATE of entitlements by any writer: no writer sets the key, and one
that does not set the limit leaves it as it is. -/
structure EntitlementUpdate where
  ofCapacity : Bool
  sel : Entitlement → Bool
  set : Entitlement → Entitlement
  keeps_key : ∀ e, (set e).toEntitlementKey = e.toEntitlementKey
  keeps_limit : ofCapacity = false → ∀ e, (set e).max_active_devices = e.max_active_devices

/-- A new entitlement: its writers let no limit be negative. -/
structure EntitlementInsert where
  row : Entitlement
  limit : 0 ≤ row.max_active_devices

/-- The statements of `bound_cleanup`. Each one picks at most a thousand rows
that have expired. -/
inductive Cleanup where
  | eraseApprovals (pick : Authorization → Bool)
  | purgeChallenges (pick : Challenge → Bool)
  | purgeAttempts (pick : Authorization → Bool)
  | expireResponses (pick : Operation → Bool)
  | purgeConsumed (pick : Authorization → Bool)
  | purgeLeases (pick : Lease → Bool)

/-- The writes that are no issue and no recovery. -/
inductive DeviceChange where
  | retire (p : Retirement)
  | deviceStatus (id : String) (status : DeviceStatus)
  | bindingState (sel : Binding → Bool) (state : BindingState)
  | customerStatus (id : String) (status : CustomerStatus)
  | customerInsert (row : Customer)
  | entitlements (u : EntitlementUpdate)
  | entitlementInsert (i : EntitlementInsert)
  | challenge (q : ChallengeRequest)
  | authorization (q : AuthorizationRequest)
  | approve (q : Approval)
  | deny (q : Denial)
  | cleanup (k : Cleanup)
  | wait

inductive DeviceWrite where
  | commit (p : Candidate)
  | recover (p : Snapshot)
  | change (c : DeviceChange)

inductive DeviceResult where
  | issued (response : LeaseResponse)
  | recovered (response : LeaseResponse)
  | retired (response : RetireResponse)
  | returning (row : Option Int)
  | written
  | failed

/-! ## Their statements -/

def Cleanup.stmt : Cleanup → Stmt Db
  | .eraseApprovals pick => fun now _ db =>
    stored (db.device_bound_authorizations.update now
      (fun a => pick a ∧ a.approval_ciphertext ≠ none ∧ ∃ t ∈ a.code_expires_at, t ≤ now)
      fun a => { a with approval_ciphertext := none })
      fun t => { db with device_bound_authorizations := t }
  | .purgeChallenges pick => fun now _ db =>
    stored (db.device_bound_challenges.delete fun c => pick c ∧ c.expires_at ≤ now)
      fun t => { db with device_bound_challenges := t }
  | .purgeAttempts pick => fun now _ db =>
    stored (db.device_bound_authorizations.delete fun a =>
      pick a ∧ a.expires_at ≤ now ∧ a.status ≠ .consumed)
      fun t => { db with device_bound_authorizations := t }
  | .expireResponses pick => fun now _ db =>
    stored (db.device_bound_operations.update now
      (fun o => pick o ∧ o.status = .complete ∧ o.retain_until ≤ now ∧ o.response_json ≠ .erased)
      fun o => { o with response_json := .erased })
      fun t => { db with device_bound_operations := t }
  | .purgeConsumed pick => fun now _ db =>
    stored (db.device_bound_authorizations.delete fun a =>
      pick a ∧ a.status = .consumed ∧ ∃ t ∈ a.recovery_until, t ≤ now)
      fun t => { db with device_bound_authorizations := t }
  | .purgeLeases pick => fun now _ db =>
    stored (db.device_bound_leases.delete fun l => pick l ∧ l.accept_until ≤ now)
      fun t => { db with device_bound_leases := t }

/-- The batch of a change. The id is the random id of a new challenge, the hash
of the random handle of a new attempt, or the invocation of a retirement or of a
denial. -/
def DeviceChange.batch (id : String) : DeviceChange → List (Stmt Db)
  | .retire p => boundRetire { p with invocationId := id }
  | .deviceStatus device status => [fun now _ db => db.updateDeviceStatus now device status]
  | .bindingState sel state => [fun now _ db =>
      stored (db.device_bound_bindings.update now (fun b => sel b) fun b => { b with state })
        fun t => { db with device_bound_bindings := t }]
  | .customerStatus customer status => [fun now _ db => db.updateCustomerStatus now customer status]
  | .customerInsert row => [fun _ _ db => inserted (do
      let customers ← db.customers.insert row
      return { db with customers })]
  | .entitlements u => [fun now _ db => db.updateEntitlements now u.ofCapacity (fun e => u.sel e) u.set]
  | .entitlementInsert i => [fun _ _ db => inserted (db.insertEntitlement i.row)]
  | .challenge q => [insertChallenge q id]
  | .authorization q => [insertAuthorization q id]
  | .approve q => [approveAttempt q]
  | .deny q => denyBatch { q with invocation := id }
  | .cleanup k => [k.stmt]
  | .wait => []

def DeviceResult.ofCommit : Except CommitError LeaseResponse → DeviceResult
  | .ok response => .issued response
  | .error _ => .failed

def DeviceResult.ofRecovery : Option LeaseResponse → DeviceResult
  | some response => .recovered response
  | none => .failed

/-- The last SELECT of `BOUND_RETIRE_SQL`. -/
def selectRetired (p : Retirement) (db : Db) : Option RetireResponse :=
  (db.device_bound_operations.find? fun o => RetireFresh p o ∧ o.status = .complete).bind
    fun o => match o.response_json with
      | .retire response => some response
      | _ => none

/-- What a batch that succeeds returns: the last row of a retirement, and the
column that a statement with RETURNING names. -/
def DeviceChange.row (id : String) (changes : List Nat) (db : Db) : DeviceChange → DeviceResult
  | .retire p => ((selectRetired { p with invocationId := id } db).map .retired).getD .written
  | .challenge _ => .returning ((db.device_bound_challenges.find? (·.id = id)).map (·.expires_at))
  | .authorization _ =>
    .returning ((db.device_bound_authorizations.find? (·.handle_hash = id)).map (·.expires_at))
  | .approve q => .returning (if changes = [0] then none else
      (db.device_bound_authorizations.find? (·.handle_hash = q.handleHash)).map (·.revision))
  | _ => .written

def DeviceChange.result (c : DeviceChange) (id : String) :
    Except Abort (List Nat) × Db → DeviceResult
  | (.ok changes, db) => c.row id changes db
  | (.error _, _) => .failed

/-- The effect of a write with what it learns from outside. -/
def DeviceWrite.apply (o : Oracle) : DeviceWrite → Db → DeviceResult × Db
  | .commit p, db =>
    (commitBoundDeviceLease { p with invocationId := o.id } o.clock db).map .ofCommit id
  | .recover p, db =>
    (recoverBoundDeviceLease { p with invocationId := o.id } o.clock db).map .ofRecovery id
  | .change c, db =>
    let r := transact (c.batch o.id) o.clock db
    (c.result o.id r, r.2)

abbrev DeviceWorld := World Db DeviceWrite DeviceResult

/-- The device system with a choice of programs. -/
abbrev deviceSystem {α : Type} (starts : Prog DeviceWorld DeviceWrite DeviceResult α → Prop) :=
  World.system DeviceWrite.apply starts

/-! ## What a write does -/

variable {o : Oracle} {db db' : Db}

/-- A batch of one statement that succeeds is that statement. -/
theorem runBatch_one {stmt : Stmt Db} {clock : Nat → Int} {ns : List Nat}
    (h : runBatch [stmt] clock 0 db = .ok (ns, db')) : ∃ n, stmt (clock 0) 0 db = .ok (n, db') := by
  obtain ⟨n, s, ms, h1, h2, -⟩ := runBatch_cons.mp h
  obtain ⟨-, rfl⟩ := runBatch_nil.mp h2
  exact ⟨n, h1⟩

/-- A relation on databases that does not see a failed write: it holds across
every write when it holds across every commit, every recovery and every change
that succeeds. -/
theorem apply_rel {R : Db → Db → Prop} (hrefl : ∀ db, R db db)
    (hfresh : ∀ o' ∈ db.device_bound_operations, o'.invocation_id ≠ o.id)
    (hcommit : ∀ p db', p.invocationId = o.id → CommitEffect p o.clock db db' → R db db')
    (hrecover : ∀ p : Snapshot, R db (recoverBoundDeviceLease p o.clock db).2)
    (hchange : ∀ (c : DeviceChange) ns db', runBatch (c.batch o.id) o.clock 0 db = .ok (ns, db') →
      R db db') (w : DeviceWrite) : R db (DeviceWrite.apply o w db).2 := by
  cases w with
  | commit p =>
    rcases commit_cases { p with invocationId := o.id } o.clock db hfresh with
      ⟨e, h⟩ | ⟨db', h, heff⟩
    · simp only [DeviceWrite.apply, h]
      exact hrefl db
    · simp only [DeviceWrite.apply, h]
      exact hcommit _ db' rfl heff
  | recover p => exact hrecover { p with invocationId := o.id }
  | change c => exact transact_rel hrefl (hchange c)

end Licensecc
