-- The batch of a plan apply. The first statement claims the preview, and
-- every later statement writes only while the claim is held. Each write of a
-- grant is followed by its audit row and by an assertion that stops the batch.
import Licensecc.Grants.Sequence
import Mathlib.Data.List.Sort

open Licensecc.Sql

namespace Licensecc.Projection

/-- What one call of `applyPlanProjection` binds to its statements. The scope
is the one of its idempotency key. -/
structure ApplyRun where
  previewId : String
  claimToken : String
  ctx : MutationContext
  scope : Option String
  now : Int

/-! ## Reads of a preview -/

/-- The rows of `managedEntitlementsStatement`. -/
def managedEntitlements (input : ProjectionInput) (s : Store) : List Entitlement :=
  (s.entitlements.rows.filter fun e => e.project = input.project ∧
    e.license_id = some input.license_id ∧ e.license_fingerprint = input.license_fingerprint ∧
    ∃ f ∈ s.catalog_features, f.project = e.project ∧ f.feature_key = e.feature).insertionSort
      fun a b => a.feature ≤ b.feature

/-- `existingRows` of a snapshot. -/
def existingRows (input : ProjectionInput) (s : Store) : List EntitlementRecord :=
  (managedEntitlements input s).map withId

/-! ## The claim -/

section
variable (r : ApplyRun) (s : Store)

/-- `claimGuardSql`. -/
def Claimed : Prop :=
  ∃ p ∈ s.license_plan_projection_previews,
    p.id = r.previewId ∧ p.claim_token = some r.claimToken ∧ p.consumed_at = none

instance : Decidable (Claimed r s) := inferInstanceAs (Decidable (∃ _ ∈ _, _))

/-- `licenseFingerprintConflictSql`. -/
def LicenseFingerprintConflict (p : ProjectionPreviewRow) : Prop :=
  let target := p.actions_json.assignment
  (∃ a ∈ s.license_plan_assignments, a.license_id = target.license_id ∧ a.project = target.project ∧
    a.license_fingerprint ≠ target.license_fingerprint) ∨
  ∃ e ∈ s.entitlements, e.project = target.project ∧ e.license_id = some target.license_id ∧
    e.license_fingerprint ≠ target.license_fingerprint

/-- `assignmentSnapshotStillMatchesSql`: the snapshot has every column of the
row. -/
def AssignmentSnapshotStillMatches (p : ProjectionPreviewRow) : Prop :=
  match p.actions_json.assignment_snapshot with
  | none => ¬ ∃ a ∈ s.license_plan_assignments,
      a.license_id = p.actions_json.assignment.license_id ∧
        a.project = p.actions_json.assignment.project
  | some snapshot => snapshot ∈ s.license_plan_assignments

/-- `derivedGrantExpiredSql`. -/
def DerivedGrantExpired (now : Int) (p : ProjectionPreviewRow) : Prop :=
  ∃ d ∈ p.projection_json.desired, d.valid_until.any (· ≤ now) = true

instance (p : ProjectionPreviewRow) : Decidable (LicenseFingerprintConflict s p) :=
  inferInstanceAs (Decidable ((∃ _ ∈ _, _) ∨ ∃ _ ∈ _, _))

instance (p : ProjectionPreviewRow) : Decidable (AssignmentSnapshotStillMatches s p) := by
  unfold AssignmentSnapshotStillMatches
  cases p.actions_json.assignment_snapshot with
  | none => exact inferInstanceAs (Decidable (¬ ∃ _ ∈ _, _))
  | some snapshot => exact inferInstanceAs (Decidable (snapshot ∈ s.license_plan_assignments))

instance (now : Int) (p : ProjectionPreviewRow) : Decidable (DerivedGrantExpired now p) :=
  inferInstanceAs (Decidable (∃ d ∈ p.projection_json.desired, _))

/-- The condition of `claimStatement`. -/
def Claimable (p : ProjectionPreviewRow) : Prop :=
  p.id = r.previewId ∧ p.actor_subject = r.ctx.actor.subject ∧ p.claim_token = none ∧
    p.consumed_at = none ∧ p.expires_at > r.now ∧ p.source_generation = s.generation ∧
    ¬ LicenseFingerprintConflict s p ∧ AssignmentSnapshotStillMatches s p ∧
    ¬ DerivedGrantExpired r.now p

instance : DecidablePred (Claimable r s) := fun p =>
  inferInstanceAs (Decidable (_ ∧ _ ∧ _ ∧ _ ∧ _ ∧ _ ∧ ¬ LicenseFingerprintConflict s p ∧
    AssignmentSnapshotStillMatches s p ∧ ¬ DerivedGrantExpired r.now p))

end

def onPreviews (x : Except Abort (Nat × Table ProjectionPreviewRow)) (s : Store) :
    Except Abort (Nat × Store) :=
  stored x fun license_plan_projection_previews => { s with license_plan_projection_previews }

def claimStatement (r : ApplyRun) : Stmt Store := fun time _ s =>
  onPreviews (s.license_plan_projection_previews.update time (Claimable r s) fun p =>
    { p with claim_token := some r.claimToken, claimed_at := some r.now }) s

/-- The row of `claimFailureStatement`. -/
def claimFailure (r : ApplyRun) (s : Store) : String :=
  if ∃ p ∈ s.license_plan_projection_previews, p.id = r.previewId ∧
      p.actor_subject = r.ctx.actor.subject ∧ LicenseFingerprintConflict s p then
    "license_fingerprint_conflict"
  else if ∃ p ∈ s.license_plan_projection_previews, p.id = r.previewId ∧
      p.actor_subject = r.ctx.actor.subject ∧ DerivedGrantExpired r.now p then
    "projection_preview_grant_expired"
  else "stale_projection_preview"

/-! ## The writes of a grant -/

/-- The columns that a plan apply sets. -/
def setDesired (v : DesiredValues) (e : Entitlement) : Entitlement :=
  { e with
    status := v.status
    valid_from := v.valid_from
    valid_until := v.valid_until
    notes := v.notes
    customer_id := v.customer_id
    license_id := v.license_id
    policy_id := v.policy_id
    max_active_devices := v.max_active_devices
    is_trial := v.is_trial
    trial_expiration_basis := v.trial_expiration_basis
    trial_duration_sec := v.trial_duration_sec
    trial_one_per_device := v.trial_one_per_device }

def createEntitlementStatement (r : ApplyRun) (v : DesiredValues) : Stmt Store := fun _ _ s =>
  if Claimed r s then
    let row : Entitlement := {
      toEntitlementKey := v.toEntitlementKey
      status := v.status
      revocation_seq := createSeq s.entitlement_events v.toEntitlementKey
      customer_id := v.customer_id
      created_at := r.now
      updated_at := r.now }
    Store.onDb (inserted (s.insertEntitlement (setDesired v row))) s
  else .ok (0, s)

def updateEntitlementStatement (r : ApplyRun) (v : DesiredValues) : Stmt Store := fun time _ s =>
  Store.onDb (s.updateEntitlements time true
    (fun e => e.toEntitlementKey = v.toEntitlementKey ∧ Claimed r s)
    fun e => { setDesired v e with
      revocation_seq := bumpSeq s.entitlement_events e
      updated_at := r.now }) s

def disableEntitlementStatement (r : ApplyRun) (key : EntitlementKey) : Stmt Store := fun time _ s =>
  Store.onDb (s.updateEntitlements time false
    (fun e => e.toEntitlementKey = key ∧ Claimed r s)
    fun e => { e with
      status := .disabled
      revocation_seq := bumpSeq s.entitlement_events e
      updated_at := r.now }) s

/-- What an action leaves in its row: the values of a desired grant, or the
status of a disabled one. -/
def Expected (v : Option DesiredValues) (e : Entitlement) : Prop :=
  match v with
  | some v => DesiredSatisfied v e
  | none => e.status = .disabled

instance (v : Option DesiredValues) : DecidablePred (Expected v) := fun e => by
  unfold Expected
  cases v with
  | none => exact inferInstanceAs (Decidable (e.status = .disabled))
  | some v => exact inferInstanceAs (Decidable (DesiredSatisfied v e))

/-- One action of an apply, as its audit row and its assertion read it. -/
structure GrantAction where
  key : EntitlementKey
  id : List Char
  event_type : EventType
  reason : String
  previous : Option EntitlementRecord
  values : Option DesiredValues

def entitlementAuditStatement (r : ApplyRun) (a : GrantAction) : Stmt Store := fun _ _ s =>
  match s.entitlements.find? (fun e => e.toEntitlementKey = a.key ∧ Expected a.values e) with
  | none => .ok (0, s)
  | some e =>
    if Claimed r s then
      let event : EntitlementEvent := {
        toEntitlementKey := e.toEntitlementKey
        event_type := a.event_type
        status := e.status
        revocation_seq := e.revocation_seq
        detail := a.reason
        actor := r.ctx.actor.name
        actor_type := r.ctx.actor.actorType
        source := r.ctx.source
        request_id := r.ctx.requestId
        ip := r.ctx.ip
        prev_json := a.previous
        next_json := .record { withId e with id := a.id }
        reason := a.reason
        idempotency_key := r.ctx.idempotencyKey
        created_at := r.now }
      .ok (1, { s with entitlement_events := event :: s.entitlement_events })
    else .ok (0, s)

/-- The row of the action is as the action says. -/
def Applied (a : GrantAction) (s : Store) : Prop :=
  ∃ e ∈ s.entitlements, e.toEntitlementKey = a.key ∧ Expected a.values e

instance (a : GrantAction) (s : Store) : Decidable (Applied a s) :=
  inferInstanceAs (Decidable (∃ _ ∈ _, _))

def actionAssertionStatement (r : ApplyRun) (a : GrantAction) : Stmt Store :=
  asserts fun s => ¬ Claimed r s ∨ Applied a s

def createGrant (a : CreateAction) (v : DesiredValues) : GrantAction :=
  ⟨v.toEntitlementKey, a.id, .create, "plan_projection", none, some v⟩

def updateGrant (a : UpdateAction) (v : DesiredValues) : GrantAction :=
  ⟨v.toEntitlementKey, a.id, .update, "plan_projection", some a.previous, some v⟩

def disableGrant (a : DisableAction) : GrantAction :=
  ⟨a.previous.toEntitlementKey, a.id, .disable, "plan_projection_removed", some a.previous, none⟩

/-! ## The assignment -/

/-- `assignmentSatisfiedSql` on the row of the license. -/
def AssignmentSatisfied (target : PlanAssignment) (a : Assignment) : Prop :=
  a.license_id = target.license_id ∧ a.project = target.project ∧ a.plan_id = target.plan_id ∧
    a.license_fingerprint = target.license_fingerprint ∧ a.customer_id = target.customer_id ∧
    a.status = .active ∧ a.support_until = target.support_until ∧ a.addons_json = target.addons

instance (target : PlanAssignment) : DecidablePred (AssignmentSatisfied target) :=
  fun _ => inferInstanceAs (Decidable (_ ∧ _))

def onAssignments (x : Except Abort (Nat × Table Assignment)) (s : Store) :
    Except Abort (Nat × Store) :=
  counted x fun n license_plan_assignments =>
    { s with license_plan_assignments, generation := s.generation + n }

def assignmentStatement (r : ApplyRun) (target : PlanAssignment) : Stmt Store := fun time _ s =>
  if Claimed r s then
    if ∃ a ∈ s.license_plan_assignments, a.license_id = target.license_id ∧ a.project = target.project then
      onAssignments (s.license_plan_assignments.update time
        (fun a => a.license_id = target.license_id ∧ a.project = target.project)
        fun a => { a with
          plan_id := target.plan_id
          license_fingerprint := target.license_fingerprint
          customer_id := target.customer_id
          status := .active
          support_until := target.support_until
          addons_json := target.addons
          updated_at := r.now }) s
    else
      onAssignments (inserted (s.license_plan_assignments.insert {
        license_id := target.license_id
        project := target.project
        plan_id := target.plan_id
        license_fingerprint := target.license_fingerprint
        customer_id := target.customer_id
        support_until := target.support_until
        addons_json := target.addons
        created_at := r.now
        updated_at := r.now })) s
  else .ok (0, s)

def assignmentAssertionStatement (r : ApplyRun) (target : PlanAssignment) : Stmt Store :=
  asserts fun s => ¬ Claimed r s ∨ ∃ a ∈ s.license_plan_assignments, AssignmentSatisfied target a

/-- The audit row of an assignment. -/
def assignmentEvent (r : ApplyRun) (previous : Option Assignment) (a : Assignment) :
    AssignmentEvent where
  license_id := a.license_id
  project := a.project
  plan_id := a.plan_id
  license_fingerprint := a.license_fingerprint
  isCreate := previous.isNone
  actor := r.ctx.actor.name
  actor_type := r.ctx.actor.actorType
  source := r.ctx.source
  request_id := r.ctx.requestId
  prev_json := previous
  next_json := a
  reason := "plan_projection"
  idempotency_key := r.ctx.idempotencyKey
  created_at := r.now

def assignmentAuditStatement (r : ApplyRun) (target : PlanAssignment) (previous : Option Assignment) :
    Stmt Store := fun _ _ s =>
  match s.license_plan_assignments.find? (AssignmentSatisfied target) with
  | none => .ok (0, s)
  | some a =>
    if Claimed r s then
      .ok (1, { s with
        license_plan_assignment_events :=
          assignmentEvent r previous a :: s.license_plan_assignment_events })
    else .ok (0, s)

def assignmentAuditAssertionStatement (r : ApplyRun) (target : PlanAssignment)
    (previous : Option Assignment) : Stmt Store :=
  asserts fun s => ¬ Claimed r s ∨ ∃ a ∈ s.license_plan_assignments, AssignmentSatisfied target a ∧
    assignmentEvent r previous a ∈ s.license_plan_assignment_events

/-! ## The response -/

/-- One list of `appliedRowsJsonSql`, for the ids and the keys of its actions. -/
def appliedRows (actions : List (List Char × EntitlementKey)) (s : Store) :
    List EntitlementRecord :=
  actions.filterMap fun a => (s.entitlement a.2).map fun e => { withId e with id := a.1 }

def appliedResponse (r : ApplyRun) (p : ProjectionPreviewRow) (s : Store) : ProjectionResponse where
  code := "license_plan_projection_applied"
  request_id := r.ctx.requestId
  data := p.projection_json
  applied := {
    created := appliedRows
      (p.actions_json.created.map fun a => (a.id, a.desired.input.toEntitlementKey)) s
    updated := appliedRows
      (p.actions_json.updated.map fun a => (a.id, a.desired.input.toEntitlementKey)) s
    disabled := appliedRows
      (p.actions_json.disabled.map fun a => (a.id, a.previous.toEntitlementKey)) s
    assignment := s.license_plan_assignments.find? fun a =>
      a.license_id = p.actions_json.assignment.license_id ∧
        a.project = p.actions_json.assignment.project }

/-- The row that the claim holds. -/
def Holds (r : ApplyRun) (p : ProjectionPreviewRow) : Prop :=
  p.id = r.previewId ∧ p.claim_token = some r.claimToken ∧ p.consumed_at = none

instance (r : ApplyRun) : DecidablePred (Holds r) := fun _ => inferInstanceAs (Decidable (_ ∧ _))

def responseStatement (r : ApplyRun) : Stmt Store := fun time _ s =>
  onPreviews (s.license_plan_projection_previews.update time (Holds r) fun p =>
    { p with applied_response_json := some (appliedResponse r p s) }) s

/-- The response of the row that the claim holds. -/
def heldResponse (r : ApplyRun) (s : Store) : Option ProjectionResponse :=
  (s.license_plan_projection_previews.find? (Holds r)).bind (·.applied_response_json)

/-- `idempotencyStatement` and `idempotencyAssertionStatement`, of a call that
has a key. -/
def idempotencyStatements (r : ApplyRun) : List (Stmt Store) :=
  match r.scope, r.ctx.idempotencyKey with
  | some scope, some key =>
    [Store.remember scope key (fun s => (heldResponse r s).map .projection) r.now,
      asserts fun s => ¬ Claimed r s ∨ ∃ i ∈ s.responses, i.scope = scope ∧
        i.idempotency_key = key ∧ some i.response_json = (heldResponse r s).map .projection]
  | _, _ => []

def consumeStatement (r : ApplyRun) : Stmt Store := fun time _ s =>
  onPreviews (s.license_plan_projection_previews.update time
    (fun p => Holds r p ∧ p.applied_response_json ≠ none) fun p =>
    { p with consumed_at := some r.now }) s

/-- The row of `finalResponseStatement`: a preview that the claim consumed at
this time. -/
def finalResponse (r : ApplyRun) (s : Store) : Option ProjectionResponse :=
  (s.license_plan_projection_previews.find? fun p => p.id = r.previewId ∧
    p.claim_token = some r.claimToken ∧ p.consumed_at = some r.now ∧
    p.applied_response_json ≠ none).bind (·.applied_response_json)

/-- `finalResponseStatement`, which stops the batch of a claim that it cannot
show. -/
def finalResponseStatement (r : ApplyRun) : Stmt Store :=
  asserts fun s => finalResponse r s ≠ none ∨
    ¬ ∃ p ∈ s.license_plan_projection_previews, p.id = r.previewId ∧
      p.claim_token = some r.claimToken

/-! ## The batch -/

/-- An action with the statement that writes its row. -/
structure GrantBlock where
  write : Stmt Store
  action : GrantAction

def createBlock (r : ApplyRun) (a : CreateAction) : Except String GrantBlock := do
  let v ← valuesForDesired a.desired
  return ⟨createEntitlementStatement r v, createGrant a v⟩

def updateBlock (r : ApplyRun) (a : UpdateAction) : Except String GrantBlock := do
  let v ← valuesForDesired a.desired
  return ⟨updateEntitlementStatement r v, updateGrant a v⟩

def disableBlock (r : ApplyRun) (a : DisableAction) : GrantBlock :=
  ⟨disableEntitlementStatement r a.previous.toEntitlementKey, disableGrant a⟩

/-- The actions in the order of the batch. -/
def grantBlocks (r : ApplyRun) (actions : PlanActions) : Except String (List GrantBlock) := do
  let created ← actions.created.mapM (createBlock r)
  let updated ← actions.updated.mapM (updateBlock r)
  return created ++ updated ++ actions.disabled.map (disableBlock r)

/-- The three statements of an action. -/
def GrantBlock.statements (r : ApplyRun) (b : GrantBlock) : List (Stmt Store) :=
  [b.write, entitlementAuditStatement r b.action, actionAssertionStatement r b.action]

/-- The statements after those of the actions. -/
def closingStatements (r : ApplyRun) (target : PlanAssignment) (previous : Option Assignment) :
    List (Stmt Store) :=
  [assignmentStatement r target, assignmentAssertionStatement r target,
    assignmentAuditStatement r target previous, assignmentAuditAssertionStatement r target previous,
    responseStatement r] ++
  idempotencyStatements r ++ [consumeStatement r, finalResponseStatement r]

/-- The batch of `applyPlanProjection`. -/
def projectionBatch (r : ApplyRun) (actions : ProjectionActions) :
    Except String (List (Stmt Store)) := do
  let blocks ← grantBlocks r actions.toPlanActions
  return [claimStatement r, selects] ++ (blocks.map (GrantBlock.statements r)).flatten ++
    closingStatements r actions.assignment actions.assignment_snapshot

/-- `actions?.projection_snapshot_version !== PROJECTION_SNAPSHOT_VERSION`, of
`storedPreview`. -/
def projectionSnapshotVersion : Int := 3

/-- `storedPreview`. -/
def storedPreview (previewId : String) (s : Store) : Except String ProjectionPreviewRow :=
  match s.license_plan_projection_previews.find? (·.id = previewId) with
  | none => throw "stale_projection_preview"
  | some p =>
    if p.actions_json.projection_snapshot_version = projectionSnapshotVersion then return p
    else throw "stale_projection_preview"

/-- The refusal of a preview with a blocked grant. -/
def checkBlocked (p : ProjectionPreview) : Except String Unit :=
  if p.blocked = [] then return ()
  else if p.blocked.any (·.reason == some "owner_required") then throw "invalid_patch"
  else throw "projection_blocked_revoked_entitlement"

end Licensecc.Projection
