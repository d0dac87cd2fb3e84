-- The batches of a catalog import. A preview keeps the effects that it derived
-- from one snapshot, and an apply claims the preview in its first statement
-- and then writes each effect, its audit row and the response.
import Licensecc.Schema.Store

open Licensecc.Sql

namespace Licensecc.Catalog

/-! ## The snapshot -/

/-- The keys of `importFeatureReferences`. -/
def importFeatureReferences (m : CatalogManifest) : List (String × String) :=
  m.plans.flatMap fun p => p.features.map fun f => (f.project, f.feature_key)

/-- `importPolicyIds`. -/
def importPolicyIds (m : CatalogManifest) : List String :=
  m.plans.flatMap fun p => p.features.filterMap (·.policy_id)

/-- `buildSnapshot`. -/
def buildSnapshot (m : CatalogManifest) (s : Store) : ImportSnapshot where
  sourceGeneration := s.generation
  features := s.catalog_features.rows.filter fun f =>
    (f.project, f.feature_key) ∈ m.features.map (·.key)
  plans := s.catalog_plans.rows.filter fun p =>
    (p.project, p.plan_key) ∈ m.plans.map (·.toCatalogPlanInput.key)
  planFeatures := s.catalog_plan_features.rows.filter fun f =>
    ∃ p ∈ s.catalog_plans, p.project = f.project ∧ p.id = f.plan_id ∧
      ∃ w ∈ m.plans, w.project = p.project ∧ w.plan_key = p.plan_key ∧
        f.feature_key ∈ w.features.map (·.feature_key)
  referencedFeatures := (s.catalog_features.rows.map fun f => (f.project, f.feature_key)).filter
    (· ∈ importFeatureReferences m)
  policies := s.entitlement_policies.rows.filter (·.id ∈ importPolicyIds m)

/-! ## The preview -/

/-- A preview before it has its id. -/
structure ImportDraft where
  actor_subject : String
  manifest_digest : String
  manifest : CatalogManifest
  effects : ImportEffects
  effective_at : Int
  source_generation : Int

/-- `PREVIEW_TTL_SECONDS`. -/
def previewTtlSeconds : Int := 300

/-- `PREVIEW_CLEANUP_BATCH_SIZE`. -/
def previewCleanupBatchSize : Nat := 25

def ImportDraft.preview (d : ImportDraft) (id : String) : ImportPreview where
  preview_id := id
  manifest_digest := d.manifest_digest
  manifest := d.manifest
  effects := d.effects
  effective_at := d.effective_at
  expires_at := d.effective_at + previewTtlSeconds
  source_generation := d.source_generation

def ImportDraft.row (d : ImportDraft) (id : String) : ImportPreviewRow where
  id := id
  actor_subject := d.actor_subject
  source_generation := d.source_generation
  manifest_digest := d.manifest_digest
  preview_json := d.preview id
  actions_json := d.effects.actions
  effective_at := d.effective_at
  expires_at := d.effective_at + previewTtlSeconds
  created_at := d.effective_at

def onPreviews (x : Except Abort (Nat × Table ImportPreviewRow)) (s : Store) :
    Except Abort (Nat × Store) :=
  stored x fun catalog_import_previews => { s with catalog_import_previews }

/-- The order of a cleanup: `expires_at ASC, id ASC`. -/
def ExpiryLe (a b : ImportPreviewRow) : Prop :=
  a.expires_at < b.expires_at ∨ (a.expires_at = b.expires_at ∧ a.id ≤ b.id)

instance : DecidableRel ExpiryLe := fun _ _ => inferInstanceAs (Decidable (_ ∨ _ ∧ _))

/-- The previews that a cleanup may delete. -/
def staleIds (now : Int) (s : Store) : List String :=
  (((s.catalog_import_previews.rows.filter fun p =>
    p.expires_at ≤ now ∨ p.consumed_at ≠ none).insertionSort ExpiryLe).take
      previewCleanupBatchSize).map (·.id)

def cleanupExpiredPreviewsStatement (now : Int) : Stmt Store := fun _ _ s =>
  onPreviews (s.catalog_import_previews.delete (·.id ∈ staleIds now s)) s

def insertPreviewStatement (d : ImportDraft) (id : String) : Stmt Store := fun _ _ s =>
  if s.generation = d.source_generation then
    onPreviews (inserted (s.catalog_import_previews.insert (d.row id))) s
  else .ok (0, s)

/-- The batch that stores a preview. -/
def persistBatch (d : ImportDraft) (id : String) : List (Stmt Store) :=
  [cleanupExpiredPreviewsStatement d.effective_at, insertPreviewStatement d id]

/-! ## The claim -/

/-- What one call of `applyCatalogImport` binds to its statements. -/
structure ImportRun where
  previewId : String
  claimToken : String
  actor : Actor
  requestId : String
  idempotencyKey : String
  effective_at : Int
  now : Int

section
variable (r : ImportRun) (s : Store)

/-- The row that the claim holds. -/
def Held (p : ImportPreviewRow) : Prop :=
  p.id = r.previewId ∧ p.claim_token = some r.claimToken ∧ p.consumed_at = none

instance : DecidablePred (Held r) := fun _ => inferInstanceAs (Decidable (_ ∧ _))

/-- `claimGuardSql`. -/
def Claimed : Prop := ∃ p ∈ s.catalog_import_previews, Held r p

instance : Decidable (Claimed r s) := inferInstanceAs (Decidable (∃ _ ∈ _, _))

/-- The condition of `claimStatement`. -/
def Claimable (p : ImportPreviewRow) : Prop :=
  p.id = r.previewId ∧ p.actor_subject = r.actor.subject ∧ p.claim_token = none ∧
    p.consumed_at = none ∧ p.expires_at > r.now ∧ p.source_generation = s.generation

instance : DecidablePred (Claimable r s) := fun _ => inferInstanceAs (Decidable (_ ∧ _))

end

/-- The set part of `claimStatement`. -/
def claim (r : ImportRun) (p : ImportPreviewRow) : ImportPreviewRow :=
  { p with claim_token := some r.claimToken, claimed_at := some r.now }

def claimStatement (r : ImportRun) : Stmt Store := fun time _ s =>
  onPreviews (s.catalog_import_previews.update time (Claimable r s) (claim r)) s

/-- The row of `claimFailureStatement`. -/
def claimFailure (r : ImportRun) (s : Store) : String :=
  let own (p : ImportPreviewRow) : Bool := p.id == r.previewId && p.actor_subject == r.actor.subject
  let rows := s.catalog_import_previews.rows
  if rows.all (!own ·) then "stale_catalog_import_preview"
  else if rows.any fun p => own p && decide (p.expires_at ≤ r.now) then
    "expired_catalog_import_preview"
  else if rows.any fun p => own p && (p.claim_token.isSome || p.consumed_at.isSome) then
    "claimed_catalog_import_preview"
  else "stale_catalog_import_preview"

/-! ## The actions -/

/-- The row of an action is there with every column. -/
def Stored (a : ImportAction) (s : Store) : Prop :=
  match a with
  | .feature e => e.after ∈ s.catalog_features
  | .plan e => e.after ∈ s.catalog_plans
  | .planFeature e => e.after ∈ s.catalog_plan_features

instance (a : ImportAction) (s : Store) : Decidable (Stored a s) := by
  cases a with
  | feature e => exact inferInstanceAs (Decidable (e.after ∈ s.catalog_features))
  | plan e => exact inferInstanceAs (Decidable (e.after ∈ s.catalog_plans))
  | planFeature e => exact inferInstanceAs (Decidable (e.after ∈ s.catalog_plan_features))

def setFeature (after f : CatalogFeature) : CatalogFeature :=
  { f with
    name := after.name
    description := after.description
    category := after.category
    status := after.status
    updated_at := after.updated_at }

def setPlan (after p : CatalogPlan) : CatalogPlan :=
  { p with
    name := after.name
    status := after.status
    version := after.version
    description := after.description
    updated_at := after.updated_at }

def setPlanFeature (after f : CatalogPlanFeature) : CatalogPlanFeature :=
  { f with
    feature_inclusion := after.feature_inclusion
    addon_key := after.addon_key
    policy_id := after.policy_id
    status := after.status
    display_order := after.display_order
    max_active_devices := after.max_active_devices
    updated_at := after.updated_at }

def mutationStatement (r : ImportRun) (a : ImportAction) : Stmt Store := fun time _ s =>
  match a with
  | .feature e =>
    if e.effect = .create then
      if Claimed r s then Store.onFeatures (inserted (s.catalog_features.insert e.after)) s
      else .ok (0, s)
    else
      Store.onFeatures (s.catalog_features.update time (fun f => f.id = e.after.id ∧
        f.project = e.after.project ∧ f.feature_key = e.after.feature_key ∧ Claimed r s)
        (setFeature e.after)) s
  | .plan e =>
    if e.effect = .create then
      if Claimed r s then Store.onPlans (inserted (s.catalog_plans.insert e.after)) s
      else .ok (0, s)
    else
      Store.onPlans (s.catalog_plans.update time (fun p => p.id = e.after.id ∧
        p.project = e.after.project ∧ p.plan_key = e.after.plan_key ∧ Claimed r s)
        (setPlan e.after)) s
  | .planFeature e =>
    if e.effect = .create then
      if Claimed r s then s.insertPlanFeature e.after
      else .ok (0, s)
    else
      s.updatePlanFeatures time (fun f => f.project = e.after.project ∧ f.sameRow e.after ∧
        Claimed r s) (setPlanFeature e.after)

/-- The audit row of an action. -/
def importEvent (r : ImportRun) (a : ImportAction) : CatalogEvent where
  entity_type := match a with
    | .feature _ => .feature
    | .plan _ => .plan
    | .planFeature _ => .plan_feature
  entity_id := match a with
    | .feature e => e.after.id
    | .plan e => e.after.id
    | .planFeature e => e.after.plan_id ++ ":" ++ e.after.feature_key
  project := match a with
    | .feature e => e.after.project
    | .plan e => e.after.project
    | .planFeature e => e.after.project
  event_type := a.effect
  actor := r.actor.name
  actor_type := r.actor.actorType
  reason := "catalog import"
  request_id := r.requestId
  prev_json := match a with
    | .feature e => e.before.map .feature
    | .plan e => e.before.map .plan
    | .planFeature e => e.before.map .planFeature
  next_json := match a with
    | .feature e => .feature e.after
    | .plan e => .plan e.after
    | .planFeature e => .planFeature e.after
  created_at := r.effective_at

/-- `auditStatement`, whose row has the columns of the action. -/
def auditStatement (r : ImportRun) (a : ImportAction) : Stmt Store := fun _ _ s =>
  if Stored a s ∧ Claimed r s then
    .ok (1, { s with catalog_events := importEvent r a :: s.catalog_events })
  else .ok (0, s)

/-- The columns of an audit row that an assertion compares. -/
def SameEvent (a b : CatalogEvent) : Prop :=
  a.entity_type = b.entity_type ∧ a.entity_id = b.entity_id ∧ a.project = b.project ∧
    a.event_type = b.event_type ∧ a.request_id = b.request_id ∧ a.prev_json = b.prev_json ∧
    a.created_at = b.created_at

instance : DecidableRel SameEvent := fun _ _ => inferInstanceAs (Decidable (_ ∧ _))

def assertionStatement (r : ImportRun) (a : ImportAction) : Stmt Store :=
  asserts fun s => ¬ Claimed r s ∨
    (Stored a s ∧ ∃ e ∈ s.catalog_events, SameEvent e (importEvent r a))

def actionStatements (r : ImportRun) (a : ImportAction) : List (Stmt Store) :=
  [mutationStatement r a, auditStatement r a, assertionStatement r a]

/-! ## The response -/

def appliedResponse (r : ImportRun) (p : ImportPreviewRow) : ImportResponse where
  code := "catalog_import_applied"
  request_id := r.requestId
  data := p.preview_json

def responseStatement (r : ImportRun) : Stmt Store := fun time _ s =>
  onPreviews (s.catalog_import_previews.update time (Held r) fun p =>
    { p with applied_response_json := some (appliedResponse r p) }) s

/-- The response of the row that the claim holds. -/
def heldResponse (r : ImportRun) (s : Store) : Option ImportResponse :=
  (s.catalog_import_previews.find? (Held r)).bind (·.applied_response_json)

/-- The scope of the idempotency key of an import. -/
def importScope (actor : Actor) : String := "POST:/api/admin/catalog/import:" ++ actor.subject

def idempotencyStatement (r : ImportRun) : Stmt Store :=
  Store.remember (importScope r.actor) r.idempotencyKey
    (fun s => (heldResponse r s).map .catalogImport) r.now

def idempotencyAssertionStatement (r : ImportRun) : Stmt Store :=
  asserts fun s => ¬ Claimed r s ∨ ∃ i ∈ s.responses, i.scope = importScope r.actor ∧
    i.idempotency_key = r.idempotencyKey ∧
    some i.response_json = (heldResponse r s).map .catalogImport

def consumeStatement (r : ImportRun) : Stmt Store := fun time _ s =>
  onPreviews (s.catalog_import_previews.update time
    (fun p => Held r p ∧ p.applied_response_json ≠ none) fun p =>
    { p with consumed_at := some r.now }) s

/-- The row of `finalResponseStatement`: a preview that the claim consumed at
this time. -/
def finalResponse (r : ImportRun) (s : Store) : Option ImportResponse :=
  (s.catalog_import_previews.find? fun p => p.id = r.previewId ∧
    p.claim_token = some r.claimToken ∧ p.consumed_at = some r.now ∧
    p.applied_response_json ≠ none).bind (·.applied_response_json)

/-- `finalResponseStatement`, which stops the batch of a claim that it cannot
show. -/
def finalResponseStatement (r : ImportRun) : Stmt Store :=
  asserts fun s => finalResponse r s ≠ none ∨
    ¬ ∃ p ∈ s.catalog_import_previews, p.id = r.previewId ∧ p.claim_token = some r.claimToken

/-! ## The batch -/

/-- The statements after those of the actions. -/
def closingStatements (r : ImportRun) : List (Stmt Store) :=
  [responseStatement r, idempotencyStatement r, idempotencyAssertionStatement r,
    consumeStatement r, finalResponseStatement r]

/-- The batch of `applyCatalogImport`. -/
def importBatch (r : ImportRun) (actions : List ImportAction) : List (Stmt Store) :=
  [claimStatement r, selects] ++ (actions.map (actionStatements r)).flatten ++ closingStatements r

/-- What `applyCatalogImport` makes of its batch. A batch that fails is the
error of the handler. -/
def importResult (r : ImportRun) (before : Store) :
    Except Abort (List Nat) × Store → Except String ImportPreview
  | (.error _, _) => throw "catalog_mutation_failed"
  | (.ok ns, after) =>
    if ns.head? = some 0 then throw (claimFailure r before)
    else
      match finalResponse r after with
      | some response => return response.data
      | none => throw "catalog_import_apply_failed"

/-- `storedPreview`, whose checks of the shape hold of every row that a preview
stores. -/
def storedPreview (previewId : String) (s : Store) : Except String ImportPreviewRow := do
  match s.catalog_import_previews.find? (·.id = previewId) with
  | none => throw "stale_catalog_import_preview"
  | some p =>
    ensure (p.preview_json.preview_id = previewId ∧
      p.actions_json.all (·.effect != .unchanged) = true) "catalog_import_preview_invalid"
    assertAtomicCapacity p.actions_json
    return p

end Licensecc.Catalog
