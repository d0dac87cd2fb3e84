-- The catalog system: the handlers of the admin API that edit the catalog and
-- the policies, preview an import and apply one. Each is a program of reads
-- and of one batch, and any number of them run at once.
import Licensecc.Conc.World
import Licensecc.Catalog.Apply
import Licensecc.Catalog.Edits

open Licensecc.Sql Licensecc.Conc

namespace Licensecc.Catalog

/-! ## The writes -/

/-- The arguments of `applyCatalogImport` with its reading of the clock. -/
structure ImportCall where
  previewId : String
  actor : Actor
  requestId : String
  idempotencyKey : String
  now : Int

/-- What the call binds once it has read its preview and drawn its token. -/
def ImportCall.run (call : ImportCall) (effective_at : Int) (claimToken : String) : ImportRun where
  previewId := call.previewId
  claimToken := claimToken
  actor := call.actor
  requestId := call.requestId
  idempotencyKey := call.idempotencyKey
  effective_at := effective_at
  now := call.now

inductive CatalogWrite where
  | persist (d : ImportDraft)
  | applyImport (call : ImportCall) (effective_at : Int) (actions : List ImportAction)
  | edit (c : EditContext) (e : Edit)

inductive CatalogResult where
  | persisted (preview : Option ImportPreview)
  | applied (result : Except String ImportPreview)
  /-- Whether the first statement of an edit returned a row. -/
  | edited (returned : Bool)
  | failed (e : Abort)

/-- The id of a preview, from its random part. -/
def previewId (id : String) : String := "civ_" ++ id

/-- The effect of a write with what it learns from outside. -/
def CatalogWrite.apply (o : Oracle) : CatalogWrite → Store → CatalogResult × Store
  | .persist d, s =>
    match transact (persistBatch d (previewId o.id)) o.clock s with
    | (.ok ns, s') =>
      (.persisted (if ns[1]? = some 1 then some (d.preview (previewId o.id)) else none), s')
    | (.error e, s') => (.failed e, s')
  | .applyImport call effective_at actions, s =>
    let r := call.run effective_at o.id
    let result := transact (importBatch r actions) o.clock s
    (.applied (importResult r s result), result.2)
  | .edit c e, s =>
    match transact (e.batch c o.id) o.clock s with
    | (.ok ns, s') => (.edited (ns.head? != some 0), s')
    | (.error e, s') => (.failed e, s')

abbrev CatalogWorld := World Store CatalogWrite CatalogResult

/-! ## The programs -/

inductive CatalogAnswer where
  | previewed (preview : ImportPreview)
  | applied (preview : ImportPreview)
  | saved

abbrev Handler := ExceptT String (Prog CatalogWorld CatalogWrite CatalogResult)

/-- A read of the database. -/
def select {α : Type} (f : Store → α) : Handler α := ExceptT.lift (Prog.query fun w => f w.db)

/-- A check that reads nothing. -/
def check {α : Type} (x : Except String α) : Handler α := ExceptT.mk (pure x)

/-- The attempts of `previewCatalogImport`. The ids are the random ones of each
attempt. -/
def previewAttempts (manifest : CatalogManifest) (digest subject : String) (now : Int)
    (ids : Nat → NewIds) : Nat → Handler CatalogAnswer
  | 0 => throw "catalog_import_snapshot_stale"
  | n + 1 => do
    let snapshot ← select (buildSnapshot manifest)
    let effects ← check (deriveEffects snapshot (ids n) manifest now)
    check (assertAtomicCapacity effects.actions)
    let draft : ImportDraft := {
      actor_subject := subject
      manifest_digest := digest
      manifest := manifest
      effects := effects
      effective_at := now
      source_generation := snapshot.sourceGeneration }
    match ← ExceptT.lift (Prog.request (.persist draft)) with
    | some (.persisted (some preview)) => return .previewed preview
    | some (.persisted none) => previewAttempts manifest digest subject now ids n
    | _ => throw "catalog_mutation_failed"

/-- `importCatalog` with `dry_run`, whose digest is `catalogImportManifestDigest`. -/
def previewCatalogImport (digest : CatalogManifest → String) (body : Value) (subject : String)
    (now : Int) (ids : Nat → NewIds) : Handler CatalogAnswer :=
  match validateCatalogImportInput body with
  | none => throw "invalid_request"
  | some input =>
    if subject = "" then throw "invalid_actor"
    else
      let manifest := normalizeCatalogImportManifest input
      previewAttempts manifest (digest manifest) subject now ids 3

/-- `applyCatalogImport`. -/
def applyCatalogImport (call : ImportCall) : Handler CatalogAnswer := do
  let row ← select (storedPreview call.previewId)
  let p ← check row
  match ← ExceptT.lift (Prog.request (.applyImport call p.effective_at p.actions_json)) with
  | some (.applied (.ok preview)) => return .applied preview
  | some (.applied (.error e)) => throw e
  | _ => throw "catalog_mutation_failed"

/-- The batch of an edit, with the answers of its handler to a batch that a
constraint stops and to a first statement that returns no row. -/
def save (c : EditContext) (e : Edit) (conflict missing : String) : Handler CatalogAnswer := do
  match ← ExceptT.lift (Prog.request (.edit c e)) with
  | some (.edited true) => return .saved
  | some (.edited false) => throw missing
  | some (.failed .constraint) => throw conflict
  | _ => throw "catalog_mutation_failed"

/-- The body of a request that its validator accepts. -/
def validated {α : Type} (x : Option α) : Handler α :=
  check (match x with
    | some a => .ok a
    | none => .error "invalid_request")

/-- A row that the handler needs. -/
def found {α : Type} (x : Option α) (missing : String) : Handler α :=
  check (match x with
    | some a => .ok a
    | none => .error missing)

def createCatalogFeature (c : EditContext) (body : Value) : Handler CatalogAnswer := do
  let input ← validated (validateCatalogFeatureInput body)
  save c (.createFeature input) "catalog_feature_conflict" "catalog_mutation_failed"

def patchCatalogFeature (c : EditContext) (featureId : String) (body : Value) :
    Handler CatalogAnswer := do
  let patch ← validated (validateCatalogFeaturePatch body)
  let row ← select fun s => s.catalog_features.find? (·.id = featureId)
  let existing ← found row "catalog_feature_not_found"
  save c (.patchFeature existing patch) "catalog_mutation_failed" "catalog_feature_not_found"

def createCatalogPlan (c : EditContext) (body : Value) : Handler CatalogAnswer := do
  let input ← validated (validateCatalogPlanInput false body)
  save c (.createPlan input) "catalog_plan_conflict" "catalog_mutation_failed"

def patchCatalogPlan (c : EditContext) (planId : String) (body : Value) :
    Handler CatalogAnswer := do
  let patch ← validated (validateCatalogPlanPatch body)
  let row ← select fun s => s.catalog_plans.find? (·.id = planId)
  let existing ← found row "catalog_plan_not_found"
  save c (.patchPlan existing patch) "catalog_mutation_failed" "catalog_plan_not_found"

/-- The checks of `createCatalogPlanFeature` on a policy. -/
def checkPolicy (input : CatalogPlanFeatureInput) (policy : Option Policy) : Except String Unit :=
  match policy with
  | none => throw "policy_not_found"
  | some p =>
    if p.project ≠ input.project then throw "invalid_plan_config"
    else if p.status ≠ .active then throw "policy_disabled"
    else return ()

def createCatalogPlanFeature (c : EditContext) (planId : String) (body : Value) :
    Handler CatalogAnswer := do
  let input ← validated (validateCatalogPlanFeatureInput body)
  let row ← select fun s => s.catalog_plans.find? (·.id = planId)
  let plan ← found row "catalog_plan_not_found"
  check (ensure (plan.project = input.project) "invalid_plan_config")
  let row ← select fun s => s.catalog_features.find? fun f =>
    f.project = input.project ∧ f.feature_key = input.feature_key
  let _ ← found row "catalog_feature_not_found"
  match input.policy_id with
  | none => pure ()
  | some id =>
    let policy ← select fun s => s.entitlement_policies.find? (·.id = id)
    check (checkPolicy input policy)
  let existing ← select fun s => s.catalog_plan_features.find? fun f =>
    f.plan_id = planId ∧ f.feature_key = input.feature_key
  save c (.savePlanFeature planId input existing) "catalog_plan_feature_conflict"
    "catalog_mutation_failed"

/-- A text that `trim` leaves empty. -/
def isBlank (s : String) : Bool :=
  s.toList.all fun c => ['\t', '\n', '\x0b', '\x0c', '\r', ' ', '\u00a0', '\u1680', '\u2000', '\u2001',
    '\u2002', '\u2003', '\u2004', '\u2005', '\u2006', '\u2007', '\u2008', '\u2009', '\u200a', '\u2028',
    '\u2029', '\u202f', '\u205f', '\u3000', '\ufeff'].contains c

/-- `transitionWithGuard` with an audit row, for a row with its status. -/
def transitionWithGuard {ρ : Type} (c : EditContext) (action : Transition) (reason : String)
    (read : Store → Option ρ) (status : ρ → CatalogStatus) (edit : ρ → Edit)
    (missing conflict : String) : Handler CatalogAnswer := do
  check (ensure (¬ (action = .disable ∧ isBlank reason = true)) "reason_required")
  let row ← select read
  let existing ← found row missing
  check (ensure (status existing = action.expectedPrev) conflict)
  save c (edit existing) "catalog_mutation_failed" conflict

def transitionCatalogFeature (c : EditContext) (featureId : String) (action : Transition)
    (reason : String) : Handler CatalogAnswer :=
  transitionWithGuard c action reason (fun s => s.catalog_features.find? (·.id = featureId))
    (·.status) (.transitionFeature · action reason) "catalog_feature_not_found"
    "catalog_status_conflict"

def transitionCatalogPlan (c : EditContext) (planId : String) (action : Transition)
    (reason : String) : Handler CatalogAnswer :=
  transitionWithGuard c action reason (fun s => s.catalog_plans.find? (·.id = planId))
    (·.status) (.transitionPlan · action reason) "catalog_plan_not_found"
    "catalog_status_conflict"

def transitionCatalogPlanFeature (c : EditContext) (planId featureKey : String)
    (action : Transition) (reason : String) : Handler CatalogAnswer :=
  transitionWithGuard c action reason
    (fun s => s.catalog_plan_features.find? fun f => f.plan_id = planId ∧ f.feature_key = featureKey)
    (·.status) (.transitionPlanFeature · action reason) "catalog_plan_feature_not_found"
    "catalog_status_conflict"

/-- `handlePolicyCreate` after its validator. -/
def handlePolicyCreate (c : EditContext) (input : PolicyInput) : Handler CatalogAnswer :=
  save c (.createPolicy input) "policy_name_conflict" "mutation_failed"

/-- `handlePolicyPatch` after its validator. -/
def handlePolicyPatch (c : EditContext) (policyId : String) (patch : PolicyPatch) :
    Handler CatalogAnswer := do
  let row ← select fun s => s.entitlement_policies.find? (·.id = policyId)
  let existing ← found row "not_found"
  save c (.patchPolicy existing patch) "mutation_failed" "not_found"

def handlePolicyTransition (c : EditContext) (policyId : String) (action : Transition)
    (reason : String) : Handler CatalogAnswer :=
  transitionWithGuard c action reason (fun s => s.entitlement_policies.find? (·.id = policyId))
    (·.status) (.transitionPolicy · action reason) "not_found" "policy_status_conflict"

/-- The programs of the catalog system. -/
inductive CatalogRun : Prog CatalogWorld CatalogWrite CatalogResult (Except String CatalogAnswer) →
    Prop where
  | preview (digest : CatalogManifest → String) (body : Value) (subject : String) (now : Int)
      (ids : Nat → NewIds) : CatalogRun (previewCatalogImport digest body subject now ids).run
  | apply (call : ImportCall) : CatalogRun (applyCatalogImport call).run
  | createFeature (c : EditContext) (body : Value) : CatalogRun (createCatalogFeature c body).run
  | patchFeature (c : EditContext) (featureId : String) (body : Value) :
      CatalogRun (patchCatalogFeature c featureId body).run
  | transitionFeature (c : EditContext) (featureId : String) (action : Transition)
      (reason : String) : CatalogRun (transitionCatalogFeature c featureId action reason).run
  | createPlan (c : EditContext) (body : Value) : CatalogRun (createCatalogPlan c body).run
  | patchPlan (c : EditContext) (planId : String) (body : Value) :
      CatalogRun (patchCatalogPlan c planId body).run
  | transitionPlan (c : EditContext) (planId : String) (action : Transition) (reason : String) :
      CatalogRun (transitionCatalogPlan c planId action reason).run
  | createPlanFeature (c : EditContext) (planId : String) (body : Value) :
      CatalogRun (createCatalogPlanFeature c planId body).run
  | transitionPlanFeature (c : EditContext) (planId featureKey : String) (action : Transition)
      (reason : String) :
      CatalogRun (transitionCatalogPlanFeature c planId featureKey action reason).run
  | createPolicy (c : EditContext) (input : PolicyInput) :
      CatalogRun (handlePolicyCreate c input).run
  | patchPolicy (c : EditContext) (policyId : String) (patch : PolicyPatch) :
      CatalogRun (handlePolicyPatch c policyId patch).run
  | transitionPolicy (c : EditContext) (policyId : String) (action : Transition)
      (reason : String) : CatalogRun (handlePolicyTransition c policyId action reason).run

/-- The catalog system. -/
abbrev catalogSystem := World.system CatalogWrite.apply CatalogRun

end Licensecc.Catalog
