-- The effects of a manifest on the catalog: each row of the manifest creates,
-- changes or leaves one row of the catalog. A preview keeps the effects, and
-- an apply carries out those that change a row.
import Licensecc.Catalog.Manifest
import Licensecc.Failure

open Licensecc.Sql

namespace Licensecc

/-! ## Effects -/

inductive EffectKind where
  | create
  | update
  | disable
  | reenable
  | unchanged
  deriving DecidableEq

inductive ImportTarget where
  | feature (project feature_key : String)
  | plan (project plan_key plan_id : String)
  | plan_feature (project plan_key plan_id feature_key : String)
  deriving DecidableEq

/-- The effect of a manifest on one row of a table. -/
structure RowEffect (ρ : Type) where
  target : ImportTarget
  effect : EffectKind
  before : Option ρ
  after : ρ
  deriving DecidableEq

structure EffectCounter where
  create : Nat
  update : Nat
  disable : Nat
  reenable : Nat
  unchanged : Nat

structure ImportEffects where
  features : List (RowEffect CatalogFeature)
  plans : List (RowEffect CatalogPlan)
  plan_features : List (RowEffect CatalogPlanFeature)
  deriving DecidableEq

/-- One collection of `effects.summary`. -/
def countEffects {ρ : Type} (l : List (RowEffect ρ)) : EffectCounter where
  create := l.countP (·.effect = .create)
  update := l.countP (·.effect = .update)
  disable := l.countP (·.effect = .disable)
  reenable := l.countP (·.effect = .reenable)
  unchanged := l.countP (·.effect = .unchanged)

/-- An effect that an apply carries out. -/
inductive ImportAction where
  | feature (e : RowEffect CatalogFeature)
  | plan (e : RowEffect CatalogPlan)
  | planFeature (e : RowEffect CatalogPlanFeature)

def ImportAction.effect : ImportAction → EffectKind
  | feature e => e.effect
  | plan e => e.effect
  | planFeature e => e.effect

/-- The effects of one collection that change a row. -/
def changes {ρ : Type} (l : List (RowEffect ρ)) : List (RowEffect ρ) :=
  l.filter (·.effect ≠ .unchanged)

/-- The list `actions` that `appendEffect` builds next to the effects. -/
def ImportEffects.actions (e : ImportEffects) : List ImportAction :=
  (changes e.features).map .feature ++ (changes e.plans).map .plan ++
    (changes e.plan_features).map .planFeature

/-! ## Snapshots -/

/-- What `buildSnapshot` reads. -/
structure ImportSnapshot where
  sourceGeneration : Int
  features : List CatalogFeature
  plans : List CatalogPlan
  planFeatures : List CatalogPlanFeature
  referencedFeatures : List (String × String)
  policies : List Policy

def ImportSnapshot.feature (s : ImportSnapshot) (key : String × String) : Option CatalogFeature :=
  s.features.find? fun f => f.project = key.1 ∧ f.feature_key = key.2

def ImportSnapshot.plan (s : ImportSnapshot) (key : String × String) : Option CatalogPlan :=
  s.plans.find? fun p => p.project = key.1 ∧ p.plan_key = key.2

def ImportSnapshot.planFeature (s : ImportSnapshot) (planId featureKey : String) :
    Option CatalogPlanFeature :=
  s.planFeatures.find? fun f => f.plan_id = planId ∧ f.feature_key = featureKey

def ImportSnapshot.policy (s : ImportSnapshot) (id : String) : Option Policy :=
  s.policies.find? (·.id = id)

/-- The checks of `validateSnapshotDependencies` on one plan feature. -/
def checkDependency (s : ImportSnapshot) (m : CatalogManifest) (f : CatalogPlanFeatureInput) :
    Except String Unit := do
  let key := (f.project, f.feature_key)
  if key ∉ m.features.map (·.key) ∧ key ∉ s.referencedFeatures then
    throw s!"catalog_feature_not_found:{f.feature_key}"
  match f.policy_id with
  | none => pure ()
  | some id =>
    match s.policy id with
    | none => throw s!"policy_not_found:{id}"
    | some policy =>
      if policy.project ≠ f.project then throw s!"invalid_plan_config:{id}"
      if policy.status ≠ .active then throw s!"policy_disabled:{id}"

def validateSnapshotDependencies (s : ImportSnapshot) (m : CatalogManifest) : Except String Unit :=
  (m.plans.flatMap (·.features)).forM (checkDependency s m)

/-! ## Derivation -/

def featureMatches (row : CatalogFeature) (input : CatalogFeatureInput) : Bool :=
  row.name == input.name && row.description == input.description &&
    row.category == input.category && row.status == input.status

def planMatches (row : CatalogPlan) (input : CatalogPlanInput) : Bool :=
  row.name == input.name && row.description == input.description && row.status == input.status &&
    row.version == input.version

def planFeatureMatches (row : CatalogPlanFeature) (input : CatalogPlanFeatureInput) : Bool :=
  row.project == input.project && row.feature_key == input.feature_key &&
    row.feature_inclusion == input.feature_inclusion && row.addon_key == input.addon_key &&
    row.policy_id == input.policy_id && row.status == input.status &&
    row.display_order == input.display_order && row.max_active_devices == input.max_active_devices

/-- `catalogEffect`, for the status of the row that is there. -/
def catalogEffect (existing : Option CatalogStatus) (isMatch : Bool) (next : CatalogStatus) :
    EffectKind :=
  match existing with
  | none => .create
  | some status =>
    if isMatch then .unchanged
    else if status = .active ∧ next = .disabled then .disable
    else if status = .disabled ∧ next = .active then .reenable
    else .update

/-- The random ids of the rows that a manifest creates, by their keys. -/
structure NewIds where
  feature : String × String → String
  plan : String × String → String

def featureAfter (ids : NewIds) (input : CatalogFeatureInput) (existing : Option CatalogFeature)
    (effectiveAt : Int) : CatalogFeature where
  id := match existing with
    | none => ids.feature input.key
    | some row => row.id
  project := input.project
  feature_key := input.feature_key
  name := input.name
  description := input.description
  category := input.category
  status := input.status
  created_at := match existing with
    | none => effectiveAt
    | some row => row.created_at
  updated_at := effectiveAt

def planAfter (ids : NewIds) (input : CatalogPlanInput) (existing : Option CatalogPlan)
    (effectiveAt : Int) : CatalogPlan where
  id := match existing with
    | none => ids.plan input.key
    | some row => row.id
  project := input.project
  plan_key := input.plan_key
  name := input.name
  status := input.status
  version := input.version
  description := input.description
  created_at := match existing with
    | none => effectiveAt
    | some row => row.created_at
  updated_at := effectiveAt

def planFeatureAfter (input : CatalogPlanFeatureInput) (planId : String)
    (existing : Option CatalogPlanFeature) (effectiveAt : Int) : CatalogPlanFeature where
  project := input.project
  plan_id := planId
  feature_key := input.feature_key
  feature_inclusion := input.feature_inclusion
  addon_key := input.addon_key
  policy_id := input.policy_id
  status := input.status
  display_order := input.display_order
  max_active_devices := input.max_active_devices
  created_at := match existing with
    | none => effectiveAt
    | some row => row.created_at
  updated_at := effectiveAt

/-- The row after an effect: the row that is there when it matches. -/
def afterOf {ρ : Type} (existing : Option ρ) (isMatch : ρ → Bool) (next : ρ) : ρ :=
  match existing with
  | some row => if isMatch row then row else next
  | none => next

def rowEffect {ρ : Type} (target : ρ → ImportTarget) (status : ρ → CatalogStatus)
    (existing : Option ρ) (isMatch : ρ → Bool) (next : ρ) (nextStatus : CatalogStatus) :
    RowEffect ρ where
  target := target (afterOf existing isMatch next)
  effect := catalogEffect (existing.map status) (existing.any isMatch) nextStatus
  before := existing
  after := afterOf existing isMatch next

def featureEffect (s : ImportSnapshot) (ids : NewIds) (effectiveAt : Int)
    (input : CatalogFeatureInput) : RowEffect CatalogFeature :=
  let existing := s.feature input.key
  rowEffect (fun _ => .feature input.project input.feature_key) (·.status) existing
    (featureMatches · input) (featureAfter ids input existing effectiveAt) input.status

def planEffect (s : ImportSnapshot) (ids : NewIds) (effectiveAt : Int)
    (input : CatalogPlanInput) : RowEffect CatalogPlan :=
  let existing := s.plan input.key
  rowEffect (fun row => .plan input.project input.plan_key row.id) (·.status) existing
    (planMatches · input) (planAfter ids input existing effectiveAt) input.status

/-- The id that a plan has after the import, as `plannedIds` keeps it. -/
def plannedId (s : ImportSnapshot) (ids : NewIds) (effectiveAt : Int) (input : CatalogPlanInput) :
    String := (planEffect s ids effectiveAt input).after.id

def planFeatureEffect (s : ImportSnapshot) (effectiveAt : Int) (planKey planId : String)
    (input : CatalogPlanFeatureInput) : RowEffect CatalogPlanFeature :=
  let existing := s.planFeature planId input.feature_key
  rowEffect (fun _ => .plan_feature input.project planKey planId input.feature_key) (·.status)
    existing (planFeatureMatches · input) (planFeatureAfter input planId existing effectiveAt)
    input.status

/-- The effects of `deriveEffects`, whose checks are apart. -/
def importEffects (s : ImportSnapshot) (ids : NewIds) (m : CatalogManifest) (effectiveAt : Int) :
    ImportEffects where
  features := m.features.map (featureEffect s ids effectiveAt)
  plans := m.plans.map fun p => planEffect s ids effectiveAt p.toCatalogPlanInput
  plan_features := m.plans.flatMap fun p => p.features.map
    (planFeatureEffect s effectiveAt p.plan_key (plannedId s ids effectiveAt p.toCatalogPlanInput))

def deriveEffects (s : ImportSnapshot) (ids : NewIds) (m : CatalogManifest) (effectiveAt : Int) :
    Except String ImportEffects := do
  validateSnapshotDependencies s m
  return importEffects s ids m effectiveAt

/-- `CATALOG_IMPORT_MAX_MUTABLE_ACTIONS`. -/
def maxAtomicCatalogImportActions : Nat := 13

def assertAtomicCapacity (actions : List ImportAction) : Except String Unit :=
  if actions.length > maxAtomicCatalogImportActions then throw "catalog_import_too_large"
  else pure ()

/-! ## Previews -/

structure ImportPreview where
  preview_id : String
  manifest_digest : String
  manifest : CatalogManifest
  effects : ImportEffects
  effective_at : Int
  expires_at : Int
  source_generation : Int
  deriving DecidableEq

/-- The body of a success of an apply. -/
structure ImportResponse where
  code : String
  request_id : String
  data : ImportPreview
  deriving DecidableEq

/-- A row of `catalog_import_previews`. -/
structure ImportPreviewRow where
  id : String
  actor_subject : String
  source_generation : Int
  manifest_digest : String
  preview_json : ImportPreview
  actions_json : List ImportAction
  effective_at : Int
  expires_at : Int
  claim_token : Option String := none
  claimed_at : Option Int := none
  consumed_at : Option Int := none
  applied_response_json : Option ImportResponse := none
  created_at : Int

instance : Schema ImportPreviewRow where
  check _ := True
  clash a b := a.id = b.id
  clash_symm := Eq.symm
  decCheck := fun _ => inferInstance
  decClash := fun _ _ => inferInstance

end Licensecc
