-- The whole database of the admin API and of order ingest: the tables of
-- grants with their audit, of the catalog, of orders, and the stored answers
-- of the admin API.
import Licensecc.Schema.Db
import Licensecc.Schema.Orders
import Licensecc.Projection.Actions
import Licensecc.Catalog.Effects

open Licensecc.Sql

namespace Licensecc

inductive CatalogEntity where
  | feature
  | plan
  | plan_feature
  deriving DecidableEq

/-- A row of the catalog, as an audit document keeps it. -/
inductive CatalogRow where
  | feature (row : CatalogFeature)
  | plan (row : CatalogPlan)
  | planFeature (row : CatalogPlanFeature)
  deriving DecidableEq

/-- A row of `catalog_events`. The source is always `admin`. -/
structure CatalogEvent where
  entity_type : CatalogEntity
  entity_id : String
  project : String
  event_type : EffectKind
  actor : String
  actor_type : ActorType
  reason : String
  request_id : String
  prev_json : Option CatalogRow
  next_json : CatalogRow
  created_at : Int

/-- The body of a success of the admin API. -/
inductive MutationBody where
  | entitlement (code request_id : String) (data : EntitlementRecord)
  | policy (code request_id : String) (data : Policy)
  | projection (response : ProjectionResponse)
  | catalogImport (response : ImportResponse)
  deriving DecidableEq

/-- A row of `mutation_idempotency` in a scope of the admin API. -/
structure ResponseRow where
  scope : String
  idempotency_key : String
  response_json : MutationBody
  created_at : Int

instance : Schema ResponseRow where
  check _ := True
  clash a b := a.scope = b.scope ∧ a.idempotency_key = b.idempotency_key
  clash_symm := fun h => ⟨h.1.symm, h.2.symm⟩
  decCheck := fun _ => inferInstance
  decClash := fun _ _ => inferInstance

/-- A row of `policy_events`. Its source is always `admin` and its `prev_json` is
always empty. -/
structure PolicyEvent where
  policy_id : String
  project : String
  event_type : EffectKind
  actor : String
  actor_type : ActorType
  reason : String
  request_id : String
  next_json : Policy
  created_at : Int

structure Store extends Db where
  entitlement_events : List EntitlementEvent := []
  responses : Table ResponseRow := .empty
  catalog_features : Table CatalogFeature := .empty
  catalog_plans : Table CatalogPlan := .empty
  catalog_plan_features : Table CatalogPlanFeature := .empty
  entitlement_policies : Table Policy := .empty
  catalog_events : List CatalogEvent := []
  policy_events : List PolicyEvent := []
  catalog_import_previews : Table ImportPreviewRow := .empty
  license_plan_assignments : Table Assignment := .empty
  license_plan_assignment_events : List AssignmentEvent := []
  license_plan_projection_previews : Table ProjectionPreviewRow := .empty
  orders : Table OrderIdentity := .empty
  order_events : Table OrderEvent := .empty
  licenses : Table License := .empty
  addresses : Table AccountAddress := .empty

namespace Store

variable {σ : Store}

/-- A write of the tables of `Db` only. -/
def onDb (x : Except Abort (Nat × Db)) (s : Store) : Except Abort (Nat × Store) :=
  stored x fun db => { s with toDb := db }

theorem onDb_eq_ok {x : Except Abort (Nat × Db)} {s s' : Store} {n : Nat} :
    onDb x s = .ok (n, s') ↔ ∃ db, x = .ok (n, db) ∧ s' = { s with toDb := db } := stored_eq_ok

def onResponses (x : Except Abort (Nat × Table ResponseRow)) (s : Store) :
    Except Abort (Nat × Store) :=
  stored x fun responses => { s with responses }

/-- `INSERT INTO mutation_idempotency .. ON CONFLICT(scope, idempotency_key) DO NOTHING`
of a body that a query of the state gives. -/
def remember (scope key : String) (body : Store → Option MutationBody) (now : Int) : Stmt Store :=
  fun _ _ s =>
    match body s with
    | none => .ok (0, s)
    | some response =>
      if ∃ i ∈ s.responses, i.scope = scope ∧ i.idempotency_key = key then .ok (0, s)
      else onResponses (inserted (s.responses.insert ⟨scope, key, response, now⟩)) s

/-! ## The catalog

Each row that a statement writes moves the generation. -/

def onFeatures (x : Except Abort (Nat × Table CatalogFeature)) (s : Store) :
    Except Abort (Nat × Store) :=
  counted x fun n catalog_features =>
    { s with catalog_features, generation := s.generation + n }

def onPlans (x : Except Abort (Nat × Table CatalogPlan)) (s : Store) : Except Abort (Nat × Store) :=
  counted x fun n catalog_plans =>
    { s with catalog_plans, generation := s.generation + n }

def onPlanFeatures (x : Except Abort (Nat × Table CatalogPlanFeature)) (s : Store) :
    Except Abort (Nat × Store) :=
  counted x fun n catalog_plan_features =>
    { s with catalog_plan_features, generation := s.generation + n }

def onPolicies (x : Except Abort (Nat × Table Policy)) (s : Store) : Except Abort (Nat × Store) :=
  counted x fun n entitlement_policies =>
    { s with entitlement_policies, generation := s.generation + n }

/-- The foreign keys of a plan feature. -/
def Linked (s : Store) (f : CatalogPlanFeature) : Prop :=
  (∃ p ∈ s.catalog_plans, p.project = f.project ∧ p.id = f.plan_id) ∧
    (∃ c ∈ s.catalog_features, c.project = f.project ∧ c.feature_key = f.feature_key) ∧
    (f.policy_id = none ∨ ∃ p ∈ s.entitlement_policies, some p.id = f.policy_id)

instance (s : Store) : DecidablePred (Linked s) :=
  fun _ => inferInstanceAs (Decidable ((∃ _ ∈ _, _) ∧ (∃ _ ∈ _, _) ∧ (_ ∨ ∃ _ ∈ _, _)))

/-- `INSERT INTO catalog_plan_features` with its foreign keys. -/
def insertPlanFeature (row : CatalogPlanFeature) (s : Store) : Except Abort (Nat × Store) := do
  require (s.Linked row)
  onPlanFeatures (inserted (s.catalog_plan_features.insert row)) s

/-- `UPDATE catalog_plan_features` with its foreign keys. -/
def updatePlanFeatures (time : Int) (sel : CatalogPlanFeature → Prop) [DecidablePred sel]
    (set : CatalogPlanFeature → CatalogPlanFeature) (s : Store) : Except Abort (Nat × Store) := do
  require (∀ f ∈ s.catalog_plan_features, sel f → s.Linked (set f))
  onPlanFeatures (s.catalog_plan_features.update time sel set) s

/-- The row of an entitlement. -/
def entitlement (key : EntitlementKey) (s : Store) : Option Entitlement :=
  s.entitlements.find? (·.toEntitlementKey = key)

end Store

end Licensecc
