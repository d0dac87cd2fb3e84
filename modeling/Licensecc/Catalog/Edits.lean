-- The edits of the catalog and of the policies in the admin API. Each one is a
-- batch of one write and of its audit row, and no write removes a row.
import Licensecc.Schema.Store

open Licensecc.Sql

namespace Licensecc.Catalog

/-! ## Inputs -/

/-- `ValidPolicyInput`. -/
structure PolicyInput where
  project : String
  name : String
  type : PolicyType
  notes : String
  valid_from_offset_sec : Option Int
  duration_sec : Option Int
  max_active_devices : Int
  expiry_strategy : ExpiryStrategy
  trial_expiration_basis : String
  trial_duration_sec : Int
  trial_one_per_device : Int

/-- `ValidPolicyPatch`: `none` is a field that the PATCH leaves. -/
structure PolicyPatch where
  valid_from_offset_sec : Option (Option Int) := none
  duration_sec : Option (Option Int) := none
  max_active_devices : Option Int := none
  expiry_strategy : Option ExpiryStrategy := none
  trial_expiration_basis : Option String := none
  trial_duration_sec : Option Int := none
  trial_one_per_device : Option Int := none
  notes : Option String := none

inductive Transition where
  | disable
  | reenable
  deriving DecidableEq

/-- `expectedPrev` of a transition. -/
def Transition.expectedPrev : Transition → CatalogStatus
  | disable => .active
  | reenable => .disabled

/-- `next` of a transition. -/
def Transition.next : Transition → CatalogStatus
  | disable => .disabled
  | reenable => .active

def Transition.event : Transition → EffectKind
  | disable => .disable
  | reenable => .reenable

/-- An edit with the row that its handler read before. -/
inductive Edit where
  | createFeature (input : CatalogFeatureInput)
  | patchFeature (existing : CatalogFeature) (patch : CatalogTextPatch)
  | transitionFeature (existing : CatalogFeature) (action : Transition) (reason : String)
  | createPlan (input : CatalogPlanInput)
  | patchPlan (existing : CatalogPlan) (patch : CatalogTextPatch)
  | transitionPlan (existing : CatalogPlan) (action : Transition) (reason : String)
  | savePlanFeature (planId : String) (input : CatalogPlanFeatureInput)
      (existing : Option CatalogPlanFeature)
  | transitionPlanFeature (existing : CatalogPlanFeature) (action : Transition) (reason : String)
  | createPolicy (input : PolicyInput)
  | patchPolicy (existing : Policy) (patch : PolicyPatch)
  | transitionPolicy (existing : Policy) (action : Transition) (reason : String)

/-- Who edits, and when. -/
structure EditContext where
  actor : Actor
  requestId : String
  now : Int

/-! ## Audit rows -/

section
variable (c : EditContext) (event_type : EffectKind) (reason : String)

/-- `catalogFeatureAudit`. -/
def catalogFeatureAudit (id project : String) (prev : Option CatalogFeature) : Stmt Store :=
  fun _ _ s =>
    match s.catalog_features.find? (·.id = id) with
    | none => .ok (0, s)
    | some row =>
      let event : CatalogEvent := {
        entity_type := .feature
        entity_id := id
        project := project
        event_type := event_type
        actor := c.actor.name
        actor_type := c.actor.actorType
        reason := reason
        request_id := c.requestId
        prev_json := prev.map .feature
        next_json := .feature row
        created_at := c.now }
      .ok (1, { s with catalog_events := event :: s.catalog_events })

/-- `catalogPlanAudit`. -/
def catalogPlanAudit (id project : String) (prev : Option CatalogPlan) : Stmt Store :=
  fun _ _ s =>
    match s.catalog_plans.find? (·.id = id) with
    | none => .ok (0, s)
    | some row =>
      let event : CatalogEvent := {
        entity_type := .plan
        entity_id := id
        project := project
        event_type := event_type
        actor := c.actor.name
        actor_type := c.actor.actorType
        reason := reason
        request_id := c.requestId
        prev_json := prev.map .plan
        next_json := .plan row
        created_at := c.now }
      .ok (1, { s with catalog_events := event :: s.catalog_events })

/-- `catalogPlanFeatureAudit`. -/
def catalogPlanFeatureAudit (planId featureKey project : String)
    (prev : Option CatalogPlanFeature) : Stmt Store := fun _ _ s =>
  match s.catalog_plan_features.find? fun f => f.plan_id = planId ∧ f.feature_key = featureKey with
  | none => .ok (0, s)
  | some row =>
    let event : CatalogEvent := {
      entity_type := .plan_feature
      entity_id := planId ++ ":" ++ featureKey
      project := project
      event_type := event_type
      actor := c.actor.name
      actor_type := c.actor.actorType
      reason := reason
      request_id := c.requestId
      prev_json := prev.map .planFeature
      next_json := .planFeature row
      created_at := c.now }
    .ok (1, { s with catalog_events := event :: s.catalog_events })

/-- `policyEventAudit`. -/
def policyEventAudit (policyId project : String) : Stmt Store := fun _ _ s =>
  match s.entitlement_policies.find? (·.id = policyId) with
  | none => .ok (0, s)
  | some row =>
    let event : PolicyEvent := {
      policy_id := policyId
      project := project
      event_type := event_type
      actor := c.actor.name
      actor_type := c.actor.actorType
      reason := reason
      request_id := c.requestId
      next_json := row
      created_at := c.now }
    .ok (1, { s with policy_events := event :: s.policy_events })

end

/-! ## Writes -/

def catalogFeatureRow (id : String) (input : CatalogFeatureInput) (now : Int) : CatalogFeature where
  id := id
  project := input.project
  feature_key := input.feature_key
  name := input.name
  description := input.description
  category := input.category
  status := input.status
  created_at := now
  updated_at := now

def catalogPlanRow (id : String) (input : CatalogPlanInput) (now : Int) : CatalogPlan where
  id := id
  project := input.project
  plan_key := input.plan_key
  name := input.name
  status := input.status
  version := input.version
  description := input.description
  created_at := now
  updated_at := now

def catalogPlanFeatureRow (planId : String) (input : CatalogPlanFeatureInput) (now : Int) :
    CatalogPlanFeature where
  project := input.project
  plan_id := planId
  feature_key := input.feature_key
  feature_inclusion := input.feature_inclusion
  addon_key := input.addon_key
  policy_id := input.policy_id
  status := input.status
  display_order := input.display_order
  max_active_devices := input.max_active_devices
  created_at := now
  updated_at := now

/-- The part `DO UPDATE SET` of `catalogPlanFeatureUpsertStatement`. -/
def savedPlanFeature (input : CatalogPlanFeatureInput) (now : Int) (f : CatalogPlanFeature) :
    CatalogPlanFeature :=
  { f with
    feature_inclusion := input.feature_inclusion
    addon_key := input.addon_key
    policy_id := input.policy_id
    status := input.status
    display_order := input.display_order
    max_active_devices := input.max_active_devices
    updated_at := now }

def catalogPlanFeatureUpsertStatement (planId : String) (input : CatalogPlanFeatureInput)
    (now : Int) : Stmt Store := fun time _ s =>
  if ∃ f ∈ s.catalog_plan_features, f.plan_id = planId ∧ f.feature_key = input.feature_key then
    s.updatePlanFeatures time (fun f => f.plan_id = planId ∧ f.feature_key = input.feature_key)
      (savedPlanFeature input now)
  else s.insertPlanFeature (catalogPlanFeatureRow planId input now)

def policyRow (id : String) (input : PolicyInput) (now : Int) : Policy where
  id := id
  project := input.project
  name := input.name
  type := input.type
  valid_from_offset_sec := input.valid_from_offset_sec
  duration_sec := input.duration_sec
  max_active_devices := input.max_active_devices
  expiry_strategy := input.expiry_strategy
  trial_expiration_basis := input.trial_expiration_basis
  trial_duration_sec := input.trial_duration_sec
  trial_one_per_device := input.trial_one_per_device
  notes := input.notes
  created_at := now
  updated_at := now

def patchedFeature (patch : CatalogTextPatch) (now : Int) (f : CatalogFeature) : CatalogFeature :=
  { f with
    name := patch.name.getD f.name
    description := patch.description.getD f.description
    category := patch.category.getD f.category
    updated_at := now }

def patchedPlan (patch : CatalogTextPatch) (now : Int) (p : CatalogPlan) : CatalogPlan :=
  { p with
    name := patch.name.getD p.name
    description := patch.description.getD p.description
    updated_at := now }

def patchedPolicy (patch : PolicyPatch) (now : Int) (p : Policy) : Policy :=
  { p with
    valid_from_offset_sec := patch.valid_from_offset_sec.getD p.valid_from_offset_sec
    duration_sec := patch.duration_sec.getD p.duration_sec
    max_active_devices := patch.max_active_devices.getD p.max_active_devices
    expiry_strategy := patch.expiry_strategy.getD p.expiry_strategy
    trial_expiration_basis := patch.trial_expiration_basis.getD p.trial_expiration_basis
    trial_duration_sec := patch.trial_duration_sec.getD p.trial_duration_sec
    trial_one_per_device := patch.trial_one_per_device.getD p.trial_one_per_device
    notes := patch.notes.getD p.notes
    updated_at := now }

/-- The write of an edit. The id is the random one of a new row. -/
def Edit.write (c : EditContext) (id : String) : Edit → Stmt Store
  | createFeature input => fun _ _ s => Store.onFeatures
      (inserted (s.catalog_features.insert (catalogFeatureRow ("feat_" ++ id) input c.now))) s
  | patchFeature existing patch => fun time _ s => Store.onFeatures
      (s.catalog_features.update time (·.id = existing.id) (patchedFeature patch c.now)) s
  | transitionFeature existing action _ => fun time _ s => Store.onFeatures
      (s.catalog_features.update time
        (fun f => f.id = existing.id ∧ f.status = action.expectedPrev)
        fun f => { f with status := action.next, updated_at := c.now }) s
  | createPlan input => fun _ _ s => Store.onPlans
      (inserted (s.catalog_plans.insert (catalogPlanRow ("plan_" ++ id) input c.now))) s
  | patchPlan existing patch => fun time _ s => Store.onPlans
      (s.catalog_plans.update time (·.id = existing.id) (patchedPlan patch c.now)) s
  | transitionPlan existing action _ => fun time _ s => Store.onPlans
      (s.catalog_plans.update time
        (fun p => p.id = existing.id ∧ p.status = action.expectedPrev)
        fun p => { p with status := action.next, updated_at := c.now }) s
  | savePlanFeature planId input _ => catalogPlanFeatureUpsertStatement planId input c.now
  | transitionPlanFeature existing action _ => fun time _ s => s.updatePlanFeatures time
      (fun f => f.sameRow existing ∧ f.status = action.expectedPrev)
      fun f => { f with status := action.next, updated_at := c.now }
  | createPolicy input => fun _ _ s => Store.onPolicies
      (inserted (s.entitlement_policies.insert (policyRow id input c.now))) s
  | patchPolicy existing patch => fun time _ s => Store.onPolicies
      (s.entitlement_policies.update time (·.id = existing.id) (patchedPolicy patch c.now)) s
  | transitionPolicy existing action _ => fun time _ s => Store.onPolicies
      (s.entitlement_policies.update time
        (fun p => p.id = existing.id ∧ p.status = action.expectedPrev)
        fun p => { p with status := action.next, updated_at := c.now }) s

/-- The audit row of an edit. -/
def Edit.audit (c : EditContext) (id : String) : Edit → Stmt Store
  | createFeature input => catalogFeatureAudit c .create "" ("feat_" ++ id) input.project none
  | patchFeature existing _ =>
    catalogFeatureAudit c .update "" existing.id existing.project (some existing)
  | transitionFeature existing action reason =>
    catalogFeatureAudit c action.event reason existing.id existing.project (some existing)
  | createPlan input => catalogPlanAudit c .create "" ("plan_" ++ id) input.project none
  | patchPlan existing _ =>
    catalogPlanAudit c .update "" existing.id existing.project (some existing)
  | transitionPlan existing action reason =>
    catalogPlanAudit c action.event reason existing.id existing.project (some existing)
  | savePlanFeature planId input existing =>
    catalogPlanFeatureAudit c (if existing.isNone then .create else .update) "" planId
      input.feature_key input.project existing
  | transitionPlanFeature existing action reason =>
    catalogPlanFeatureAudit c action.event reason existing.plan_id existing.feature_key
      existing.project (some existing)
  | createPolicy input => policyEventAudit c .create "" id input.project
  | patchPolicy existing _ => policyEventAudit c .update "" existing.id existing.project
  | transitionPolicy existing action reason =>
    policyEventAudit c action.event reason existing.id existing.project

/-- The batch of `writeCatalogWithAudit`, and of the writers of policies. -/
def Edit.batch (c : EditContext) (id : String) (e : Edit) : List (Stmt Store) :=
  [e.write c id, e.audit c id]

end Licensecc.Catalog
