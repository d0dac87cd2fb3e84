-- The actions of a plan projection: the grants that an apply creates, changes
-- and disables, and the values that it writes. A preview keeps them with the
-- assignment of the license.
import Licensecc.Projection.Plan

open Licensecc.Sql

namespace Licensecc

/-! ## Actions -/

structure CreateAction where
  id : List Char
  desired : Desired

structure UpdateAction where
  id : List Char
  desired : Desired
  previous : EntitlementRecord

structure DisableAction where
  id : List Char
  previous : EntitlementRecord

structure PlanActions where
  created : List CreateAction := []
  updated : List UpdateAction := []
  disabled : List DisableAction := []

/-- `actionId`. -/
def actionId (d : Desired) : List Char := entitlementId d.input.toEntitlementKey

/-- The first loop of `deriveActions`. -/
def deriveDesired (existingRows : List EntitlementRecord) (a : PlanActions) (desired : Desired) :
    PlanActions :=
  match byFeature (·.feature) existingRows desired.input.feature with
  | none => { a with created := a.created ++ [⟨actionId desired, desired⟩] }
  | some existing =>
    if existing.status ≠ .revoked ∧ planProjectionMatchesDesired existing desired = false then
      { a with updated := a.updated ++ [⟨actionId desired, desired, existing⟩] }
    else a

/-- The second loop of `deriveActions`. -/
def deriveExisting (desired : List Desired) (a : PlanActions) (existing : EntitlementRecord) :
    PlanActions :=
  if (byFeature (·.input.feature) desired existing.feature).isSome ∨ existing.status = .revoked ∨
      existing.status = .disabled then a
  else
    { a with disabled := a.disabled ++ [⟨entitlementId existing.toEntitlementKey, existing⟩] }

def deriveActions (desired : List Desired) (existingRows : List EntitlementRecord) : PlanActions :=
  existingRows.foldl (deriveExisting desired) (desired.foldl (deriveDesired existingRows) {})

/-- `assertAtomicActionCapacity` accepts the actions. -/
def PlanActions.fits (a : PlanActions) : Bool :=
  a.created.length + a.updated.length + a.disabled.length ≤ 9

/-! ## Values -/

/-- What `valuesForDesired` gives after the key. -/
structure DesiredValues extends EntitlementKey where
  status : EntitlementStatus
  valid_from : Option Int
  valid_until : Option Int
  notes : String
  customer_id : String
  license_id : Option String
  policy_id : Option String
  max_active_devices : Int
  is_trial : Int
  trial_expiration_basis : Option String
  trial_duration_sec : Int
  trial_one_per_device : Int

/-- `valuesForDesired`, which refuses a grant with no owner. -/
def valuesForDesired (d : Desired) : Except String DesiredValues :=
  match d.input.customer_id with
  | none => throw "invalid_patch"
  | some customer_id =>
    if customer_id = "" then throw "invalid_patch"
    else
      return {
        toEntitlementKey := d.input.toEntitlementKey
        status := d.input.status
        valid_from := d.input.valid_from
        valid_until := d.input.valid_until
        notes := d.input.notes
        customer_id
        license_id := d.input.license_id
        policy_id := d.policy_id
        max_active_devices := d.max_active_devices
        is_trial := d.trial.is_trial
        trial_expiration_basis := d.trial.trial_expiration_basis
        trial_duration_sec := d.trial.trial_duration_sec
        trial_one_per_device := d.trial.trial_one_per_device }

/-- `desiredSatisfiedSql`: each column `IS` the value. -/
@[mk_iff] structure DesiredSatisfied (v : DesiredValues) (e : Entitlement) : Prop where
  status : e.status = v.status
  valid_from : e.valid_from = v.valid_from
  valid_until : e.valid_until = v.valid_until
  notes : e.notes = v.notes
  customer_id : e.customer_id = v.customer_id
  license_id : e.license_id = v.license_id
  policy_id : e.policy_id = v.policy_id
  max_active_devices : e.max_active_devices = v.max_active_devices
  is_trial : e.is_trial = v.is_trial
  trial_expiration_basis : e.trial_expiration_basis = v.trial_expiration_basis
  trial_duration_sec : e.trial_duration_sec = v.trial_duration_sec
  trial_one_per_device : e.trial_one_per_device = v.trial_one_per_device

instance (v : DesiredValues) : DecidablePred (DesiredSatisfied v) :=
  fun _ => decidable_of_iff _ (desiredSatisfied_iff ..).symm

/-! ## Assignments -/

inductive AssignmentStatus where
  | active
  | disabled
  | revoked
  deriving DecidableEq

/-- A row of `license_plan_assignments`. -/
structure Assignment where
  license_id : String
  project : String
  plan_id : String
  license_fingerprint : String
  customer_id : Option String
  status : AssignmentStatus := .active
  support_until : Option Int
  addons_json : List String := []
  created_at : Int
  updated_at : Int
  deriving DecidableEq

instance : Schema Assignment where
  check _ := True
  clash a b := a.license_id = b.license_id ∧ a.project = b.project
  clash_symm := fun h => ⟨h.1.symm, h.2.symm⟩
  decCheck := fun _ => inferInstance
  decClash := fun _ _ => inferInstance

/-- A row of `license_plan_assignment_events`; the flag is `event_type = 'create'`. -/
structure AssignmentEvent where
  license_id : String
  project : String
  plan_id : String
  license_fingerprint : String
  isCreate : Bool
  actor : String
  actor_type : ActorType
  source : MutationSource
  request_id : String
  prev_json : Option Assignment
  next_json : Assignment
  reason : String
  idempotency_key : Option String
  created_at : Int
  deriving DecidableEq

/-! ## Previews -/

/-- The answer of a preview. -/
structure ProjectionPreview extends PlanClassification where
  preview_id : String
  effective_at : Int
  expires_at : Int
  source_generation : Int
  deriving DecidableEq

/-- `data.applied` of a success of an apply. -/
structure AppliedRows where
  created : List EntitlementRecord
  updated : List EntitlementRecord
  disabled : List EntitlementRecord
  assignment : Option Assignment
  deriving DecidableEq

structure ProjectionResponse where
  code : String
  request_id : String
  data : ProjectionPreview
  applied : AppliedRows
  deriving DecidableEq

/-- The document `actions_json`. -/
structure ProjectionActions extends PlanActions where
  projection_snapshot_version : Int := 3
  assignment : PlanAssignment
  assignment_snapshot : Option Assignment

/-- A row of `license_plan_projection_previews`. -/
structure ProjectionPreviewRow where
  id : String
  actor_subject : String
  source_generation : Int
  projection_json : ProjectionPreview
  actions_json : ProjectionActions
  effective_at : Int
  expires_at : Int
  claim_token : Option String := none
  claimed_at : Option Int := none
  consumed_at : Option Int := none
  applied_response_json : Option ProjectionResponse := none
  created_at : Int

instance : Schema ProjectionPreviewRow where
  check _ := True
  clash a b := a.id = b.id
  clash_symm := Eq.symm
  decCheck := fun _ => inferInstance
  decClash := fun _ _ => inferInstance

end Licensecc
