-- The domain of a plan projection: the grants that a plan asks of a license,
-- and how they compare with the grants that the license has. Every feature
-- falls in one class, and a class says what an apply would do.
import Licensecc.Grants.Record
import Licensecc.Schema.Catalog

open Licensecc.Sql

namespace Licensecc

/-! ## Policy stamps -/

/-- The operator's values for a stamp. `none` is an absent field, and `some none`
a field that is null. -/
structure StampOverrides extends EntitlementKey where
  valid_from : Option (Option Int) := none
  valid_until : Option (Option Int) := none
  notes : Option String := none
  customer_id : Option String := none
  license_id : Option String := none
  max_active_devices : Option Int := none

/-- `EntitlementInput`. -/
structure EntitlementInput extends EntitlementKey where
  status : EntitlementStatus
  valid_from : Option Int
  valid_until : Option Int
  notes : String
  customer_id : Option String
  license_id : Option String

structure GrantTrial where
  is_trial : Int
  trial_expiration_basis : Option String
  trial_duration_sec : Int
  trial_one_per_device : Int

def zeroTrial : GrantTrial := ⟨0, none, 0, 0⟩

structure Stamp where
  input : EntitlementInput
  max_active_devices : Int
  trial : GrantTrial

def trialBases : List String := ["from_issue", "from_first_activation", "from_first_use"]

/-- The basis of a trial, as `stampFromPolicy` reads it. -/
def Policy.basis (p : Policy) : String :=
  if p.trial_expiration_basis ∈ trialBases then p.trial_expiration_basis else "from_issue"

/-- Where a stamp starts: the override, else the offset of the policy, else open. -/
def Policy.startOf (p : Policy) (o : StampOverrides) (now : Int) : Option Int :=
  match o.valid_from with
  | some v => v
  | none => p.valid_from_offset_sec.map (now + ·)

/-- Where a stamp ends: the override, else what the type of the policy says. -/
def Policy.endOf (p : Policy) (o : StampOverrides) (now : Int) : Option Int :=
  let start := (p.startOf o now).getD now
  match o.valid_until with
  | some v => v
  | none =>
    if p.expiry_strategy = .non_expiring then none
    else if p.type = .trial then
      if p.basis = "from_issue" ∧ p.trial_duration_sec > 0 then some (start + p.trial_duration_sec)
      else none
    else p.duration_sec.map (start + ·)

/-- A start that is not before the end is left open. -/
def openStart (start stop : Option Int) : Option Int :=
  match start, stop with
  | some s, some e => if s ≥ e then none else some s
  | _, _ => start

def stampFromPolicy (p : Policy) (o : StampOverrides) (now : Int) : Stamp where
  input := {
    toEntitlementKey := o.toEntitlementKey
    status := .active
    valid_from := openStart (p.startOf o now) (p.endOf o now)
    valid_until := p.endOf o now
    notes := o.notes.getD ""
    customer_id := o.customer_id
    license_id := o.license_id }
  max_active_devices := o.max_active_devices.getD p.max_active_devices
  trial :=
    if p.type = .trial then ⟨1, some p.basis, p.trial_duration_sec, p.trial_one_per_device⟩
    else zeroTrial

/-! ## Desired grants -/

/-- The value of `normalizePlanProjectionInput`. -/
structure ProjectionInput where
  project : String
  license_id : String
  license_fingerprint : String
  customer_id : Option String := none
  plan_id : Option String := none
  plan_key : Option String := none
  support_until : Option Int := none
  support_until_provided : Bool := false
  addons : List String := []
  notes : String := ""

/-- A row of `planFeatureStatement`: a plan feature with its feature and its policy. -/
structure PlanFeatureRow extends CatalogPlanFeature where
  feature_name : String
  policy : Option Policy

/-- A grant that the plan asks for. -/
structure Desired where
  input : EntitlementInput
  policy_id : Option String
  max_active_devices : Int
  trial : GrantTrial
  source : FeatureInclusion
  addon_key : Option String
  feature_name : String

/-- The device limit of the plan feature itself: a count that is not negative. -/
def deviceLimitOverride (row : PlanFeatureRow) : Option Int :=
  row.max_active_devices.filter (0 ≤ ·)

/-- The end of the support window, when the input names one. -/
def ProjectionInput.supportOverride (input : ProjectionInput) : Option (Option Int) :=
  if input.support_until_provided then some input.support_until else none

def desiredPlanProjectionRow (row : PlanFeatureRow) (input : ProjectionInput) (now : Int) :
    Desired :=
  let key : EntitlementKey := ⟨input.project, row.feature_key, input.license_fingerprint⟩
  let stamp : Stamp := match row.policy with
    | none =>
      { input := {
          toEntitlementKey := key
          status := .active
          valid_from := none
          valid_until := if input.support_until_provided then input.support_until else none
          notes := input.notes
          customer_id := input.customer_id
          license_id := some input.license_id }
        max_active_devices := (deviceLimitOverride row).getD 1
        trial := zeroTrial }
    | some policy =>
      stampFromPolicy policy
        { toEntitlementKey := key
          valid_until := input.supportOverride
          notes := some input.notes
          customer_id := input.customer_id
          license_id := some input.license_id
          max_active_devices := deviceLimitOverride row } now
  { input := stamp.input
    policy_id := row.policy.map (·.id)
    max_active_devices := stamp.max_active_devices
    trial := stamp.trial
    source := row.feature_inclusion
    addon_key :=
      if row.feature_inclusion = .addon then some (row.addon_key.getD row.feature_key) else none
    feature_name := row.feature_name }

/-- What holds of every grant that an input asks for: it is an active grant of
the license and of the owner that the input names. -/
structure Asks (input : ProjectionInput) (d : Desired) : Prop where
  project : d.input.project = input.project
  fingerprint : d.input.license_fingerprint = input.license_fingerprint
  active : d.input.status = .active
  owner : d.input.customer_id = input.customer_id
  license : d.input.license_id = some input.license_id

theorem desiredPlanProjectionRow_asks (row : PlanFeatureRow) (input : ProjectionInput)
    (now : Int) : Asks input (desiredPlanProjectionRow row input now) := by
  unfold desiredPlanProjectionRow
  cases row.policy with
  | none => exact ⟨rfl, rfl, rfl, rfl, rfl⟩
  | some p => exact ⟨rfl, rfl, rfl, rfl, rfl⟩

@[simp] theorem desiredPlanProjectionRow_feature (row : PlanFeatureRow) (input : ProjectionInput)
    (now : Int) : (desiredPlanProjectionRow row input now).input.feature = row.feature_key := by
  unfold desiredPlanProjectionRow
  cases row.policy with
  | none => rfl
  | some p => rfl

/-! ## Comparison -/

/-- `planProjectionMatchesDesired`. -/
def planProjectionMatchesDesired (existing : EntitlementRecord) (desired : Desired) : Bool :=
  existing.status == .active &&
    existing.valid_from == desired.input.valid_from &&
    existing.valid_until == desired.input.valid_until &&
    existing.notes == desired.input.notes &&
    some existing.customer_id == desired.input.customer_id &&
    existing.license_id == desired.input.license_id &&
    existing.policy_id == desired.policy_id &&
    existing.max_active_devices == desired.max_active_devices &&
    existing.is_trial == desired.trial.is_trial &&
    existing.trial_expiration_basis == desired.trial.trial_expiration_basis &&
    existing.trial_duration_sec == desired.trial.trial_duration_sec &&
    existing.trial_one_per_device == desired.trial.trial_one_per_device

/-! ## Classification -/

/-- One line of a preview. -/
structure ProjectionSummary extends EntitlementKey where
  policy_id : Option String
  source : FeatureInclusion
  addon_key : Option String
  license_mode : LicenseMode
  status : EntitlementStatus
  valid_from : Option Int
  valid_until : Option Int
  max_active_devices : Int
  reason : Option String := none
  previous_status : Option EntitlementStatus := none
  deriving DecidableEq

def summarizeDesired (d : Desired) : ProjectionSummary where
  toEntitlementKey := d.input.toEntitlementKey
  policy_id := d.policy_id
  source := d.source
  addon_key := d.addon_key
  license_mode := effectiveLicenseMode d.trial.is_trial
  status := d.input.status
  valid_from := d.input.valid_from
  valid_until := d.input.valid_until
  max_active_devices := d.max_active_devices

def summarizeExisting (row : EntitlementRecord) (reason : String) : ProjectionSummary where
  toEntitlementKey := row.toEntitlementKey
  policy_id := row.policy_id
  source := .included
  addon_key := none
  license_mode := effectiveLicenseMode row.is_trial
  status := row.status
  valid_from := row.valid_from
  valid_until := row.valid_until
  max_active_devices := row.max_active_devices
  reason := some reason

/-- The five classes of a classification. -/
structure Buckets where
  will_create : List ProjectionSummary := []
  will_update : List ProjectionSummary := []
  will_disable : List ProjectionSummary := []
  blocked : List ProjectionSummary := []
  unchanged : List ProjectionSummary := []
  deriving DecidableEq

/-- The last row of a feature, as a `Map` by feature gives it. -/
def byFeature {α : Type} (feature : α → String) (rows : List α) (f : String) : Option α :=
  rows.reverse.find? (feature · == f)

/-- The input names an owner. -/
def ProjectionInput.owned (input : ProjectionInput) : Bool :=
  match input.customer_id with
  | some id => id != ""
  | none => false

/-- The first loop of `classifyPlanProjection`. -/
def classifyDesired (input : ProjectionInput) (existingRows : List EntitlementRecord)
    (b : Buckets) (target : Desired) : Buckets :=
  let line := summarizeDesired target
  match byFeature (·.feature) existingRows target.input.feature with
  | some existing =>
    if existing.status = .revoked then
      { b with blocked := b.blocked ++ [{ line with reason := some "revoked_entitlement" }] }
    else if input.owned = false then
      { b with blocked := b.blocked ++ [{ line with reason := some "owner_required" }] }
    else if planProjectionMatchesDesired existing target then
      { b with unchanged := b.unchanged ++ [line] }
    else
      { b with will_update := b.will_update ++
          [{ line with previous_status := some existing.status }] }
  | none =>
    if input.owned = false then
      { b with blocked := b.blocked ++ [{ line with reason := some "owner_required" }] }
    else { b with will_create := b.will_create ++ [line] }

/-- The second loop of `classifyPlanProjection`. -/
def classifyExisting (desired : List Desired) (b : Buckets) (existing : EntitlementRecord) :
    Buckets :=
  if (byFeature (·.input.feature) desired existing.feature).isSome then b
  else if existing.status = .revoked ∨ existing.status = .disabled then
    { b with unchanged := b.unchanged ++ [summarizeExisting existing "not_in_plan"] }
  else { b with will_disable := b.will_disable ++ [summarizeExisting existing "not_in_plan"] }

def classifyBuckets (input : ProjectionInput) (desired : List Desired)
    (existingRows : List EntitlementRecord) : Buckets :=
  existingRows.foldl (classifyExisting desired)
    (desired.foldl (classifyDesired input existingRows) {})

structure PlanAssignment where
  project : String
  license_id : String
  license_fingerprint : String
  customer_id : Option String
  plan_id : String
  plan_key : String
  support_until : Option Int
  addons : List String
  deriving DecidableEq

/-- The counts of the classes. -/
structure ProjectionCounts where
  create : Nat
  update : Nat
  disable : Nat
  blocked : Nat
  unchanged : Nat
  deriving DecidableEq

structure PlanClassification extends Buckets where
  plan : CatalogPlan
  assignment : PlanAssignment
  desired : List ProjectionSummary
  summary : ProjectionCounts
  deriving DecidableEq

def planAssignment (input : ProjectionInput) (plan : CatalogPlan) : PlanAssignment where
  project := input.project
  license_id := input.license_id
  license_fingerprint := input.license_fingerprint
  customer_id := input.customer_id
  plan_id := plan.id
  plan_key := plan.plan_key
  support_until := input.support_until
  addons := input.addons

/-- `classifyPlanProjection`. -/
def classifyPlanProjection (input : ProjectionInput) (plan : CatalogPlan) (desired : List Desired)
    (existingRows : List EntitlementRecord) : PlanClassification :=
  let b := classifyBuckets input desired existingRows
  { toBuckets := b
    plan := plan
    assignment := planAssignment input plan
    desired := desired.map summarizeDesired
    summary := ⟨b.will_create.length, b.will_update.length, b.will_disable.length,
      b.blocked.length, b.unchanged.length⟩ }

end Licensecc
