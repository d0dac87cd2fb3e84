-- The snapshot of a plan preview: one read of the plan, of its features with
-- their policies, and of the grants of the license. What the preview asks for
-- comes from these rows.
import Licensecc.Projection.Agreement

open Licensecc.Sql

namespace Licensecc.Projection

/-! ## The plan -/

/-- `planFilterSql`: the plan by its id, else by its key. -/
def planFilter (input : ProjectionInput) (p : CatalogPlan) : Prop :=
  p.project = input.project ∧ match input.plan_id with
    | some id => p.id = id
    | none => input.plan_key = some p.plan_key

instance (input : ProjectionInput) : DecidablePred (planFilter input) := fun p => by
  unfold planFilter
  cases input.plan_id with
  | none => exact inferInstanceAs (Decidable (_ ∧ _))
  | some id => exact inferInstanceAs (Decidable (_ ∧ _))

/-- One row of the join of `planFeatureStatement`. -/
def planFeatureRow (input : ProjectionInput) (s : Store) (pf : CatalogPlanFeature) :
    Option PlanFeatureRow := do
  let plan ← s.catalog_plans.find? fun p => p.project = pf.project ∧ p.id = pf.plan_id
  let feature ← s.catalog_features.find? fun f =>
    f.project = pf.project ∧ f.feature_key = pf.feature_key
  if planFilter input plan ∧ pf.status = .active ∧ feature.status = .active then
    some {
      toCatalogPlanFeature := pf
      feature_name := feature.name
      policy := pf.policy_id.bind fun id => s.entitlement_policies.find? (·.id = id) }
  else none

/-- `ORDER BY pf.display_order ASC, pf.feature_key ASC`. -/
def DisplayLe (a b : PlanFeatureRow) : Prop :=
  a.display_order < b.display_order ∨
    (a.display_order = b.display_order ∧ a.feature_key ≤ b.feature_key)

instance : DecidableRel DisplayLe := fun _ _ => inferInstanceAs (Decidable (_ ∨ _ ∧ _))

/-- The rows of `planFeatureStatement`. -/
def planFeatureRows (input : ProjectionInput) (s : Store) : List PlanFeatureRow :=
  (s.catalog_plan_features.rows.filterMap (planFeatureRow input s)).insertionSort DisplayLe

/-- The checks of `selectedPlanRows` on the policy of a row. -/
def checkPolicy (plan : CatalogPlan) (row : PlanFeatureRow) : Except String Unit :=
  match row.policy with
  | none =>
    match row.policy_id with
    | some id => throw s!"policy_not_found:{id}"
    | none => return ()
  | some policy =>
    if policy.project ≠ plan.project then throw s!"policy_project_mismatch:{policy.id}"
    else if policy.status ≠ .active then throw s!"policy_disabled:{policy.id}"
    else return ()

/-- A row is in the plan for these add-ons. -/
def inPlan (addons : List String) (row : PlanFeatureRow) : Bool :=
  row.feature_inclusion != .addon || addons.contains (row.addon_key.getD row.feature_key) ||
    addons.contains row.feature_key

def checkAddon (rows : List PlanFeatureRow) (addon : String) : Except String Unit :=
  if rows.any fun row => row.feature_inclusion == .addon &&
      (row.addon_key.getD row.feature_key == addon || row.feature_key == addon) then return ()
  else throw s!"unknown_addon:{addon}"

/-- `selectedPlanRows`. -/
def selectedPlanRows (rows : List PlanFeatureRow) (plan : CatalogPlan) (addons : List String) :
    Except String (List PlanFeatureRow) := do
  rows.forM (checkPolicy plan)
  addons.forM (checkAddon rows)
  return rows.filter (inPlan addons)

/-! ## The snapshot -/

structure ProjectionSnapshot where
  plan : CatalogPlan
  desired : List Desired
  existingRows : List EntitlementRecord
  assignmentSnapshot : Option Assignment
  sourceGeneration : Int

/-- `entitlementFingerprintConflictStatement` has a row. -/
def fingerprintConflict (input : ProjectionInput) (s : Store) : Prop :=
  ∃ e ∈ s.entitlements, e.project = input.project ∧ e.license_id = some input.license_id ∧
    e.license_fingerprint ≠ input.license_fingerprint

instance (input : ProjectionInput) (s : Store) : Decidable (fingerprintConflict input s) :=
  inferInstanceAs (Decidable (∃ _ ∈ _, _))

/-- `buildProjectionSnapshot`. -/
def buildProjectionSnapshot (input : ProjectionInput) (effectiveAt : Int) (s : Store) :
    Except String ProjectionSnapshot := do
  match s.catalog_plans.find? (planFilter input) with
  | none => throw "plan_not_found"
  | some plan =>
    ensure (plan.status = .active) "plan_disabled"
    let rows ← selectedPlanRows (planFeatureRows input s) plan input.addons
    let assignment := s.license_plan_assignments.find? fun a =>
      a.license_id = input.license_id ∧ a.project = input.project
    ensure (¬ fingerprintConflict input s ∧
      assignment.all (·.license_fingerprint = input.license_fingerprint) = true)
      "license_fingerprint_conflict"
    return {
      plan
      desired := rows.map (desiredPlanProjectionRow · input effectiveAt)
      existingRows := existingRows input s
      assignmentSnapshot := assignment
      sourceGeneration := s.generation }

variable {input : ProjectionInput} {effectiveAt : Int} {s : Store}

/-- Two plans that a filter accepts are one plan. -/
theorem planFilter_unique {p p' : CatalogPlan} (hp : p ∈ s.catalog_plans)
    (hp' : p' ∈ s.catalog_plans) (h : planFilter input p) (h' : planFilter input p') : p = p' := by
  unfold planFilter at h h'
  cases hid : input.plan_id with
  | none =>
    rw [hid] at h h'
    have hkey : p.plan_key = p'.plan_key := Option.some.inj (h.2.symm.trans h'.2)
    exact Table.unique hp hp' (.inr ⟨h.1.trans h'.1.symm, hkey⟩)
  | some id =>
    rw [hid] at h h'
    exact Table.unique hp hp' (.inl (h.2.trans h'.2.symm))

theorem planFeatureRow_some {pf : CatalogPlanFeature} {row : PlanFeatureRow}
    (h : planFeatureRow input s pf = some row) : row.toCatalogPlanFeature = pf ∧
      (∃ p ∈ s.catalog_plans, planFilter input p ∧ p.project = pf.project ∧ p.id = pf.plan_id) ∧
      ∃ f ∈ s.catalog_features, f.project = input.project ∧ f.feature_key = row.feature_key := by
  simp only [planFeatureRow, Option.bind_eq_bind, Option.bind_eq_some_iff,
    Option.ite_none_right_eq_some, Option.some.injEq] at h
  obtain ⟨plan, hplan, feature, hfeature, hc, rfl⟩ := h
  obtain ⟨hp, hproject, hid⟩ := Table.find?_some hplan
  obtain ⟨hf, hfp, hfk⟩ := Table.find?_some hfeature
  refine ⟨rfl, ⟨plan, hp, hc.1, hproject, hid⟩, feature, hf, ?_, hfk⟩
  rw [hfp, ← hproject]
  exact hc.1.1

theorem mem_planFeatureRows {row : PlanFeatureRow} (h : row ∈ planFeatureRows input s) :
    ∃ pf ∈ s.catalog_plan_features, planFeatureRow input s pf = some row := by
  unfold planFeatureRows at h
  rw [List.mem_insertionSort, List.mem_filterMap] at h
  exact h

/-- A plan has one row for each feature. -/
theorem planFeatureRows_nodup : ((planFeatureRows input s).map (·.feature_key)).Nodup := by
  unfold planFeatureRows
  rw [((List.perm_insertionSort _ _).map _).nodup_iff, List.Nodup, List.pairwise_map,
    List.pairwise_filterMap]
  refine s.catalog_plan_features.distinct.imp ?_
  intro a b hclash row hrow row' hrow' hkey
  obtain ⟨rfl, ⟨p, hp, hfilter, -, hid⟩, -⟩ := planFeatureRow_some hrow
  obtain ⟨rfl, ⟨p', hp', hfilter', -, hid'⟩, -⟩ := planFeatureRow_some hrow'
  obtain rfl := planFilter_unique hp hp' hfilter hfilter'
  exact hclash (.inl ⟨hid.symm.trans hid', hkey⟩)

theorem selectedPlanRows_ok {rows selected : List PlanFeatureRow} {plan : CatalogPlan}
    {addons : List String} (h : selectedPlanRows rows plan addons = .ok selected) :
    selected = rows.filter (inPlan addons) := by
  obtain ⟨-, h⟩ := unit_bind_eq_ok.mp h
  obtain ⟨-, h⟩ := unit_bind_eq_ok.mp h
  exact (Except.ok.inj h).symm

/-- What a preview asks for meets the conditions of an apply. -/
theorem snapshot_wanted {snapshot : ProjectionSnapshot}
    (h : buildProjectionSnapshot input effectiveAt s = .ok snapshot) :
    Wanted input snapshot.desired s ∧ snapshot.existingRows = existingRows input s := by
  unfold buildProjectionSnapshot at h
  split at h
  · cases h
  · rename_i plan hplan
    obtain ⟨-, h⟩ := ensure_bind_eq_ok.mp h
    obtain ⟨rows, hrows, h⟩ := bind_eq_ok.mp h
    obtain ⟨-, h⟩ := ensure_bind_eq_ok.mp h
    obtain rfl := Except.ok.inj h
    obtain rfl := selectedPlanRows_ok hrows
    refine ⟨⟨?_, ?_, ?_⟩, rfl⟩
    · rw [List.map_map]
      have hfeature : (fun d : Desired => d.input.feature) ∘
          (desiredPlanProjectionRow · input effectiveAt) = (·.feature_key) :=
        funext fun row => desiredPlanProjectionRow_feature row input effectiveAt
      rw [hfeature]
      exact planFeatureRows_nodup.sublist (List.filter_sublist.map _)
    · intro d hd
      obtain ⟨row, -, rfl⟩ := List.mem_map.mp hd
      exact desiredPlanProjectionRow_asks row input effectiveAt
    · intro d hd
      obtain ⟨row, hrow, rfl⟩ := List.mem_map.mp hd
      obtain ⟨pf, -, hpf⟩ := mem_planFeatureRows (List.mem_filter.mp hrow).1
      rw [desiredPlanProjectionRow_feature]
      exact (planFeatureRow_some hpf).2.2

/-! ## The result -/

/-- The features that a class of a classification shows. -/
def classFeatures (c : PlanClassification) (k : PlanClass) : List String :=
  (c.toBuckets.get k).map (·.feature)

/-- Every feature stands in one class of a classification and stands there
once. Where nothing is blocked, the classes show the keys of the actions. The
matcher of the preview and the predicate of the apply accept the same rows. An
apply that succeeds leaves nothing to create, to update or to disable. -/
theorem a_projection_shows_writes_and_checks_the_same_grants (input : ProjectionInput)
    (plan : CatalogPlan) (desired : List Desired) :
    (∀ rows : List EntitlementRecord, (desired.map (·.input.feature)).Nodup →
      (rows.map (·.feature)).Nodup →
      let c := classifyPlanProjection input plan desired rows
      (∀ f, (f ∈ desired.map (·.input.feature) ∨ f ∈ rows.map (·.feature)) ↔
        ∃ k, f ∈ classFeatures c k) ∧
      (∀ f k k', f ∈ classFeatures c k → f ∈ classFeatures c k' → k = k') ∧
      ∀ k, (classFeatures c k).Nodup) ∧
    (∀ rows : List EntitlementRecord,
      let c := classifyPlanProjection input plan desired rows
      let actions := deriveActions desired rows
      c.blocked = [] →
        c.will_create.map (·.toEntitlementKey) =
          actions.created.map (·.desired.input.toEntitlementKey) ∧
        c.will_update.map (·.toEntitlementKey) =
          actions.updated.map (·.desired.input.toEntitlementKey) ∧
        c.will_disable.map (·.toEntitlementKey) =
          actions.disabled.map (·.previous.toEntitlementKey)) ∧
    (∀ d ∈ desired, Asks input d → ∀ v, valuesForDesired d = .ok v → ∀ e : Entitlement,
      planProjectionMatchesDesired (withId e) d = true ↔ DesiredSatisfied v e) ∧
    ∀ (s s' : Store) (r : ApplyRun) (actions : ProjectionActions) (batch : List (Stmt Store))
      (clock : Nat → Int) (ns : List Nat), Wanted input desired s →
      actions.toPlanActions = deriveActions desired (existingRows input s) →
      projectionBatch r actions = .ok batch → runBatch batch clock 0 s = .ok (ns, s') →
      ns.head? ≠ some 0 →
      let c := classifyPlanProjection input plan desired (existingRows input s')
      c.will_create = [] ∧ c.will_update = [] ∧ c.will_disable = [] := by
  refine ⟨?_, ?_, ?_, ?_⟩
  · intro rows hd hr
    have hn : ((planLines input desired rows).map (·.2.feature)).Nodup := planLines_nodup hd hr
    have hget : ∀ k, classFeatures (classifyPlanProjection input plan desired rows) k =
        (linesOf k (planLines input desired rows)).map (·.feature) :=
      fun k => congrArg (List.map _) (classifyBuckets_get k)
    simp only [hget]
    refine ⟨fun f => ?_, fun f k k' => class_unique hn, linesOf_nodup hn⟩
    rw [← mem_planLines_features, exists_class]
  · intro rows c actions hblocked
    exact ⟨create_keys hblocked, update_keys hblocked, disable_keys hblocked⟩
  · intro d _ hasks v hv e
    exact matches_iff_satisfied hv hasks.active e
  · intro s s' r actions batch clock ns hw hactions hbatch hrun hclaim
    obtain ⟨blocks, s₁, s₂, clock', changes', ms, hblocks, hbefore, hclaimed, hgrants, hafter⟩ :=
      projectionBatch_parts hbatch hrun hclaim
    have hkeys : (blocks.map (·.action.key)).Nodup := by
      rw [grantBlocks_keys hblocks, hactions]
      exact (action_features_nodup hw.nodup existingRows_nodup).of_map
    obtain ⟨happ, hframe⟩ := blocks_apply (grantBlocks_local hblocks) hkeys hclaimed hgrants
    have hx : Executed r input desired blocks s s' := by
      refine ⟨hactions ▸ hblocks, fun b hb => ?_, fun e he => ?_, ?_⟩
      · obtain ⟨e, he, hk⟩ := happ b hb
        exact ⟨e, hafter.entitlements ▸ he, hk⟩
      · rw [hafter.entitlements, hframe.others e he, hbefore.entitlements]
      · rw [hafter.features, hframe.features, hbefore.features]
    exact ⟨settled_classes hw hx (.inl rfl), settled_classes hw hx (.inr (.inl rfl)),
      settled_classes hw hx (.inr (.inr rfl))⟩

/-! ## An apply that creates, updates and disables -/

def exampleFeature (id feature_key : String) : CatalogFeature where
  id := id
  project := "p"
  feature_key := feature_key
  name := feature_key
  created_at := 0
  updated_at := 0

def exampleInput : ProjectionInput where
  project := "p"
  license_id := "L"
  license_fingerprint := "l"
  customer_id := some "alice"
  plan_id := some "plan"

def exampleRow (feature_key : String) : PlanFeatureRow where
  project := "p"
  plan_id := "plan"
  feature_key := feature_key
  created_at := 0
  updated_at := 0
  feature_name := feature_key
  policy := none

def exampleDesired : List Desired :=
  ["f", "g"].map fun key => desiredPlanProjectionRow (exampleRow key) exampleInput 10

def examplePlan : CatalogPlan where
  id := "plan"
  project := "p"
  plan_key := "k"
  name := "n"
  created_at := 0
  updated_at := 0

/-- The grants `f` and `h` of a license, and a catalog with `g` too. -/
def exampleGrants : Except Abort Store := do
  let entitlements ← Table.empty.insert
    { exampleEntitlement with license_id := some "L", max_active_devices := 2 }
  let entitlements ← entitlements.insert
    { exampleEntitlement with feature := "h", license_id := some "L" }
  let catalog_features ← Table.empty.insert (exampleFeature "1" "f")
  let catalog_features ← catalog_features.insert (exampleFeature "2" "g")
  let catalog_features ← catalog_features.insert (exampleFeature "3" "h")
  return { entitlements, catalog_features }

def exampleActions (s : Store) : ProjectionActions where
  toPlanActions := deriveActions exampleDesired (existingRows exampleInput s)
  assignment := planAssignment exampleInput examplePlan
  assignment_snapshot := none

def examplePreview (s : Store) : ProjectionPreviewRow where
  id := "ppv"
  actor_subject := "op"
  source_generation := 0
  projection_json := {
    toPlanClassification :=
      classifyPlanProjection exampleInput examplePlan exampleDesired (existingRows exampleInput s)
    preview_id := "ppv"
    effective_at := 10
    expires_at := 310
    source_generation := 0 }
  actions_json := exampleActions s
  effective_at := 10
  expires_at := 310
  created_at := 10

/-- The state in which the operator applies the preview. -/
def exampleStore : Store :=
  match exampleGrants with
  | .error _ => {}
  | .ok s =>
    match Table.empty.insert (examplePreview s) with
    | .error _ => {}
    | .ok license_plan_projection_previews => { s with license_plan_projection_previews }

def exampleRun : ApplyRun where
  previewId := "ppv"
  claimToken := "token"
  ctx := { requestId := "r", actor := ⟨"op", "", .access⟩ }
  scope := none
  now := 20

/-- The batch of the apply and the number of rows that its statements change:
each of the 18 changes one row. -/
def exampleCounts : Except String (Option (List Nat)) := do
  let batch ← projectionBatch exampleRun (exampleActions exampleStore)
  return (runBatch batch (fun _ => 20) 0 exampleStore).toOption.map (·.1)

set_option maxRecDepth 20000 in
theorem exampleCounts_eq : exampleCounts = .ok (some (List.replicate 18 1)) := by
  decide

set_option maxRecDepth 20000 in
theorem exampleStore_wanted : Wanted exampleInput exampleDesired exampleStore := by
  refine ⟨by decide, fun d hd => ?_, by decide⟩
  obtain ⟨key, -, rfl⟩ := List.mem_map.mp hd
  exact desiredPlanProjectionRow_asks (exampleRow key) exampleInput 10

/-- The apply of the example succeeds, and its plan then asks for nothing
more. -/
theorem the_example_plan_is_settled : ∃ batch ns s',
    projectionBatch exampleRun (exampleActions exampleStore) = .ok batch ∧
    runBatch batch (fun _ => 20) 0 exampleStore = .ok (ns, s') ∧ ns.length = 18 ∧
    let c := classifyPlanProjection exampleInput examplePlan exampleDesired
      (existingRows exampleInput s')
    c.will_create = [] ∧ c.will_update = [] ∧ c.will_disable = [] := by
  obtain ⟨batch, hbatch, hrun⟩ := store_eq_ok.mp exampleCounts_eq
  cases h : runBatch batch (fun _ => 20) 0 exampleStore with
  | error e =>
    rw [h] at hrun
    cases hrun
  | ok p =>
    have hns : p.1 = List.replicate 18 1 := by
      rw [h] at hrun
      exact (Option.some.inj hrun).symm
    refine ⟨batch, p.1, p.2, hbatch, h, by rw [hns]; rfl, ?_⟩
    exact (a_projection_shows_writes_and_checks_the_same_grants exampleInput examplePlan
      exampleDesired).2.2.2 exampleStore p.2 exampleRun (exampleActions exampleStore) batch _ p.1
      exampleStore_wanted rfl hbatch h (by rw [hns]; decide)

end Licensecc.Projection
