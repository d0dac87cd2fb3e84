-- The laws of the classes of a projection: every feature stands in one class
-- and once, and the classes name the grants of the derived actions.
import Licensecc.Projection.Actions

open Licensecc.Sql

namespace Licensecc

/-! ## The pure model -/

inductive PlanClass where
  | create
  | update
  | disable
  | blocked
  | unchanged
  deriving DecidableEq

def Buckets.get (b : Buckets) : PlanClass → List ProjectionSummary
  | .create => b.will_create
  | .update => b.will_update
  | .disable => b.will_disable
  | .blocked => b.blocked
  | .unchanged => b.unchanged

/-- The class of a grant that the plan asks for, with its line. -/
def desiredLine (input : ProjectionInput) (existingRows : List EntitlementRecord) (d : Desired) :
    PlanClass × ProjectionSummary :=
  let line := summarizeDesired d
  match byFeature (·.feature) existingRows d.input.feature with
  | some existing =>
    if existing.status = .revoked then (.blocked, { line with reason := some "revoked_entitlement" })
    else if input.owned = false then (.blocked, { line with reason := some "owner_required" })
    else if planProjectionMatchesDesired existing d then (.unchanged, line)
    else (.update, { line with previous_status := some existing.status })
  | none =>
    if input.owned = false then (.blocked, { line with reason := some "owner_required" })
    else (.create, line)

/-- The class of a grant that the plan does not ask for, with its line. -/
def existingLine (row : EntitlementRecord) : PlanClass × ProjectionSummary :=
  let line := summarizeExisting row "not_in_plan"
  if row.status = .revoked ∨ row.status = .disabled then (.unchanged, line) else (.disable, line)

/-- The grants that the plan does not ask for. -/
def notInPlan (desired : List Desired) (existingRows : List EntitlementRecord) :
    List EntitlementRecord :=
  existingRows.filter fun row => (byFeature (·.input.feature) desired row.feature).isNone

theorem notInPlan_cons {desired : List Desired} (row : EntitlementRecord)
    (rows : List EntitlementRecord) :
    notInPlan desired (row :: rows) = notInPlan desired [row] ++ notInPlan desired rows := by
  unfold notInPlan
  rw [← List.filter_append, List.singleton_append]

/-- All lines of a classification with their classes. -/
def planLines (input : ProjectionInput) (desired : List Desired)
    (existingRows : List EntitlementRecord) : List (PlanClass × ProjectionSummary) :=
  desired.map (desiredLine input existingRows) ++ (notInPlan desired existingRows).map existingLine

/-- The lines of one class. -/
def linesOf (c : PlanClass) (lines : List (PlanClass × ProjectionSummary)) :
    List ProjectionSummary :=
  (lines.filter (·.1 = c)).map (·.2)

/-! ## Rows by feature -/

section
variable {α : Type} {feature : α → String} {rows : List α} {f : String} {r : α}

theorem byFeature_some (h : byFeature feature rows f = some r) : r ∈ rows ∧ feature r = f := by
  unfold byFeature at h
  have hm := List.mem_of_find?_eq_some h
  have hp := List.find?_some h
  simp only [List.mem_reverse] at hm
  exact ⟨hm, by simpa using hp⟩

theorem byFeature_none : byFeature feature rows f = none ↔ ∀ r ∈ rows, feature r ≠ f := by
  unfold byFeature
  simp

theorem byFeature_eq (hn : (rows.map feature).Nodup) (hr : r ∈ rows) :
    byFeature feature rows (feature r) = some r := by
  cases h : byFeature feature rows (feature r) with
  | none => exact absurd rfl (byFeature_none.mp h r hr)
  | some a =>
    obtain ⟨ha, hf⟩ := byFeature_some h
    rw [List.inj_on_of_nodup_map hn ha hr hf]

theorem byFeature_isNone :
    (byFeature feature rows f).isNone = true ↔ f ∉ rows.map feature := by
  rw [Option.isNone_iff_eq_none, byFeature_none]
  simp

end

/-! ## The loops -/

variable {input : ProjectionInput} {desired : List Desired} {existingRows : List EntitlementRecord}

@[simp] theorem linesOf_nil {c : PlanClass} : linesOf c [] = [] := rfl

theorem linesOf_cons {c : PlanClass} (l : PlanClass × ProjectionSummary)
    (ls : List (PlanClass × ProjectionSummary)) :
    linesOf c (l :: ls) = linesOf c [l] ++ linesOf c ls := by
  unfold linesOf
  by_cases h : l.1 = c
  · simp [h]
  · simp [h]

theorem linesOf_append {c : PlanClass} {ls ls' : List (PlanClass × ProjectionSummary)} :
    linesOf c (ls ++ ls') = linesOf c ls ++ linesOf c ls' := by
  simp [linesOf]

/-- A step of the first loop adds one line to one class. -/
theorem classifyDesired_get (b : Buckets) (d : Desired) (c : PlanClass) :
    (classifyDesired input existingRows b d).get c =
      b.get c ++ linesOf c [desiredLine input existingRows d] := by
  unfold classifyDesired desiredLine linesOf
  cases byFeature (·.feature) existingRows d.input.feature with
  | none =>
    by_cases ho : input.owned = false
    · cases c <;> simp [ho, Buckets.get]
    · cases c <;> simp [ho, Buckets.get]
  | some existing =>
    by_cases hr : existing.status = .revoked
    · cases c <;> simp [hr, Buckets.get]
    · by_cases ho : input.owned = false
      · cases c <;> simp [hr, ho, Buckets.get]
      · by_cases hm : planProjectionMatchesDesired existing d = true
        · cases c <;> simp [hr, ho, hm, Buckets.get]
        · cases c <;> simp [hr, ho, hm, Buckets.get]

theorem foldl_classifyDesired (b : Buckets) (ds : List Desired) (c : PlanClass) :
    (ds.foldl (classifyDesired input existingRows) b).get c =
      b.get c ++ linesOf c (ds.map (desiredLine input existingRows)) := by
  induction ds generalizing b with
  | nil => simp
  | cons d ds ih =>
    rw [List.foldl_cons, ih, classifyDesired_get, List.map_cons, linesOf_cons _ (ds.map _),
      List.append_assoc]

/-- A step of the second loop adds one line for a grant that is not in the plan. -/
theorem classifyExisting_get (b : Buckets) (row : EntitlementRecord) (c : PlanClass) :
    (classifyExisting desired b row).get c =
      b.get c ++ linesOf c ((notInPlan desired [row]).map existingLine) := by
  unfold classifyExisting notInPlan linesOf existingLine
  cases hb : byFeature (·.input.feature) desired row.feature with
  | some d => simp [hb]
  | none =>
    by_cases hs : row.status = .revoked ∨ row.status = .disabled
    · cases c <;> simp [hb, hs, Buckets.get]
    · cases c <;> simp [hb, hs, Buckets.get]

theorem foldl_classifyExisting (b : Buckets) (rows : List EntitlementRecord) (c : PlanClass) :
    (rows.foldl (classifyExisting desired) b).get c =
      b.get c ++ linesOf c ((notInPlan desired rows).map existingLine) := by
  induction rows generalizing b with
  | nil => simp [notInPlan]
  | cons row rows ih =>
    rw [List.foldl_cons, ih, classifyExisting_get, notInPlan_cons row rows, List.map_append,
      linesOf_append, List.append_assoc]

/-- The classes hold the lines of their class, in order. -/
theorem classifyBuckets_get (c : PlanClass) :
    (classifyBuckets input desired existingRows).get c =
      linesOf c (planLines input desired existingRows) := by
  unfold classifyBuckets planLines
  have hempty : ({} : Buckets).get c = [] := by cases c <;> rfl
  rw [foldl_classifyExisting, foldl_classifyDesired, linesOf_append, hempty, List.nil_append]

/-! ## One class for each feature -/

@[simp] theorem desiredLine_key (d : Desired) :
    (desiredLine input existingRows d).2.toEntitlementKey = d.input.toEntitlementKey := by
  unfold desiredLine
  cases byFeature (·.feature) existingRows d.input.feature with
  | none =>
    dsimp only
    split <;> rfl
  | some existing =>
    dsimp only
    split
    · rfl
    · split
      · rfl
      · split <;> rfl

@[simp] theorem existingLine_key (row : EntitlementRecord) :
    (existingLine row).2.toEntitlementKey = row.toEntitlementKey := by
  unfold existingLine
  dsimp only
  split <;> rfl

/-- The features of all lines, in order. -/
theorem planLines_features : (planLines input desired existingRows).map (·.2.feature) =
    desired.map (·.input.feature) ++ (notInPlan desired existingRows).map (·.feature) := by
  unfold planLines
  rw [List.map_append, List.map_map, List.map_map]
  congr 1
  · refine List.map_congr_left fun d _ => ?_
    exact congrArg (·.feature) (desiredLine_key d)
  · refine List.map_congr_left fun row _ => ?_
    exact congrArg (·.feature) (existingLine_key row)

theorem mem_planLines_features {f : String} :
    f ∈ (planLines input desired existingRows).map (·.2.feature) ↔
      f ∈ desired.map (·.input.feature) ∨ f ∈ existingRows.map (·.feature) := by
  rw [planLines_features, List.mem_append]
  constructor
  · rintro (h | h)
    · exact .inl h
    · obtain ⟨row, hrow, rfl⟩ := List.mem_map.mp h
      exact .inr (List.mem_map_of_mem (List.mem_filter.mp hrow).1)
  · intro h
    by_cases hd : f ∈ desired.map (·.input.feature)
    · exact .inl hd
    · obtain ⟨row, hrow, rfl⟩ := List.mem_map.mp (h.resolve_left hd)
      exact .inr (List.mem_map_of_mem (List.mem_filter.mpr ⟨hrow, byFeature_isNone.mpr hd⟩))

/-- No feature has two lines. -/
theorem planLines_nodup (hd : (desired.map (·.input.feature)).Nodup)
    (he : (existingRows.map (·.feature)).Nodup) :
    ((planLines input desired existingRows).map (·.2.feature)).Nodup := by
  rw [planLines_features, List.nodup_append]
  refine ⟨hd, he.sublist (List.Sublist.map _ List.filter_sublist), ?_⟩
  intro a ha b hb hab
  obtain ⟨row, hrow, rfl⟩ := List.mem_map.mp hb
  have hnot := byFeature_isNone.mp (List.mem_filter.mp hrow).2
  exact hnot (hab ▸ ha)

theorem mem_linesOf {c : PlanClass} {lines : List (PlanClass × ProjectionSummary)}
    {l : ProjectionSummary} : l ∈ linesOf c lines ↔ (c, l) ∈ lines := by
  unfold linesOf
  simp

/-- Lines with no feature twice put each feature in one class. -/
theorem class_unique {lines : List (PlanClass × ProjectionSummary)}
    (hn : (lines.map (·.2.feature)).Nodup) {c c' : PlanClass} {f : String}
    (h : f ∈ (linesOf c lines).map (·.feature)) (h' : f ∈ (linesOf c' lines).map (·.feature)) :
    c = c' := by
  obtain ⟨l, hl, hf⟩ := List.mem_map.mp h
  obtain ⟨l', hl', hf'⟩ := List.mem_map.mp h'
  have heq := List.inj_on_of_nodup_map hn (mem_linesOf.mp hl) (mem_linesOf.mp hl')
    (hf.trans hf'.symm)
  exact congrArg Prod.fst heq

theorem linesOf_nodup {lines : List (PlanClass × ProjectionSummary)}
    (hn : (lines.map (·.2.feature)).Nodup) (c : PlanClass) :
    ((linesOf c lines).map (·.feature)).Nodup := by
  unfold linesOf
  rw [List.map_map]
  exact hn.sublist (List.Sublist.map _ List.filter_sublist)

/-- A feature of the lines stands in the class of its line. -/
theorem exists_class {lines : List (PlanClass × ProjectionSummary)} {f : String} :
    f ∈ lines.map (·.2.feature) ↔ ∃ c, f ∈ (linesOf c lines).map (·.feature) := by
  constructor
  · intro h
    obtain ⟨l, hl, rfl⟩ := List.mem_map.mp h
    exact ⟨l.1, List.mem_map_of_mem (mem_linesOf.mpr hl)⟩
  · rintro ⟨c, h⟩
    obtain ⟨l, hl, rfl⟩ := List.mem_map.mp h
    exact List.mem_map_of_mem (f := (·.2.feature)) (mem_linesOf.mp hl)

/-! ## The classes and the actions -/

/-- The action of a grant that the license has and that is not as the plan asks. -/
def updateAction (existingRows : List EntitlementRecord) (d : Desired) : Option UpdateAction :=
  match byFeature (·.feature) existingRows d.input.feature with
  | none => none
  | some existing =>
    if existing.status ≠ .revoked ∧ planProjectionMatchesDesired existing d = false then
      some ⟨actionId d, d, existing⟩
    else none

/-- A grant that an apply disables when the plan does not ask for it. -/
def mayDisable (row : EntitlementRecord) : Bool :=
  !(row.status == .revoked || row.status == .disabled)

theorem deriveDesired_cases (a : PlanActions) (d : Desired) :
    deriveDesired existingRows a d = {
      a with
      created := a.created ++ if (byFeature (·.feature) existingRows d.input.feature).isNone then
        [⟨actionId d, d⟩] else []
      updated := a.updated ++ (updateAction existingRows d).toList } := by
  unfold deriveDesired updateAction
  cases byFeature (·.feature) existingRows d.input.feature with
  | none => simp
  | some existing =>
    by_cases h : existing.status ≠ .revoked ∧ planProjectionMatchesDesired existing d = false
    · simp [h]
    · simp [h]

theorem foldl_deriveDesired (a : PlanActions) (ds : List Desired) :
    ds.foldl (deriveDesired existingRows) a = {
      a with
      created := a.created ++
        (ds.filter fun d => (byFeature (·.feature) existingRows d.input.feature).isNone).map
          fun d => ⟨actionId d, d⟩
      updated := a.updated ++ ds.filterMap (updateAction existingRows) } := by
  induction ds generalizing a with
  | nil => simp
  | cons d ds ih =>
    rw [List.foldl_cons, ih, deriveDesired_cases]
    by_cases hn : (byFeature (·.feature) existingRows d.input.feature).isNone = true
    · cases hu : updateAction existingRows d <;> simp [hn, hu]
    · cases hu : updateAction existingRows d <;> simp [hn, hu]

theorem deriveExisting_cases (a : PlanActions) (row : EntitlementRecord) :
    deriveExisting desired a row = {
      a with
      disabled := a.disabled ++ ((notInPlan desired [row]).filter mayDisable).map
        fun r => ⟨entitlementId r.toEntitlementKey, r⟩ } := by
  unfold deriveExisting notInPlan mayDisable
  cases hb : byFeature (·.input.feature) desired row.feature with
  | some d => simp [hb]
  | none =>
    by_cases hs : row.status = .revoked ∨ row.status = .disabled
    · rcases hs with hs | hs <;> simp [hb, hs]
    · rw [not_or] at hs
      simp [hb, hs]

theorem foldl_deriveExisting (a : PlanActions) (rows : List EntitlementRecord) :
    rows.foldl (deriveExisting desired) a = {
      a with
      disabled := a.disabled ++ ((notInPlan desired rows).filter mayDisable).map
        fun r => ⟨entitlementId r.toEntitlementKey, r⟩ } := by
  induction rows generalizing a with
  | nil => simp [notInPlan]
  | cons row rows ih =>
    rw [List.foldl_cons, ih, deriveExisting_cases, notInPlan_cons row rows]
    simp

/-- The actions of a projection, as one selection for each kind. -/
theorem deriveActions_eq : deriveActions desired existingRows = {
    created := (desired.filter fun d =>
      (byFeature (·.feature) existingRows d.input.feature).isNone).map fun d => ⟨actionId d, d⟩
    updated := desired.filterMap (updateAction existingRows)
    disabled := ((notInPlan desired existingRows).filter mayDisable).map
      fun r => ⟨entitlementId r.toEntitlementKey, r⟩ } := by
  unfold deriveActions
  rw [foldl_deriveExisting, foldl_deriveDesired]
  rfl

/-- The keys that a class shows. -/
def classKeys (input : ProjectionInput) (desired : List Desired)
    (existingRows : List EntitlementRecord) (c : PlanClass) : List EntitlementKey :=
  ((classifyBuckets input desired existingRows).get c).map (·.toEntitlementKey)

theorem classKeys_eq (c : PlanClass) : classKeys input desired existingRows c =
    (desired.filter fun d => (desiredLine input existingRows d).1 = c).map
        (·.input.toEntitlementKey) ++
      ((notInPlan desired existingRows).filter fun r => (existingLine r).1 = c).map
        (·.toEntitlementKey) := by
  unfold classKeys
  rw [classifyBuckets_get]
  unfold planLines linesOf
  simp [List.filter_map, Function.comp_def]

theorem existingLine_class (row : EntitlementRecord) :
    (existingLine row).1 = if mayDisable row then .disable else .unchanged := by
  unfold existingLine mayDisable
  by_cases hs : row.status = .revoked ∨ row.status = .disabled
  · rcases hs with hs | hs <;> simp [hs]
  · rw [not_or] at hs
    simp [hs]

/-- Where nothing is blocked, the class of a desired grant is the kind of its
action. -/
theorem desiredLine_class {d : Desired} (h : (desiredLine input existingRows d).1 ≠ .blocked) :
    (desiredLine input existingRows d).1 =
      if (byFeature (·.feature) existingRows d.input.feature).isNone then .create
      else if (updateAction existingRows d).isSome then .update else .unchanged := by
  unfold desiredLine updateAction at *
  cases hb : byFeature (·.feature) existingRows d.input.feature with
  | none =>
    by_cases ho : input.owned = false
    · simp [hb, ho] at h
    · simp [ho]
  | some existing =>
    by_cases hr : existing.status = .revoked
    · simp [hb, hr] at h
    · by_cases ho : input.owned = false
      · simp [hb, hr, ho] at h
      · by_cases hm : planProjectionMatchesDesired existing d = true
        · simp [hr, ho, hm]
        · simp [hr, ho, hm]

/-- A desired grant whose row is revoked or matches asks for no write. -/
theorem desiredLine_settled {d : Desired} {row : EntitlementRecord}
    (h : byFeature (·.feature) existingRows d.input.feature = some row)
    (hs : row.status = .revoked ∨ planProjectionMatchesDesired row d = true) :
    (desiredLine input existingRows d).1 = .blocked ∨
      (desiredLine input existingRows d).1 = .unchanged := by
  unfold desiredLine
  simp only [h]
  by_cases hr : row.status = .revoked
  · exact .inl (by rw [if_pos hr])
  · by_cases ho : input.owned = false
    · exact .inl (by rw [if_neg hr, if_pos ho])
    · exact .inr (by rw [if_neg hr, if_neg ho, if_pos (hs.resolve_left hr)])

/-- An update names the grant that the plan asks for. -/
theorem updateAction_desired {d : Desired} {a : UpdateAction}
    (h : updateAction existingRows d = some a) : a.desired = d := by
  unfold updateAction at h
  cases hb : byFeature (·.feature) existingRows d.input.feature with
  | none => simp [hb] at h
  | some existing =>
    simp only [hb, Option.ite_none_right_eq_some] at h
    rw [← Option.some.inj h.2]

theorem updateAction_keys (ds : List Desired) :
    (ds.filter fun d => (updateAction existingRows d).isSome).map (·.input.toEntitlementKey) =
      (ds.filterMap (updateAction existingRows)).map (·.desired.input.toEntitlementKey) := by
  induction ds with
  | nil => rfl
  | cons d ds ih =>
    cases hu : updateAction existingRows d with
    | none => simpa [hu] using ih
    | some a => simpa [hu, updateAction_desired hu] using ih

theorem not_blocked (h : (classifyBuckets input desired existingRows).blocked = []) {d : Desired}
    (hd : d ∈ desired) : (desiredLine input existingRows d).1 ≠ .blocked := by
  intro hb
  have hempty : linesOf .blocked (planLines input desired existingRows) = [] := by
    rw [← classifyBuckets_get]
    exact h
  have hmem : desiredLine input existingRows d ∈ planLines input desired existingRows :=
    List.mem_append_left _ (List.mem_map_of_mem hd)
  have hline : (desiredLine input existingRows d).2 ∈
      linesOf .blocked (planLines input desired existingRows) :=
    mem_linesOf.mpr (hb ▸ hmem)
  rw [hempty] at hline
  cases hline

section
variable (h : (classifyBuckets input desired existingRows).blocked = [])
include h

theorem create_keys : classKeys input desired existingRows .create =
    (deriveActions desired existingRows).created.map (·.desired.input.toEntitlementKey) := by
  have hnone : (notInPlan desired existingRows).filter
      (fun r => (existingLine r).1 = .create) = [] := by
    refine List.filter_eq_nil_iff.mpr fun r _ => ?_
    rw [existingLine_class]
    by_cases hm : mayDisable r = true <;> simp [hm]
  rw [classKeys_eq, hnone, deriveActions_eq, List.map_nil, List.append_nil, List.map_map]
  refine congrArg (List.map _) (List.filter_congr fun d hd => ?_)
  rw [desiredLine_class (not_blocked h hd)]
  by_cases hn : (byFeature (·.feature) existingRows d.input.feature).isNone = true
  · simp [hn]
  · by_cases hu : (updateAction existingRows d).isSome = true <;> simp [hn, hu]

theorem update_keys : classKeys input desired existingRows .update =
    (deriveActions desired existingRows).updated.map (·.desired.input.toEntitlementKey) := by
  have hnone : (notInPlan desired existingRows).filter
      (fun r => (existingLine r).1 = .update) = [] := by
    refine List.filter_eq_nil_iff.mpr fun r _ => ?_
    rw [existingLine_class]
    by_cases hm : mayDisable r = true <;> simp [hm]
  rw [classKeys_eq, hnone, deriveActions_eq, List.map_nil, List.append_nil]
  have hfilter : desired.filter (fun d => (desiredLine input existingRows d).1 = .update) =
      desired.filter fun d => (updateAction existingRows d).isSome := by
    refine List.filter_congr fun d hd => ?_
    rw [desiredLine_class (not_blocked h hd)]
    unfold updateAction
    cases byFeature (·.feature) existingRows d.input.feature with
    | none => simp
    | some existing =>
      by_cases hs : existing.status ≠ .revoked ∧ planProjectionMatchesDesired existing d = false
      · simp [hs]
      · simp [hs]
  rw [hfilter]
  exact updateAction_keys desired

theorem disable_keys : classKeys input desired existingRows .disable =
    (deriveActions desired existingRows).disabled.map (·.previous.toEntitlementKey) := by
  have hnone : desired.filter (fun d => (desiredLine input existingRows d).1 = .disable) = [] := by
    refine List.filter_eq_nil_iff.mpr fun d hd => ?_
    rw [desiredLine_class (not_blocked h hd)]
    by_cases hn : (byFeature (·.feature) existingRows d.input.feature).isNone = true
    · simp [hn]
    · by_cases hu : (updateAction existingRows d).isSome = true <;> simp [hn, hu]
  rw [classKeys_eq, hnone, deriveActions_eq, List.map_nil, List.nil_append, List.map_map]
  refine congrArg (List.map _) (List.filter_congr fun r _ => ?_)
  rw [existingLine_class]
  by_cases hm : mayDisable r = true <;> simp [hm]

end

end Licensecc
