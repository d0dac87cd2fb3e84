-- The export of a plan as a manifest. The exporter, the validators of the admin
-- API and those of an import are apart, so what an import accepts of an export is
-- a law of its own.
import Licensecc.Catalog.System

open Licensecc.Sql Licensecc.Conc

namespace Licensecc.Catalog

/-! ## The manifest of a plan -/

/-- A row of the features of an export. -/
def exportedFeature (f : CatalogFeature) : CatalogFeatureInput where
  project := f.project
  feature_key := f.feature_key
  name := f.name
  description := f.description
  category := f.category
  status := f.status

/-- The plan of an export. -/
def exportedPlan (p : CatalogPlan) : CatalogPlanInput where
  project := p.project
  plan_key := p.plan_key
  name := p.name
  description := p.description
  status := p.status
  version := p.version

/-- A plan feature of an export. -/
def exportedPlanFeature (f : CatalogPlanFeature) : CatalogPlanFeatureInput where
  project := f.project
  feature_key := f.feature_key
  feature_inclusion := f.feature_inclusion
  addon_key := f.addon_key
  policy_id := f.policy_id
  status := f.status
  display_order := f.display_order
  max_active_devices := f.max_active_devices

def statusJson : CatalogStatus → Value
  | .active => .string "active"
  | .disabled => .string "disabled"

def inclusionJson : FeatureInclusion → Value
  | .included => .string "included"
  | .addon => .string "addon"

def nullable {α : Type} (f : α → Value) : Option α → Value
  | none => .null
  | some a => f a

def featureJson (f : CatalogFeatureInput) : Value :=
  .object [("project", .string f.project), ("feature_key", .string f.feature_key),
    ("name", .string f.name), ("description", .string f.description),
    ("category", .string f.category), ("status", statusJson f.status)]

def planFeatureJson (f : CatalogPlanFeatureInput) : Value :=
  .object [("project", .string f.project), ("feature_key", .string f.feature_key),
    ("feature_inclusion", inclusionJson f.feature_inclusion),
    ("addon_key", nullable .string f.addon_key), ("policy_id", nullable .string f.policy_id),
    ("status", statusJson f.status), ("display_order", .number f.display_order),
    ("max_active_devices", nullable .number f.max_active_devices)]

def planJson (p : ManifestPlan) : Value :=
  .object [("project", .string p.project), ("plan_key", .string p.plan_key),
    ("name", .string p.name), ("description", .string p.description),
    ("status", statusJson p.status), ("version", .number p.version),
    ("features", .array (p.features.map planFeatureJson))]

/-- The body of an export. -/
def manifestJson (m : CatalogManifest) : Value :=
  .object [("format_version", .number 1), ("features", .array (m.features.map featureJson)),
    ("plans", .array (m.plans.map planJson))]

/-! ## The exporter -/

/-- The order of the rows: `display_order ASC, feature_key ASC`. -/
def DisplayLe (a b : CatalogPlanFeature) : Prop :=
  a.display_order < b.display_order ∨
    (a.display_order = b.display_order ∧ a.feature_key ≤ b.feature_key)

instance : DecidableRel DisplayLe := fun _ _ => inferInstanceAs (Decidable (_ ∨ _ ∧ _))

/-- The rows of a plan. -/
def planFeaturesOf (planId : String) (s : Store) : List CatalogPlanFeature :=
  (s.catalog_plan_features.rows.filter (·.plan_id = planId)).insertionSort DisplayLe

/-- The loop of the export over the rows of the plan, with the keys that it has
seen. -/
def exportFeatures : List CatalogPlanFeature → List (String × String) →
    Handler (List CatalogFeatureInput)
  | [], _ => pure []
  | row :: rest, seen =>
    if (row.project, row.feature_key) ∈ seen then exportFeatures rest seen
    else do
      let feature ← select fun s => s.catalog_features.find? fun f =>
        f.project = row.project ∧ f.feature_key = row.feature_key
      let features ← exportFeatures rest ((row.project, row.feature_key) :: seen)
      return match feature with
        | none => features
        | some f => exportedFeature f :: features

def exportCatalogPlan (planId : String) : Handler Value := do
  let row ← select fun s => s.catalog_plans.find? (·.id = planId)
  let plan ← found row "catalog_plan_not_found"
  let planFeatures ← select (planFeaturesOf planId)
  let features ← exportFeatures planFeatures []
  return manifestJson { features, plans := [{
    toCatalogPlanInput := exportedPlan plan
    features := planFeatures.map exportedPlanFeature }] }

/-! ## What the admin API stores -/

/-- A feature that the admin API can store. -/
structure StorableFeature (i : CatalogFeatureInput) : Prop where
  project : isCatalogIdentifier maxProjectSize i.project = true
  feature_key : isCatalogIdentifier maxFeatureSize i.feature_key = true
  name : isSafeString maxNameSize i.name = true
  description : isText maxNotesSize i.description = true
  category : isText maxNameSize i.category = true

/-- A plan that the admin API can store. -/
structure StorablePlan (i : CatalogPlanInput) : Prop where
  project : isCatalogIdentifier maxProjectSize i.project = true
  plan_key : isCatalogIdentifier 128 i.plan_key = true
  name : isSafeString maxNameSize i.name = true
  description : isText maxNotesSize i.description = true
  version : 1 ≤ i.version ∧ i.version ≤ 1000000

/-- A plan feature that the admin API can store. -/
structure StorablePlanFeature (i : CatalogPlanFeatureInput) : Prop where
  project : isCatalogIdentifier maxProjectSize i.project = true
  feature_key : isCatalogIdentifier maxFeatureSize i.feature_key = true
  inclusion : i.feature_inclusion = .addon ↔ i.addon_key ≠ none
  addon_key : ∀ k ∈ i.addon_key, isCatalogIdentifier 128 k = true
  policy_id : ∀ k ∈ i.policy_id, isCatalogIdentifier 128 k = true
  display_order : 0 ≤ i.display_order ∧ i.display_order ≤ 1000000
  max_active_devices : ∀ n ∈ i.max_active_devices, 0 ≤ n ∧ n ≤ maxDeviceLimit

theorem catalogIdentifier_some {n : Nat} {v : Option Value} {s : String}
    (h : catalogIdentifier n v = some s) : isCatalogIdentifier n s = true := by
  unfold catalogIdentifier at h
  split at h
  · obtain ⟨hs, heq⟩ := Option.ite_none_right_eq_some.mp h
    exact Option.some.inj heq ▸ hs
  · cases h

theorem nullableCatalogIdentifier_some {n : Nat} {v : Option Value} {s : String}
    (h : nullableCatalogIdentifier n v = some s) : isCatalogIdentifier n s = true := by
  unfold nullableCatalogIdentifier at h
  split at h
  · cases h
  · cases h
  · cases h
  · exact catalogIdentifier_some h

theorem safeString_some {n : Nat} {v : Option Value} {s : String} (h : safeString n v = some s) :
    isSafeString n s = true := by
  unfold safeString at h
  split at h
  · obtain ⟨hs, heq⟩ := Option.ite_none_right_eq_some.mp h
    exact Option.some.inj heq ▸ hs
  · cases h

theorem optionalCatalogText_some {n : Nat} {v : Option Value} {s : String}
    (h : optionalCatalogText n v = some s) : isText n s = true := by
  unfold optionalCatalogText at h
  split at h
  · obtain ⟨hs, heq⟩ := Option.ite_none_right_eq_some.mp h
    exact Option.some.inj heq ▸ hs
  · cases h

theorem optionalNotes_some {v : Option Value} {s : String} (h : optionalNotes v = some s) :
    isText maxNotesSize s = true := by
  unfold optionalNotes at h
  split at h
  · obtain rfl := Option.some.inj h
    decide
  · exact optionalCatalogText_some h

/-- A safe text is a text of one line. -/
theorem isText_of_safe {n : Nat} {s : String} (h : isSafeString n s = true) : isText n s = true := by
  simp only [isSafeString, Bool.and_eq_true] at h
  simp [isText, h.1.1.2, h.1.2]

/-- A field after a PATCH that meets the check of its texts. -/
theorem patched_text {n : Nat} {check : Nat → Option Value → Option String}
    {isGood : Nat → String → Bool} {v : Option Value} {new : Option String} {old : String}
    (hcheck : ∀ {v s}, check n v = some s → isGood n s = true) (hold : isGood n old = true)
    (h : patched (check n) v = some new) : isGood n (new.getD old) = true := by
  unfold patched at h
  split at h
  · obtain rfl := Option.some.inj h
    exact hold
  · obtain ⟨s, hs, rfl⟩ := Option.map_eq_some_iff.mp h
    exact hcheck hs

theorem validateCatalogFeatureInput_storable {value : Value} {i : CatalogFeatureInput}
    (h : validateCatalogFeatureInput value = some i) : StorableFeature i := by
  simp only [validateCatalogFeatureInput, Option.bind_eq_bind, Option.bind_eq_some_iff] at h
  obtain ⟨input, -, -, -, project, hproject, key, hkey, name, hname, description, hdescription,
    hrest⟩ := h
  have hstorable : ∀ category status, isText maxNameSize category = true →
      StorableFeature ⟨project, key, name, description, category, status⟩ := fun _ _ hcategory =>
    ⟨catalogIdentifier_some hproject, catalogIdentifier_some hkey, safeString_some hname,
      optionalNotes_some hdescription, hcategory⟩
  split at hrest
  · -- a feature with no category has the empty one
    simp only [Option.bind_some, Option.bind_eq_some_iff] at hrest
    obtain ⟨status, -, heq⟩ := hrest
    obtain rfl := Option.some.inj heq
    exact hstorable _ _ (by decide)
  · simp only [Option.bind_eq_some_iff] at hrest
    obtain ⟨category, hcategory, status, -, heq⟩ := hrest
    obtain rfl := Option.some.inj heq
    exact hstorable _ _ (isText_of_safe (safeString_some hcategory))

theorem boundedIntOr_some {dflt lo hi n : Int} {v : Option Value} (hd : lo ≤ dflt ∧ dflt ≤ hi)
    (h : boundedIntOr dflt lo hi v = some n) : lo ≤ n ∧ n ≤ hi := by
  unfold boundedIntOr at h
  split at h
  · exact Option.some.inj h ▸ hd
  · exact Option.some.inj h ▸ hd
  · obtain ⟨hn, heq⟩ := Option.ite_none_right_eq_some.mp h
    exact Option.some.inj heq ▸ hn
  · cases h

theorem validateCatalogPlanInput_storable {allow : Bool} {value : Value} {i : CatalogPlanInput}
    (h : validateCatalogPlanInput allow value = some i) : StorablePlan i := by
  simp only [validateCatalogPlanInput, Option.bind_eq_bind, Option.bind_eq_some_iff] at h
  obtain ⟨input, -, -, -, project, hproject, key, hkey, name, hname, description, hdescription,
    status, -, version, hversion, heq⟩ := h
  obtain rfl := Option.some.inj heq
  exact ⟨catalogIdentifier_some hproject, catalogIdentifier_some hkey, safeString_some hname,
    optionalNotes_some hdescription, boundedIntOr_some (by decide) hversion⟩

theorem readNullableNonNegativeInt_some {hi n : Int} {v : Option Value}
    (h : readNullableNonNegativeInt hi v = some (some n)) : 0 ≤ n ∧ n ≤ hi := by
  unfold readNullableNonNegativeInt at h
  split at h
  · cases h
  · cases h
  · cases h
  · obtain ⟨hn, heq⟩ := Option.ite_none_right_eq_some.mp h
    obtain rfl := Option.some.inj (Option.some.inj heq)
    exact hn
  · cases h

theorem validateCatalogPlanFeatureInput_storable {value : Value} {i : CatalogPlanFeatureInput}
    (h : validateCatalogPlanFeatureInput value = some i) : StorablePlanFeature i := by
  simp only [validateCatalogPlanFeatureInput, Option.bind_eq_bind, Option.bind_eq_some_iff,
    guard_eq_some] at h
  obtain ⟨input, -, -, -, project, hproject, key, hkey, inclusion, -, status, -, order, horder,
    devices, hdevices, -, haddon, heq⟩ := h
  obtain rfl := Option.some.inj heq
  refine ⟨catalogIdentifier_some hproject, catalogIdentifier_some hkey, ?_, fun k hk => ?_,
    fun k hk => nullableCatalogIdentifier_some hk, boundedIntOr_some (by decide) horder,
    fun n hn => ?_⟩
  · by_cases hi : inclusion = .addon
    · simp only [hi, if_true, true_iff]
      exact haddon.resolve_left (not_not_intro hi)
    · simp [hi]
  · obtain ⟨-, hk⟩ := Option.ite_none_right_eq_some.mp hk
    exact nullableCatalogIdentifier_some hk
  · obtain rfl := Option.mem_def.mp hn
    exact readNullableNonNegativeInt_some hdevices

end Licensecc.Catalog
