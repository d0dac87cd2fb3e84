-- The round trip of an export. The validators of an import accept each row that the
-- catalog can hold apart from some categories, so a plan comes back unchanged
-- exactly when its features have a category, its policies are active and it is of
-- a size that an import takes.
import Licensecc.Catalog.Sound

open Licensecc.Sql Licensecc.Conc

namespace Licensecc.Catalog

variable {s : Store} {w w₀ : CatalogWorld} {m : CatalogManifest} {ids : NewIds} {effectiveAt : Int}

/-! ## The validators on an export -/

@[simp] theorem catalogStatus_json (status : CatalogStatus) :
    catalogStatus (some (statusJson status)) = some status := by
  cases status <;> rfl

@[simp] theorem featureInclusion_json (inclusion : FeatureInclusion) :
    featureInclusion (some (inclusionJson inclusion)) = some inclusion := by
  cases inclusion <;> rfl

theorem catalogIdentifier_text {n : Nat} {s : String} (h : isCatalogIdentifier n s = true) :
    catalogIdentifier n (some (.string s)) = some s := if_pos h

theorem safeString_text {n : Nat} {s : String} (h : isSafeString n s = true) :
    safeString n (some (.string s)) = some s := if_pos h

theorem optionalNotes_text {s : String} (h : isText maxNotesSize s = true) :
    optionalNotes (some (.string s)) = some s := if_pos h

theorem boundedIntOr_number {dflt lo hi n : Int} (h : lo ≤ n ∧ n ≤ hi) :
    boundedIntOr dflt lo hi (some (.number n)) = some n := if_pos h

theorem nullableCatalogIdentifier_json {n : Nat} {k : Option String}
    (h : ∀ s ∈ k, isCatalogIdentifier n s = true) :
    nullableCatalogIdentifier n (some (nullable .string k)) = k := by
  cases k with
  | none => rfl
  | some s =>
    have hs := h s rfl
    simp only [nullable]
    unfold nullableCatalogIdentifier
    split
    · simp at *
    · simp at *
    · rename_i heq
      obtain rfl := Value.string.inj (Option.some.inj heq)
      simp [isCatalogIdentifier, isSafeString] at hs
    · exact catalogIdentifier_text hs

theorem readNullableNonNegativeInt_json {hi : Int} {n : Option Int}
    (h : ∀ k ∈ n, 0 ≤ k ∧ k ≤ hi) :
    readNullableNonNegativeInt hi (some (nullable .number n)) = some n := by
  cases n with
  | none => rfl
  | some k => exact if_pos (h k rfl)

/-- An import accepts an exported feature exactly when its category is one that a new
feature can have. -/
theorem validate_featureJson {i j : CatalogFeatureInput} (h : StorableFeature i) :
    validateCatalogFeatureInput (featureJson i) = some j ↔
      isSafeString maxNameSize i.category = true ∧ j = i := by
  have hfields : validateCatalogFeatureInput (featureJson i) =
      (safeString maxNameSize (some (.string i.category))).bind fun category =>
        some { i with category } := by
    simp [validateCatalogFeatureInput, featureJson, Value.fields, Value.get, hasOnlyKeys,
      catalogIdentifier_text h.project, catalogIdentifier_text h.feature_key,
      safeString_text h.name, optionalNotes_text h.description]
  rw [hfields, safeString]
  by_cases hc : isSafeString maxNameSize i.category = true
  · simp only [hc, if_true, Option.bind_some, true_and, Option.some.injEq]
    exact eq_comm
  · simp [hc]

theorem validate_planJson {p : ManifestPlan} (h : StorablePlan p.toCatalogPlanInput) :
    validateCatalogPlanInput true (planJson p) = some p.toCatalogPlanInput := by
  simp [validateCatalogPlanInput, planJson, Value.fields, Value.get, hasOnlyKeys,
    catalogIdentifier_text h.project, catalogIdentifier_text h.plan_key, safeString_text h.name,
    optionalNotes_text h.description, boundedIntOr_number h.version]

theorem validate_planFeatureJson {i : CatalogPlanFeatureInput} (h : StorablePlanFeature i) :
    validateCatalogPlanFeatureInput (planFeatureJson i) = some i := by
  have haddon : (if i.addon_key = none then none else i.addon_key) = i.addon_key := by
    by_cases hi : i.addon_key = none
    · rw [if_pos hi, hi]
    · rw [if_neg hi]
  simp [validateCatalogPlanFeatureInput, planFeatureJson, Value.fields, Value.get, hasOnlyKeys,
    catalogIdentifier_text h.project, catalogIdentifier_text h.feature_key,
    nullableCatalogIdentifier_json h.addon_key, nullableCatalogIdentifier_json h.policy_id,
    boundedIntOr_number h.display_order, readNullableNonNegativeInt_json h.max_active_devices,
    haddon, guard, h.inclusion, imp_iff_not_or.symm]

/-- The features that an import reads back, with the keys that it has seen. -/
theorem validateFeatures_json {fs : List CatalogFeatureInput} {seen : List (String × String)}
    (hall : ∀ f ∈ fs, StorableFeature f ∧ isSafeString maxNameSize f.category = true)
    (hd : (fs.map (·.key)).Nodup) (hseen : ∀ f ∈ fs, f.key ∉ seen) :
    validateFeatures (fs.map featureJson) seen = some fs := by
  induction fs generalizing seen with
  | nil => rfl
  | cons f rest ih =>
    obtain ⟨hstorable, hsafe⟩ := hall f List.mem_cons_self
    rw [List.map_cons, List.nodup_cons] at hd
    have hrest : validateFeatures (rest.map featureJson) (f.key :: seen) = some rest := by
      refine ih (fun g hg => hall g (List.mem_cons_of_mem _ hg)) hd.2 fun g hg hmem => ?_
      rcases List.mem_cons.mp hmem with hk | hmem
      · exact hd.1 (List.mem_map.mpr ⟨g, hg, hk⟩)
      · exact hseen g (List.mem_cons_of_mem _ hg) hmem
    simp [validateFeatures, (validate_featureJson hstorable).mpr ⟨hsafe, rfl⟩,
      hseen f List.mem_cons_self, hrest, guard]

/-- An import that reads features back has found their categories. -/
theorem categories_of_validated {fs out : List CatalogFeatureInput} {seen : List (String × String)}
    (hall : ∀ f ∈ fs, StorableFeature f) (h : validateFeatures (fs.map featureJson) seen = some out) :
    ∀ f ∈ fs, isSafeString maxNameSize f.category = true := by
  induction fs generalizing seen out with
  | nil => simp
  | cons f rest ih =>
    simp only [List.map_cons, validateFeatures, Option.bind_eq_bind, Option.bind_eq_some_iff] at h
    obtain ⟨parsed, hparsed, -, -, out', hout, -⟩ := h
    intro g hg
    rcases List.mem_cons.mp hg with rfl | hg
    · exact ((validate_featureJson (hall g List.mem_cons_self)).mp hparsed).1
    · exact ih (fun g hg => hall g (List.mem_cons_of_mem _ hg)) hout g hg

theorem validatePlanFeatures_json {project : String} {fs : List CatalogPlanFeatureInput}
    {seen : List String} (hall : ∀ f ∈ fs, StorablePlanFeature f ∧ f.project = project)
    (hd : (fs.map (·.feature_key)).Nodup) (hseen : ∀ f ∈ fs, f.feature_key ∉ seen) :
    validatePlanFeatures project (fs.map planFeatureJson) seen = some fs := by
  induction fs generalizing seen with
  | nil => rfl
  | cons f rest ih =>
    obtain ⟨hstorable, hproject⟩ := hall f List.mem_cons_self
    rw [List.map_cons, List.nodup_cons] at hd
    have hrest : validatePlanFeatures project (rest.map planFeatureJson) (f.feature_key :: seen) =
        some rest := by
      refine ih (fun g hg => hall g (List.mem_cons_of_mem _ hg)) hd.2 fun g hg hmem => ?_
      rcases List.mem_cons.mp hmem with hk | hmem
      · exact hd.1 (List.mem_map.mpr ⟨g, hg, hk⟩)
      · exact hseen g (List.mem_cons_of_mem _ hg) hmem
    simp [validatePlanFeatures, validate_planFeatureJson hstorable, hproject,
      hseen f List.mem_cons_self, hrest, guard]

theorem planFeatureValues_json (p : ManifestPlan) :
    planFeatureValues (planJson p) = some (p.features.map planFeatureJson) := by
  simp [planFeatureValues, planJson, Value.fields, Value.get, Value.items]

/-- The body of an export of one plan with features that an import takes. -/
theorem validate_manifestJson {fs : List CatalogFeatureInput} {p : ManifestPlan}
    (hm : StorableManifest ⟨fs, [p]⟩) (hk : CatalogManifest.Keyed ⟨fs, [p]⟩)
    (hfew : fs.length ≤ 200) (hrows : p.features.length ≤ 500)
    (hsafe : ∀ f ∈ fs, isSafeString maxNameSize f.category = true) :
    validateCatalogImportInput (manifestJson ⟨fs, [p]⟩) = some ⟨fs, [p]⟩ := by
  have hp : p ∈ [p] := List.mem_singleton.mpr rfl
  have hfeatures : validateFeatures (fs.map featureJson) [] = some fs :=
    validateFeatures_json (fun f hf => ⟨hm.features f hf, hsafe f hf⟩) hk.features (by simp)
  have hplanFeatures : validatePlanFeatures p.project (p.features.map planFeatureJson) [] =
      some p.features :=
    validatePlanFeatures_json (fun f hf => ⟨hm.plan_features p hp f hf, hk.projects p hp f hf⟩)
      (hk.plan_features p hp) (by simp)
  have hplans : validatePlans [planJson p] [] 0 = some [p] := by
    simp [validatePlans, validate_planJson (hm.plans p hp), planFeatureValues_json, hplanFeatures,
      hrows, guard]
  simp [validateCatalogImportInput, manifestJson, Value.fields, Value.get, Value.items, hasOnlyKeys,
    formatVersion, hfew, hfeatures, hplans, guard]

/-- What an import that takes an export has found. -/
theorem taken_of_validated {m input : CatalogManifest} (hm : StorableManifest m)
    (h : validateCatalogImportInput (manifestJson m) = some input) :
    m.features.length ≤ 200 ∧ ∀ f ∈ m.features, isSafeString maxNameSize f.category = true := by
  simp only [validateCatalogImportInput, Option.bind_eq_bind, Option.bind_eq_some_iff,
    guard_eq_some] at h
  obtain ⟨fields, hfields, -, -, -, -, raw, hraw, rawPlans, -, -, ⟨hfew, -⟩, out, hout, -⟩ := h
  obtain rfl := Option.some.inj hfields
  have hraw' : raw = m.features.map featureJson := by
    simpa [Value.get, Value.items, eq_comm] using hraw
  subst hraw'
  rw [List.length_map] at hfew
  exact ⟨hfew, categories_of_validated hm.features hout⟩

/-! ## The exporter alone -/

section
variable {α : Type} {x : Except String α} {a : α} {write : CatalogWrite}

@[simp] theorem yields_check : Prog.Yields w (check x) a ↔ x = .ok a := by
  unfold Prog.Yields check
  simp [ExceptT.run, ExceptT.mk, Prog.pure_eq, Prog.alone]

@[simp] theorem not_writes_check : ¬ Prog.Writes w (check x) write := nofun

@[simp] theorem yields_select {f : Store → α} : Prog.Yields w (select f) a ↔ a = f w.db :=
  Prog.yields_query

@[simp] theorem not_writes_select {f : Store → α} : ¬ Prog.Writes w (select f) write :=
  Prog.not_writes_query

/-- A program alone has one value. -/
theorem yields_unique {x : Handler α} {b : α} (h : Prog.Yields w x a) (h' : Prog.Yields w x b) :
    a = b :=
  Except.ok.inj (Sum.inl.inj (h.symm.trans h'))

end

/-- The feature of an export for a row of the plan. -/
def FeatureOf (s : Store) (row : CatalogPlanFeature) (input : CatalogFeatureInput) : Prop :=
  ∃ f ∈ s.catalog_features, featureKey f = (row.project, row.feature_key) ∧
    input = exportedFeature f

theorem exportFeatures_yields {rows : List CatalogPlanFeature} {seen : List (String × String)}
    (hall : ∀ r ∈ rows, ∃ f ∈ w.db.catalog_features, featureKey f = (r.project, r.feature_key))
    (hd : (rows.map (·.feature_key)).Nodup)
    (hseen : ∀ r ∈ rows, ∀ k ∈ seen, k.2 ≠ r.feature_key) :
    ∃ fs, Prog.Yields w (exportFeatures rows seen) fs ∧
      List.Forall₂ (FeatureOf w.db) rows fs := by
  induction rows generalizing seen with
  | nil => exact ⟨[], rfl, .nil⟩
  | cons row rest ih =>
    rw [List.map_cons, List.nodup_cons] at hd
    obtain ⟨f, hf, hkey⟩ := hall row List.mem_cons_self
    have hseen' : ∀ r ∈ rest, ∀ k ∈ (row.project, row.feature_key) :: seen, k.2 ≠ r.feature_key := by
      intro r hr k hk
      rcases List.mem_cons.mp hk with rfl | hk
      · exact fun heq => hd.1 (List.mem_map.mpr ⟨r, hr, heq.symm⟩)
      · exact hseen r (List.mem_cons_of_mem _ hr) k hk
    obtain ⟨fs, hfs, hrest⟩ := ih (fun r hr => hall r (List.mem_cons_of_mem _ hr)) hd.2 hseen'
    have hnew : (row.project, row.feature_key) ∉ seen := fun hmem =>
      hseen row List.mem_cons_self _ hmem rfl
    have hfind : w.db.catalog_features.find? (fun f => f.project = row.project ∧
        f.feature_key = row.feature_key) = some f := by
      refine Table.find?_eq hf (Prod.mk.inj hkey) fun a b ha hb => .inr ?_
      exact ⟨ha.1.trans hb.1.symm, ha.2.trans hb.2.symm⟩
    refine ⟨exportedFeature f :: fs, ?_, .cons ⟨f, hf, hkey, rfl⟩ hrest⟩
    simp [exportFeatures, hnew, hfind, hfs]

/-- The plan of an export with its rows. -/
def exportedManifestPlan (plan : CatalogPlan) (s : Store) : ManifestPlan where
  toCatalogPlanInput := exportedPlan plan
  features := (planFeaturesOf plan.id s).map exportedPlanFeature

section
variable {plan : CatalogPlan} {fs : List CatalogFeatureInput}

theorem mem_planFeaturesOf {id : String} {row : CatalogPlanFeature} :
    row ∈ planFeaturesOf id s ↔ row ∈ s.catalog_plan_features ∧ row.plan_id = id := by
  unfold planFeaturesOf
  rw [(List.perm_insertionSort _ _).mem_iff, List.mem_filter, Table.mem_def, decide_eq_true_eq]

/-- The rows of a plan have its features once. -/
theorem planFeaturesOf_nodup (id : String) (s : Store) :
    ((planFeaturesOf id s).map (·.feature_key)).Nodup := by
  unfold planFeaturesOf
  refine ((List.perm_insertionSort _ _).map _).nodup_iff.mpr (List.pairwise_map.mpr ?_)
  refine (s.catalog_plan_features.distinct.filter _).imp_of_mem fun {a b} ha hb hne heq => ?_
  have hpa : a.plan_id = id := by simpa using (List.mem_filter.mp ha).2
  have hpb : b.plan_id = id := by simpa using (List.mem_filter.mp hb).2
  exact hne (.inl ⟨hpa.trans hpb.symm, heq⟩)

theorem planFeaturesOf_length (id : String) (s : Store) :
    (planFeaturesOf id s).length = s.catalog_plan_features.count (·.plan_id = id) := by
  unfold planFeaturesOf Table.count
  rw [(List.perm_insertionSort _ _).length_eq, List.countP_eq_length_filter]

theorem exportCatalogPlan_yields (h : Sound w.db) (hplan : plan ∈ w.db.catalog_plans) :
    ∃ fs, Prog.Yields w (exportCatalogPlan plan.id)
        (manifestJson ⟨fs, [exportedManifestPlan plan w.db]⟩) ∧
      List.Forall₂ (FeatureOf w.db) (planFeaturesOf plan.id w.db) fs := by
  have hfind : w.db.catalog_plans.find? (·.id = plan.id) = some plan :=
    Table.find?_eq hplan rfl fun a b ha hb => .inl (ha.trans hb.symm)
  obtain ⟨fs, hfs, hall⟩ : ∃ fs, Prog.Yields w (exportFeatures (planFeaturesOf plan.id w.db) []) fs ∧
      List.Forall₂ (FeatureOf w.db) (planFeaturesOf plan.id w.db) fs :=
    exportFeatures_yields (fun r hr => (h.placed r (mem_planFeaturesOf.mp hr).1).feature)
      (planFeaturesOf_nodup plan.id w.db) (by simp)
  refine ⟨fs, ?_, hall⟩
  simp only [exportCatalogPlan, found, hfind, exportedManifestPlan, Prog.yields_bind, yields_select,
    yields_check, Prog.yields_pure, exists_eq_left, Except.ok.injEq, exists_eq_left']
  exact ⟨fs, hfs, rfl⟩

/-- The rows of a plan are of its project. -/
theorem project_of_plan (h : Sound s) (hplan : plan ∈ s.catalog_plans) {row : CatalogPlanFeature}
    (hrow : row ∈ planFeaturesOf plan.id s) : row.project = plan.project := by
  obtain ⟨hin, hid⟩ := mem_planFeaturesOf.mp hrow
  obtain ⟨p, hp, hidentity⟩ := (h.placed row hin).plan
  obtain ⟨hproject, hpid⟩ := Prod.mk.inj hidentity
  obtain rfl : p = plan := Table.unique hp hplan (.inl (hpid.trans hid))
  exact hproject.symm

theorem export_storable (h : Sound s) (hplan : plan ∈ s.catalog_plans)
    (hfs : List.Forall₂ (FeatureOf s) (planFeaturesOf plan.id s) fs) :
    StorableManifest ⟨fs, [exportedManifestPlan plan s]⟩ := by
  refine ⟨fun f hf => ?_, fun p hp => ?_, fun p hp f hf => ?_⟩
  · obtain ⟨row, -, g, hg, -, rfl⟩ := forall₂_right hfs hf
    exact h.features g hg
  · obtain rfl := List.mem_singleton.mp hp
    exact h.plans plan hplan
  · obtain rfl := List.mem_singleton.mp hp
    obtain ⟨row, hrow, rfl⟩ := List.mem_map.mp hf
    exact h.plan_features row (mem_planFeaturesOf.mp hrow).1

/-- The keys of the features are those of the rows. -/
theorem export_keys {rows : List CatalogPlanFeature} (hfs : List.Forall₂ (FeatureOf s) rows fs) :
    fs.map (·.key) = rows.map fun r => (r.project, r.feature_key) := by
  induction hfs with
  | nil => rfl
  | cons hrow _ ih =>
    obtain ⟨f, -, hkey, rfl⟩ := hrow
    rw [List.map_cons, List.map_cons, ih]
    exact congrArg (· :: _) hkey

theorem export_keyed (h : Sound s) (hplan : plan ∈ s.catalog_plans)
    (hfs : List.Forall₂ (FeatureOf s) (planFeaturesOf plan.id s) fs) :
    CatalogManifest.Keyed ⟨fs, [exportedManifestPlan plan s]⟩ where
  features := by
    rw [export_keys hfs]
    refine List.Nodup.of_map Prod.snd ?_
    rw [List.map_map]
    exact planFeaturesOf_nodup plan.id s
  plans := by simp
  plan_features p hp := by
    obtain rfl := List.mem_singleton.mp hp
    simp only [exportedManifestPlan, List.map_map]
    exact planFeaturesOf_nodup plan.id s
  projects p hp f hf := by
    obtain rfl := List.mem_singleton.mp hp
    obtain ⟨row, hrow, rfl⟩ := List.mem_map.mp hf
    exact project_of_plan h hplan hrow

/-! ## The preview of an export -/

theorem snapshot_feature_there {input : CatalogFeatureInput} (hin : input ∈ m.features)
    {f : CatalogFeature} (hf : f ∈ s.catalog_features) (hk : featureKey f = input.key) :
    (buildSnapshot m s).feature input.key = some f := by
  cases hfind : (buildSnapshot m s).feature input.key with
  | none => exact absurd hk (no_feature hin hfind hf)
  | some row =>
    obtain ⟨hrow, hkey⟩ := snapshot_feature hfind
    rw [Table.unique (List.mem_filter.mp hrow).1 hf (feature_clash (hkey.trans hk.symm))]

theorem snapshot_plan_there {p : ManifestPlan} (hin : p ∈ m.plans) {q : CatalogPlan}
    (hq : q ∈ s.catalog_plans) (hk : planKey q = p.toCatalogPlanInput.key) :
    (buildSnapshot m s).plan p.toCatalogPlanInput.key = some q := by
  cases hfind : (buildSnapshot m s).plan p.toCatalogPlanInput.key with
  | none => exact absurd hk (no_plan hin hfind hq)
  | some row =>
    obtain ⟨hrow, hkey⟩ := snapshot_plan hfind
    rw [Table.unique (mem_snapshot_plans hrow) hq (plan_clash (hkey.trans hk.symm))]

theorem snapshot_planFeature_there {p : ManifestPlan} (hin : p ∈ m.plans) {q : CatalogPlan}
    (hq : q ∈ s.catalog_plans) (hk : planKey q = p.toCatalogPlanInput.key)
    {row : CatalogPlanFeature} (hrow : row ∈ s.catalog_plan_features) (hid : row.plan_id = q.id)
    (hproject : row.project = q.project) (hf : row.feature_key ∈ p.features.map (·.feature_key)) :
    (buildSnapshot m s).planFeature q.id row.feature_key = some row := by
  obtain ⟨h1, h2⟩ := Prod.mk.inj hk
  have hsnap : row ∈ (buildSnapshot m s).planFeatures := by
    refine List.mem_filter.mpr ⟨hrow, decide_eq_true ?_⟩
    exact ⟨q, hq, hproject.symm, hid.symm, p, hin, h1.symm, h2.symm, hf⟩
  cases hfind : (buildSnapshot m s).planFeature q.id row.feature_key with
  | none =>
    have hnone := List.find?_eq_none.mp hfind row hsnap
    simp [hid] at hnone
  | some row' =>
    obtain ⟨hin', hkey⟩ := snapshot_planFeature hfind
    have hkey' : planFeatureKey row = (q.id, row.feature_key) := Prod.ext hid rfl
    rw [Table.unique (List.mem_filter.mp hin').1 hrow (planFeature_clash (hkey.trans hkey'.symm))]

end

/-- The effects report every row of the manifest as unchanged. -/
structure ReportsUnchanged (m : CatalogManifest) (e : ImportEffects) : Prop where
  features : e.features.map (·.effect) = m.features.map fun _ => .unchanged
  plans : e.plans.map (·.effect) = m.plans.map fun _ => .unchanged
  plan_features :
    e.plan_features.map (·.effect) = (m.plans.flatMap (·.features)).map fun _ => .unchanged

/-- A preview of the body reports every row as unchanged, and is stored. -/
def PreviewsUnchanged (body : Value) (input : CatalogManifest) (w : CatalogWorld) : Prop :=
  ∀ (digest : CatalogManifest → String) (subject : String) (now : Int) (ids : Nat → NewIds),
    subject ≠ "" → ∃ d, Prog.Writes w (previewCatalogImport digest body subject now ids) (.persist d) ∧
      d.manifest = normalizeCatalogImportManifest input ∧ ReportsUnchanged d.manifest d.effects ∧
      ∀ o, World.Admits o w →
        (CatalogWrite.apply o (.persist d) w.db).1 = .persisted (some (d.preview (previewId o.id)))

/-- The export of the plan is accepted by an import, whose preview changes nothing. -/
def RoundTrips (planId : String) (w : CatalogWorld) : Prop :=
  ∃ value, Prog.Yields w (exportCatalogPlan planId) value ∧
    ∃ input, validateCatalogImportInput value = some input ∧ PreviewsUnchanged value input w

/-- The plan has at most 200 features, each with a category that a new feature can
have and with an active policy. -/
structure Reimportable (plan : CatalogPlan) (s : Store) : Prop where
  few : s.catalog_plan_features.count (·.plan_id = plan.id) ≤ 200
  categories : ∀ row ∈ s.catalog_plan_features, row.plan_id = plan.id →
    ∀ f ∈ s.catalog_features, featureKey f = (row.project, row.feature_key) →
      isSafeString maxNameSize f.category = true
  policies : ∀ row ∈ s.catalog_plan_features, row.plan_id = plan.id →
    ∀ p ∈ s.entitlement_policies, some p.id = row.policy_id → p.status = .active

/-- The writes of a preview alone. -/
theorem previewCatalogImport_writes {digest : CatalogManifest → String} {body : Value}
    {subject : String} {now : Int} {ids : Nat → NewIds} {input : CatalogManifest}
    {write : CatalogWrite} (hinput : validateCatalogImportInput body = some input)
    (hsubject : subject ≠ "") :
    Prog.Writes w (previewCatalogImport digest body subject now ids) write ↔
      ∃ effects, deriveEffects (buildSnapshot (normalizeCatalogImportManifest input) w.db) (ids 2)
          (normalizeCatalogImportManifest input) now = .ok effects ∧
        assertAtomicCapacity effects.actions = .ok () ∧
        write = .persist {
          actor_subject := subject
          manifest_digest := digest (normalizeCatalogImportManifest input)
          manifest := normalizeCatalogImportManifest input
          effects := effects
          effective_at := now
          source_generation := w.db.generation } := by
  simp only [previewCatalogImport, hinput, hsubject, if_false, previewAttempts, Prog.writes_bind,
    not_writes_select, yields_select, exists_eq_left, not_writes_check, yields_check,
    Prog.writes_request, Prog.not_yields_request, false_and, exists_false, or_false, false_or,
    buildSnapshot]
  constructor
  · rintro ⟨effects, heffects, u, hcapacity, rfl⟩
    exact ⟨effects, heffects, hcapacity, rfl⟩
  · rintro ⟨effects, heffects, hcapacity, rfl⟩
    exact ⟨effects, heffects, (), hcapacity, rfl⟩

/-- A preview of the generation that is there is stored. -/
theorem persist_succeeds {d : ImportDraft} {o : Oracle} (hk : ImportsKept w)
    (ho : World.Admits o w) (hg : d.source_generation = w.db.generation) :
    (CatalogWrite.apply o (.persist d) w.db).1 = .persisted (some (d.preview (previewId o.id))) := by
  obtain ⟨n, t, ht⟩ : ∃ n t, w.db.catalog_import_previews.delete
      (·.id ∈ staleIds d.effective_at w.db) = .ok (n, t) :=
    ⟨_, Table.delete_ok fun _ _ _ => rfl⟩
  have hnew : ∀ p ∈ t, ¬ Schema.clash (d.row (previewId o.id)) p := by
    intro p hp hclash
    obtain ⟨id, hid, hpid⟩ := hk.drawn p ((Table.mem_of_delete ht).mp hp).1
    have hsame : previewId o.id = previewId id := Eq.trans hclash hpid
    exact ho.fresh (previewId_injective hsame ▸ hid)
  obtain ⟨t', ht'⟩ := Table.insert_ok rfl trivial hnew
  have hrun : runBatch (persistBatch d (previewId o.id)) o.clock 0 w.db =
      .ok ([n, 1], { w.db with catalog_import_previews := t' }) := by
    refine runBatch_cons.mpr ⟨n, { w.db with catalog_import_previews := t }, [1], ?_, ?_, rfl⟩
    · unfold cleanupExpiredPreviewsStatement onPreviews
      exact stored_eq_ok.mpr ⟨t, ht, rfl⟩
    · refine runBatch_cons.mpr ⟨1, { w.db with catalog_import_previews := t' }, [], ?_, ?_, rfl⟩
      · unfold insertPreviewStatement
        rw [if_pos hg.symm]
        unfold onPreviews
        exact stored_eq_ok.mpr ⟨t', inserted_eq_ok.mpr ⟨rfl, ht'⟩, rfl⟩
      · exact runBatch_nil.mpr ⟨rfl, rfl⟩
  simp only [CatalogWrite.apply, transact, hrun]
  rfl

theorem forM_of_all {α ε : Type} {f : α → Except ε Unit} {l : List α}
    (h : ∀ a ∈ l, f a = .ok ()) : l.forM f = .ok () := by
  induction l with
  | nil => rfl
  | cons a l ih =>
    change (f a >>= fun _ => l.forM f) = .ok ()
    exact unit_bind_eq_ok.mpr ⟨h a List.mem_cons_self, ih fun b hb => h b (List.mem_cons_of_mem _ hb)⟩

theorem checkDependency_of {S : ImportSnapshot} {f : CatalogPlanFeatureInput}
    (hkey : (f.project, f.feature_key) ∈ m.features.map (·.key))
    (hpolicy : ∀ id, f.policy_id = some id → ∃ policy, S.policy id = some policy ∧
      policy.project = f.project ∧ policy.status = .active) : checkDependency S m f = .ok () := by
  unfold checkDependency
  cases hid : f.policy_id with
  | none => simp [hkey, pure, Except.pure]
  | some id =>
    obtain ⟨policy, hfind, hproject, hstatus⟩ := hpolicy id hid
    simp [hkey, hfind, hproject, hstatus, pure, Except.pure]

section
variable {plan : CatalogPlan} {fs : List CatalogFeatureInput}

/-- The export in the order of an import. -/
def normalExport (plan : CatalogPlan) (fs : List CatalogFeatureInput) (s : Store) : CatalogManifest :=
  normalizeCatalogImportManifest ⟨fs, [exportedManifestPlan plan s]⟩

theorem plan_of_normal {p : ManifestPlan} (hp : p ∈ (normalExport plan fs s).plans) :
    p.toCatalogPlanInput = exportedPlan plan ∧ ∀ f, f ∈ p.features ↔
      ∃ row ∈ planFeaturesOf plan.id s, f = exportedPlanFeature row := by
  obtain ⟨q, hq, rfl⟩ := mem_normalized_plans.mp hp
  obtain rfl := List.mem_singleton.mp hq
  refine ⟨rfl, fun f => ?_⟩
  simp only [(List.perm_insertionSort _ _).mem_iff, exportedManifestPlan, List.mem_map, eq_comm]

/-- A preview of an export reports what the catalog holds. -/
theorem export_unchanged (h : Sound s) (hplan : plan ∈ s.catalog_plans)
    (hfs : List.Forall₂ (FeatureOf s) (planFeaturesOf plan.id s) fs) :
    ReportsUnchanged (normalExport plan fs s)
      (importEffects (buildSnapshot (normalExport plan fs s) s) ids (normalExport plan fs s)
        effectiveAt) := by
  refine ⟨?_, ?_, ?_⟩
  · simp only [importEffects, List.map_map]
    refine List.map_congr_left fun input hin => ?_
    obtain ⟨row, -, f, hf, -, rfl⟩ := forall₂_right hfs (mem_normalized_features.mp hin)
    exact rowEffect_unchanged.mpr
      ⟨f, snapshot_feature_there hin hf rfl, by simp [featureMatches, exportedFeature]⟩
  · simp only [importEffects, List.map_map]
    refine List.map_congr_left fun p hp => ?_
    have hinput := (plan_of_normal hp).1
    refine rowEffect_unchanged.mpr ⟨plan, snapshot_plan_there hp hplan ?_, ?_⟩
    · rw [hinput]
      rfl
    · rw [hinput]
      simp [planMatches, exportedPlan]
  · simp only [importEffects, List.map_flatMap, List.map_map]
    refine List.flatMap_congr fun p hp => List.map_congr_left fun f hf => ?_
    obtain ⟨hinput, hfeatures⟩ := plan_of_normal hp
    obtain ⟨row, hrow, rfl⟩ := (hfeatures f).mp hf
    obtain ⟨hin, hid⟩ := mem_planFeaturesOf.mp hrow
    have hkey : planKey plan = p.toCatalogPlanInput.key := by
      rw [hinput]
      rfl
    have hplanned : plannedId (buildSnapshot (normalExport plan fs s) s) ids effectiveAt
        p.toCatalogPlanInput = plan.id := plannedId_of_plan hp hplan hkey
    refine rowEffect_unchanged.mpr ⟨row, ?_, by simp [planFeatureMatches, exportedPlanFeature]⟩
    rw [hplanned]
    exact snapshot_planFeature_there hp hplan hkey hin hid (project_of_plan h hplan hrow)
      (List.mem_map_of_mem hf)

/-- The dependencies of an export hold exactly when its policies are active. -/
theorem export_dependencies (h : Sound s) (hplan : plan ∈ s.catalog_plans)
    (hfs : List.Forall₂ (FeatureOf s) (planFeaturesOf plan.id s) fs) :
    validateSnapshotDependencies (buildSnapshot (normalExport plan fs s) s) (normalExport plan fs s) =
        .ok () ↔
      ∀ row ∈ s.catalog_plan_features, row.plan_id = plan.id →
        ∀ p ∈ s.entitlement_policies, some p.id = row.policy_id → p.status = .active := by
  obtain ⟨q, hq⟩ : ∃ q, q ∈ (normalExport plan fs s).plans :=
    ⟨_, mem_normalized_plans.mpr ⟨_, List.mem_singleton.mpr rfl, rfl⟩⟩
  constructor
  · intro hvalid row hrow hid p hp hpolicy
    have hmem : exportedPlanFeature row ∈
        (normalExport plan fs s).plans.flatMap (·.features) := by
      refine List.mem_flatMap.mpr ⟨q, hq, ?_⟩
      exact ((plan_of_normal hq).2 _).mpr ⟨row, mem_planFeaturesOf.mpr ⟨hrow, hid⟩, rfl⟩
    obtain ⟨policy, hfind, -, hstatus⟩ := (checkDependency_ok (forM_ok hvalid hmem)).2 p.id hpolicy.symm
    have hin := (List.mem_filter.mp (List.mem_of_find?_eq_some hfind)).1
    have hfound := List.find?_some hfind
    simp only [decide_eq_true_eq] at hfound
    obtain rfl : policy = p := Table.unique hin hp (.inl hfound)
    exact hstatus
  · intro hactive
    refine forM_of_all fun f hf => ?_
    obtain ⟨p, hp, hf⟩ := List.mem_flatMap.mp hf
    obtain ⟨row, hrow, rfl⟩ := ((plan_of_normal hp).2 f).mp hf
    obtain ⟨hin, hid⟩ := mem_planFeaturesOf.mp hrow
    refine checkDependency_of ?_ fun id hpolicy => ?_
    · obtain ⟨input, hinput, g, hg, hkey, rfl⟩ := forall₂_left hfs hrow
      exact List.mem_map.mpr ⟨_, mem_normalized_features.mpr hinput, hkey⟩
    · obtain ⟨policy, hpin, hidentity⟩ := (h.placed row hin).policy id hpolicy
      obtain ⟨hproject, hpid⟩ := Prod.mk.inj hidentity
      have hreferenced : policy ∈ (buildSnapshot (normalExport plan fs s) s).policies := by
        refine List.mem_filter.mpr ⟨hpin, decide_eq_true (List.mem_flatMap.mpr ⟨p, hp, ?_⟩)⟩
        exact List.mem_filterMap.mpr ⟨_, hf, hpolicy.trans (congrArg some hpid.symm)⟩
      cases hfind : (buildSnapshot (normalExport plan fs s) s).policy id with
      | none =>
        have hnone := List.find?_eq_none.mp hfind policy hreferenced
        simp [hpid] at hnone
      | some policy' =>
        have hin' := (List.mem_filter.mp (List.mem_of_find?_eq_some hfind)).1
        have hfound := List.find?_some hfind
        simp only [decide_eq_true_eq] at hfound
        obtain rfl : policy' = policy := Table.unique hin' hpin (.inl (hfound.trans hpid.symm))
        exact ⟨policy', rfl, hproject, hactive row hin hid policy' hpin
          ((congrArg some hpid).trans hpolicy.symm)⟩

end

/-- The effects that change nothing are no actions. -/
theorem actions_of_unchanged {e : ImportEffects} (h : ReportsUnchanged m e) : e.actions = [] := by
  have hno : ∀ {ρ : Type} {κ : Type} {l : List (RowEffect ρ)} {inputs : List κ},
      l.map (·.effect) = inputs.map (fun _ => EffectKind.unchanged) → changes l = [] := by
    intro ρ κ l inputs heq
    refine List.filter_eq_nil_iff.mpr fun r hr => ?_
    have hmem : r.effect ∈ inputs.map fun _ => EffectKind.unchanged := heq ▸ List.mem_map_of_mem hr
    obtain ⟨-, -, hu⟩ := List.mem_map.mp hmem
    simp [← hu]
  simp [ImportEffects.actions, hno h.features, hno h.plans, hno h.plan_features]

section
variable {plan : CatalogPlan}
  {c : Config CatalogWorld CatalogWrite CatalogResult (Except String CatalogAnswer)}

/-- In every state of the catalog that the admin API reaches, the export of a plan is
accepted by an import that reports every row as unchanged exactly when the plan has
at most 200 features, each with a category that a new feature can have and with an
active policy. -/
theorem an_export_round_trips_exactly_when_reimportable (h0 : BeforeCatalog w₀)
    (h : catalogSystem.Reach ⟨w₀, []⟩ c) (hplan : plan ∈ c.state.db.catalog_plans) :
    RoundTrips plan.id c.state ↔ Reimportable plan c.state.db := by
  obtain ⟨hkept, hsound⟩ := reach_sound h0 h
  obtain ⟨fs, hyields, hfs⟩ := exportCatalogPlan_yields hsound hplan
  have hm := export_storable hsound hplan hfs
  have hlength : fs.length = c.state.db.catalog_plan_features.count (·.plan_id = plan.id) :=
    hfs.length_eq.symm.trans (planFeaturesOf_length _ _)
  constructor
  · rintro ⟨value, hvalue, input, hinput, hpreview⟩
    obtain rfl := yields_unique hyields hvalue
    obtain ⟨hfew, hsafe⟩ := taken_of_validated hm hinput
    refine ⟨hlength ▸ hfew, fun row hrow hid f hf hkey => ?_, ?_⟩
    · obtain ⟨i, hi, g, hg, hgkey, rfl⟩ := forall₂_left hfs (mem_planFeaturesOf.mpr ⟨hrow, hid⟩)
      obtain rfl : g = f := Table.unique hg hf (feature_clash (hgkey.trans hkey.symm))
      exact hsafe _ hi
    · have hm' := (validate_manifestJson hm (export_keyed hsound hplan hfs) hfew
        (by simpa [exportedManifestPlan, hfs.length_eq] using hfew.trans (by decide)) hsafe)
      obtain rfl := Option.some.inj (hm'.symm.trans hinput)
      obtain ⟨d, hwrites, -⟩ := hpreview (fun _ => "") "subject" 0
        (fun _ => ⟨fun _ => "", fun _ => ""⟩) (by decide)
      obtain ⟨effects, hderive, -⟩ := (previewCatalogImport_writes hinput (by decide)).mp hwrites
      obtain ⟨hvalid, -⟩ := unit_bind_eq_ok.mp hderive
      exact (export_dependencies hsound hplan hfs).mp hvalid
  · intro hre
    have hfew : fs.length ≤ 200 := hlength ▸ hre.few
    have hsafe : ∀ f ∈ fs, isSafeString maxNameSize f.category = true := by
      intro f hf
      obtain ⟨row, hrow, g, hg, hkey, rfl⟩ := forall₂_right hfs hf
      obtain ⟨hin, hid⟩ := mem_planFeaturesOf.mp hrow
      exact hre.categories row hin hid g hg hkey
    have hinput := validate_manifestJson hm (export_keyed hsound hplan hfs) hfew
      (by simpa [exportedManifestPlan, hfs.length_eq] using hfew.trans (by decide)) hsafe
    refine ⟨_, hyields, _, hinput, fun digest subject now ids hsubject => ?_⟩
    have hvalid := (export_dependencies hsound hplan hfs).mpr hre.policies
    have hreport : ReportsUnchanged (normalExport plan fs c.state.db) (importEffects
        (buildSnapshot (normalExport plan fs c.state.db) c.state.db) (ids 2)
        (normalExport plan fs c.state.db) now) := export_unchanged hsound hplan hfs
    refine ⟨_, (previewCatalogImport_writes hinput hsubject).mpr ⟨_,
      unit_bind_eq_ok.mpr ⟨hvalid, rfl⟩, ?_, rfl⟩, rfl, hreport, fun o ho => ?_⟩
    · have hnone := actions_of_unchanged hreport
      unfold normalExport at hnone
      rw [hnone]
      rfl
    · exact persist_succeeds hkept ho rfl

end

/-! ## Two exports -/

def exampleEditor : EditContext := ⟨exampleAdmin, "q", 0⟩

/-- A new feature and a new plan that has it. -/
def exportSchedule (feature : List (String × Value)) :
    List (World.Action Store CatalogWrite CatalogResult (Except String CatalogAnswer)) := [
  .start (createCatalogFeature exampleEditor (.object ([("project", .string "p"),
    ("feature_key", .string "f"), ("name", .string "F")] ++ feature))).run,
  .write 0 1 "a",
  .start (createCatalogPlan exampleEditor (.object [("project", .string "p"),
    ("plan_key", .string "k"), ("name", .string "Plan")])).run,
  .write 0 2 "b",
  .start (createCatalogPlanFeature exampleEditor "plan_b" (.object [("project", .string "p"),
    ("feature_key", .string "f")])).run,
  .read 0, .read 0, .read 0, .write 0 3 "x"]

set_option maxRecDepth 20000 in
/-- The run of a feature with a category. -/
def namedEnd : Config CatalogWorld CatalogWrite CatalogResult (Except String CatalogAnswer) :=
  (World.play CatalogWrite.apply ⟨emptyCatalog, []⟩
    (exportSchedule [("category", .string "tools")])).get (by decide)

set_option maxRecDepth 20000 in
/-- The run of a feature without a category. -/
def namelessEnd : Config CatalogWorld CatalogWrite CatalogResult (Except String CatalogAnswer) :=
  (World.play CatalogWrite.apply ⟨emptyCatalog, []⟩ (exportSchedule [])).get (by decide)

theorem namedEnd_reached : catalogSystem.Reach ⟨emptyCatalog, []⟩ namedEnd :=
  World.reach_of_play (Option.some_get _).symm
    ⟨.createFeature _ _, .createPlan _ _, .createPlanFeature _ _ _, ⟨⟩⟩

theorem namelessEnd_reached : catalogSystem.Reach ⟨emptyCatalog, []⟩ namelessEnd :=
  World.reach_of_play (Option.some_get _).symm
    ⟨.createFeature _ _, .createPlan _ _, .createPlanFeature _ _ _, ⟨⟩⟩

def examplePlan : CatalogPlan := ⟨"plan_b", "p", "k", "Plan", .active, 1, "", 0, 0⟩

set_option maxRecDepth 20000 in
theorem namedEnd_plan : examplePlan ∈ namedEnd.state.db.catalog_plans := by decide

set_option maxRecDepth 20000 in
theorem namelessEnd_plan : examplePlan ∈ namelessEnd.state.db.catalog_plans := by decide

set_option maxRecDepth 20000 in
/-- The plan of a feature with a category comes back. -/
theorem a_plan_with_categories_round_trips : RoundTrips "plan_b" namedEnd.state :=
  (an_export_round_trips_exactly_when_reimportable ⟨⟨rfl, rfl⟩, rfl, rfl, rfl⟩ namedEnd_reached
    namedEnd_plan).mpr ⟨by decide, by decide, by decide⟩

/-- The body of the export of a feature without a category. -/
def namelessExport : Value :=
  manifestJson ⟨[⟨"p", "f", "F", "", "", .active⟩],
    [⟨⟨"p", "k", "Plan", "", .active, 1⟩, [⟨"p", "f", .included, none, none, .active, 0, none⟩]⟩]⟩

set_option maxRecDepth 20000 in
/-- A feature that was made without a category has the empty one, which an import
refuses. -/
theorem a_plan_without_categories_does_not_round_trip :
    ¬ ∀ (w₀ : CatalogWorld)
      (c : Config CatalogWorld CatalogWrite CatalogResult (Except String CatalogAnswer))
      (plan : CatalogPlan), BeforeCatalog w₀ → catalogSystem.Reach ⟨w₀, []⟩ c →
      plan ∈ c.state.db.catalog_plans → RoundTrips plan.id c.state := by
  intro h
  obtain ⟨value, hvalue, input, hinput, -⟩ := h _ namelessEnd examplePlan
    ⟨⟨rfl, rfl⟩, rfl, rfl, rfl⟩ namelessEnd_reached namelessEnd_plan
  have hexport : Prog.Yields namelessEnd.state (exportCatalogPlan "plan_b") namelessExport := rfl
  obtain rfl := yields_unique hexport hvalue
  have hrefused : validateCatalogImportInput namelessExport = none := by decide
  cases hrefused.symm.trans hinput

end Licensecc.Catalog
