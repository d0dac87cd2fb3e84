-- When a preview can be applied. The rows of an import fit one after another
-- exactly when no add-on key of a plan is asked for twice or still held by
-- another row at its turn.
import Licensecc.Catalog.Imports
import Licensecc.Catalog.Ready
import Licensecc.Order

open Licensecc.Sql Licensecc.Conc

namespace Licensecc.Catalog

variable {r : ImportRun} {m : CatalogManifest} {ids : NewIds} {s s' : Store} {effectiveAt : Int}

/-! ## The condition -/

/-- The ids that a manifest draws are those of no row and of no other draw. -/
structure FreshIds (ids : NewIds) (m : CatalogManifest) (s : Store) : Prop where
  features : ∀ f ∈ m.features, ∀ g ∈ m.features, ids.feature f.key = ids.feature g.key →
    f.key = g.key
  plans : ∀ p ∈ m.plans, ∀ q ∈ m.plans, ids.plan p.toCatalogPlanInput.key =
    ids.plan q.toCatalogPlanInput.key → p.toCatalogPlanInput.key = q.toCatalogPlanInput.key
  new_feature : ∀ f ∈ m.features, ∀ row ∈ s.catalog_features, row.id ≠ ids.feature f.key
  new_plan : ∀ p ∈ m.plans, ∀ row ∈ s.catalog_plans, row.id ≠ ids.plan p.toCatalogPlanInput.key

/-- The features of a plan of the manifest ask for different add-on keys. -/
def AddonsApart (p : ManifestPlan) : Prop :=
  ∀ f ∈ p.features, ∀ g ∈ p.features, Same f.addon_key g.addon_key → f.feature_key = g.feature_key

/-- A row of the plan that holds the add-on key of another feature is listed before
that feature. -/
def AddonsListed (p : ManifestPlan) (s : Store) : Prop :=
  ∀ f ∈ p.features, ∀ plan ∈ s.catalog_plans, planKey plan = p.toCatalogPlanInput.key →
    ∀ row ∈ s.catalog_plan_features, row.plan_id = plan.id → Same f.addon_key row.addon_key →
      row.feature_key ≠ f.feature_key →
      ∃ g ∈ p.features, g.feature_key = row.feature_key ∧ Before p.features g f

/-- The add-on keys of each plan of the manifest are free when their turn comes. -/
def AddonsFree (m : CatalogManifest) (s : Store) : Prop :=
  ∀ p ∈ m.plans, AddonsApart p ∧ AddonsListed p s

instance : DecidablePred AddonsApart := fun p =>
  inferInstanceAs (Decidable (∀ f ∈ p.features, ∀ g ∈ p.features, _))

instance (p : ManifestPlan) (s : Store) : Decidable (AddonsListed p s) :=
  inferInstanceAs (Decidable (∀ f ∈ p.features, ∀ plan ∈ s.catalog_plans, _ →
    ∀ row ∈ s.catalog_plan_features, _ → _ → _ → ∃ g ∈ p.features, _ ∧ Before p.features g f))

instance (m : CatalogManifest) (s : Store) : Decidable (AddonsFree m s) :=
  inferInstanceAs (Decidable (∀ p ∈ m.plans, AddonsApart p ∧ AddonsListed p s))

/-! ## The effects of one row -/

section
variable {ρ : Type} {target : ρ → ImportTarget} {status : ρ → CatalogStatus}
  {existing : Option ρ} {isMatch : ρ → Bool} {next : ρ} {nextStatus : CatalogStatus}

theorem rowEffect_create :
    (rowEffect target status existing isMatch next nextStatus).effect = .create ↔
      existing = none := by
  simp only [rowEffect, catalogEffect]
  cases existing with
  | none => simp
  | some row =>
    simp only [Option.map_some, reduceCtorEq, iff_false]
    split
    · simp
    · split
      · simp
      · split
        · simp
        · simp

theorem rowEffect_next
    (h : (rowEffect target status existing isMatch next nextStatus).effect ≠ .unchanged) :
    (rowEffect target status existing isMatch next nextStatus).after = next := by
  cases existing with
  | none => rfl
  | some row =>
    by_cases hm : isMatch row = true
    · exact absurd (rowEffect_unchanged.mpr ⟨row, rfl, hm⟩) h
    · simp [rowEffect, afterOf, hm]

end

/-! ## The actions of a manifest -/

section
variable {S : ImportSnapshot}

theorem mem_feature_actions {e : RowEffect CatalogFeature} :
    .feature e ∈ (importEffects S ids m effectiveAt).actions ↔ ∃ input ∈ m.features,
      e = featureEffect S ids effectiveAt input ∧ e.effect ≠ .unchanged := by
  simp only [ImportEffects.actions, importEffects, changes, List.mem_append, List.mem_map,
    List.mem_filter, decide_eq_true_eq, reduceCtorEq, and_false, exists_false, or_false,
    ImportAction.feature.injEq, exists_eq_right]
  constructor
  · rintro ⟨⟨input, hin, rfl⟩, hne⟩
    exact ⟨input, hin, rfl, hne⟩
  · rintro ⟨input, hin, rfl, hne⟩
    exact ⟨⟨input, hin, rfl⟩, hne⟩

theorem mem_plan_actions {e : RowEffect CatalogPlan} :
    .plan e ∈ (importEffects S ids m effectiveAt).actions ↔ ∃ p ∈ m.plans,
      e = planEffect S ids effectiveAt p.toCatalogPlanInput ∧ e.effect ≠ .unchanged := by
  simp only [ImportEffects.actions, importEffects, changes, List.mem_append, List.mem_map,
    List.mem_filter, decide_eq_true_eq, reduceCtorEq, and_false, exists_false, or_false, false_or,
    ImportAction.plan.injEq, exists_eq_right]
  constructor
  · rintro ⟨⟨input, hin, rfl⟩, hne⟩
    exact ⟨input, hin, rfl, hne⟩
  · rintro ⟨input, hin, rfl, hne⟩
    exact ⟨⟨input, hin, rfl⟩, hne⟩

/-- The effect of a feature of a plan. -/
def effectIn (S : ImportSnapshot) (ids : NewIds) (effectiveAt : Int) (p : ManifestPlan)
    (f : CatalogPlanFeatureInput) : RowEffect CatalogPlanFeature :=
  planFeatureEffect S effectiveAt p.plan_key (plannedId S ids effectiveAt p.toCatalogPlanInput) f

theorem mem_planFeature_actions {e : RowEffect CatalogPlanFeature} :
    .planFeature e ∈ (importEffects S ids m effectiveAt).actions ↔ ∃ p ∈ m.plans,
      ∃ f ∈ p.features, e = effectIn S ids effectiveAt p f ∧ e.effect ≠ .unchanged := by
  simp only [ImportEffects.actions, importEffects, changes, List.mem_append, List.mem_map,
    List.mem_filter, decide_eq_true_eq, reduceCtorEq, and_false, exists_false, false_or,
    ImportAction.planFeature.injEq, exists_eq_right, List.mem_flatMap]
  constructor
  · rintro ⟨⟨p, hp, f, hf, rfl⟩, hne⟩
    exact ⟨p, hp, f, hf, rfl, hne⟩
  · rintro ⟨p, hp, f, hf, rfl, hne⟩
    exact ⟨⟨p, hp, f, hf, rfl⟩, hne⟩

end

/-! ## The snapshot of a store -/

/-- A feature of the manifest that the snapshot misses is not in the catalog. -/
theorem no_feature {input : CatalogFeatureInput} (hin : input ∈ m.features)
    (h : (buildSnapshot m s).feature input.key = none) {f : CatalogFeature}
    (hf : f ∈ s.catalog_features) : featureKey f ≠ input.key := by
  intro hk
  have hsnap : f ∈ (buildSnapshot m s).features := by
    refine List.mem_filter.mpr ⟨hf, decide_eq_true ?_⟩
    exact List.mem_map.mpr ⟨input, hin, hk.symm⟩
  have hnone := List.find?_eq_none.mp h f hsnap
  obtain ⟨h1, h2⟩ := Prod.mk.inj hk
  simp [h1, h2, CatalogFeatureInput.key] at hnone

theorem no_plan {p : ManifestPlan} (hin : p ∈ m.plans)
    (h : (buildSnapshot m s).plan p.toCatalogPlanInput.key = none) {q : CatalogPlan}
    (hq : q ∈ s.catalog_plans) : planKey q ≠ p.toCatalogPlanInput.key := by
  intro hk
  have hsnap : q ∈ (buildSnapshot m s).plans := by
    refine List.mem_filter.mpr ⟨hq, decide_eq_true ?_⟩
    exact List.mem_map.mpr ⟨p, hin, hk.symm⟩
  have hnone := List.find?_eq_none.mp h q hsnap
  obtain ⟨h1, h2⟩ := Prod.mk.inj hk
  simp [h1, h2, CatalogPlanInput.key] at hnone

/-- The plan with the id that the manifest gives to one of its plans is that plan. -/
theorem plan_of_id (hfresh : FreshIds ids m s) {p : ManifestPlan} (hp : p ∈ m.plans)
    {q : CatalogPlan}
    (hq : q ∈ s.catalog_plans)
    (hid : q.id = plannedId (buildSnapshot m s) ids effectiveAt p.toCatalogPlanInput) :
    planKey q = p.toCatalogPlanInput.key := by
  cases hfind : (buildSnapshot m s).plan p.toCatalogPlanInput.key with
  | none =>
    have hnew : plannedId (buildSnapshot m s) ids effectiveAt p.toCatalogPlanInput =
        ids.plan p.toCatalogPlanInput.key := by
      simp [plannedId, planEffect, rowEffect, afterOf, planAfter, hfind]
    exact absurd (hid.trans hnew) (hfresh.new_plan p hp q hq)
  | some row =>
    obtain ⟨hrow, hkey⟩ := snapshot_plan hfind
    have hold : plannedId (buildSnapshot m s) ids effectiveAt p.toCatalogPlanInput = row.id := by
      simp only [plannedId, planEffect, rowEffect, afterOf, planAfter, hfind]
      split <;> rfl
    obtain rfl : q = row := Table.unique hq (mem_snapshot_plans hrow) (.inl (hid.trans hold))
    exact hkey

/-- A plan that is there keeps its id. -/
theorem plannedId_of_plan {p : ManifestPlan} (hp : p ∈ m.plans) {q : CatalogPlan}
    (hq : q ∈ s.catalog_plans) (hkey : planKey q = p.toCatalogPlanInput.key) :
    plannedId (buildSnapshot m s) ids effectiveAt p.toCatalogPlanInput = q.id := by
  cases hfind : (buildSnapshot m s).plan p.toCatalogPlanInput.key with
  | none => exact absurd hkey (no_plan hp hfind hq)
  | some row =>
    obtain ⟨hrow, hkey'⟩ := snapshot_plan hfind
    obtain rfl : q = row :=
      Table.unique hq (mem_snapshot_plans hrow) (plan_clash (hkey.trans hkey'.symm))
    simp only [plannedId, planEffect, rowEffect, afterOf, planAfter, hfind]
    split <;> rfl

/-- A row of the catalog at a place of the manifest is the row that the snapshot
has there. -/
theorem planFeature_there (hlinked : ∀ f ∈ s.catalog_plan_features, s.Linked f)
    (hfresh : FreshIds ids m s) {p : ManifestPlan} (hp : p ∈ m.plans) {f : CatalogPlanFeatureInput}
    (hf : f ∈ p.features) {row : CatalogPlanFeature} (hrow : row ∈ s.catalog_plan_features)
    (hkey : planFeatureKey row =
      (plannedId (buildSnapshot m s) ids effectiveAt p.toCatalogPlanInput, f.feature_key)) :
    row.project = p.project ∧ (buildSnapshot m s).planFeature
      (plannedId (buildSnapshot m s) ids effectiveAt p.toCatalogPlanInput) f.feature_key =
        some row := by
  obtain ⟨hid, hfeature⟩ := Prod.mk.inj hkey
  obtain ⟨⟨plan, hplan, hproject, hplanId⟩, -, -⟩ := hlinked row hrow
  have hplanKey := plan_of_id hfresh hp hplan (hplanId.trans hid)
  obtain ⟨h1, h2⟩ := Prod.mk.inj hplanKey
  refine ⟨hproject.symm.trans h1, ?_⟩
  have hsnap : row ∈ (buildSnapshot m s).planFeatures := by
    refine List.mem_filter.mpr ⟨hrow, decide_eq_true ⟨plan, hplan, hproject, hplanId, p, hp, ?_⟩⟩
    exact ⟨h1.symm, h2.symm, List.mem_map.mpr ⟨f, hf, hfeature.symm⟩⟩
  cases hfind : (buildSnapshot m s).planFeature
      (plannedId (buildSnapshot m s) ids effectiveAt p.toCatalogPlanInput) f.feature_key with
  | none =>
    have hnone := List.find?_eq_none.mp hfind row hsnap
    simp [hid, hfeature] at hnone
  | some row' =>
    obtain ⟨hin, hkey'⟩ := snapshot_planFeature hfind
    have hin' : row' ∈ s.catalog_plan_features := (List.mem_filter.mp hin).1
    rw [Table.unique hin' hrow (planFeature_clash (hkey'.trans hkey.symm))]

/-! ## Rows before an action -/

theorem nodup_middle {ρ κ : Type} {key : ρ → κ} {l l' : List ρ} {x : ρ}
    (h : ((l ++ x :: l').map key).Nodup) : (l.map key).Nodup ∧ key x ∉ l.map key := by
  rw [List.map_append, List.nodup_append] at h
  refine ⟨h.1, fun hmem => ?_⟩
  exact h.2.2 _ hmem _ (by simp) rfl

section
variable {before after : List ImportAction}

theorem featureRows_split {e : RowEffect CatalogFeature} :
    featureRows (before ++ .feature e :: after) =
      featureRows before ++ e.after :: featureRows after := by
  simp [featureRows, List.filterMap_append]

theorem planRows_split {e : RowEffect CatalogPlan} :
    planRows (before ++ .plan e :: after) = planRows before ++ e.after :: planRows after := by
  simp [planRows, List.filterMap_append]

theorem planFeatureRows_split {e : RowEffect CatalogPlanFeature} :
    planFeatureRows (before ++ .planFeature e :: after) =
      planFeatureRows before ++ e.after :: planFeatureRows after := by
  simp [planFeatureRows, List.filterMap_append]

theorem mem_featureRows {f : CatalogFeature} :
    f ∈ featureRows before ↔ ∃ e, .feature e ∈ before ∧ e.after = f := by
  unfold featureRows
  rw [List.mem_filterMap]
  constructor
  · rintro ⟨a, ha, heq⟩
    cases a with
    | feature e => exact ⟨e, ha, Option.some.inj heq⟩
    | plan e => cases heq
    | planFeature e => cases heq
  · rintro ⟨e, he, rfl⟩
    exact ⟨_, he, rfl⟩

theorem mem_planRows {p : CatalogPlan} :
    p ∈ planRows before ↔ ∃ e, .plan e ∈ before ∧ e.after = p := by
  unfold planRows
  rw [List.mem_filterMap]
  constructor
  · rintro ⟨a, ha, heq⟩
    cases a with
    | feature e => cases heq
    | plan e => exact ⟨e, ha, Option.some.inj heq⟩
    | planFeature e => cases heq
  · rintro ⟨e, he, rfl⟩
    exact ⟨_, he, rfl⟩

theorem mem_planFeatureRows {f : CatalogPlanFeature} :
    f ∈ planFeatureRows before ↔ ∃ e, .planFeature e ∈ before ∧ e.after = f := by
  unfold planFeatureRows
  rw [List.mem_filterMap]
  constructor
  · rintro ⟨a, ha, heq⟩
    cases a with
    | feature e => cases heq
    | plan e => cases heq
    | planFeature e => exact ⟨e, ha, Option.some.inj heq⟩
  · rintro ⟨e, he, rfl⟩
    exact ⟨_, he, rfl⟩

end

/-! ## Features and plans fit -/

/-- What a preview knows of the catalog that it has read. -/
structure Previewable (m : CatalogManifest) (ids : NewIds) (s : Store) : Prop where
  keyed : m.Keyed
  linked : ∀ f ∈ s.catalog_plan_features, s.Linked f
  valid : validateSnapshotDependencies (buildSnapshot m s) m = .ok ()
  fresh : FreshIds ids m s

/-- A new row with a key and an id of its own fits after a put. -/
theorem new_row_fits {ρ κ : Type} [Schema ρ] {key : ρ → κ} {id : ρ → String} {rows : List ρ}
    {t t' : Table ρ} {row : ρ} (hclash : ∀ a b, Schema.clash a b → id a = id b ∨ key a = key b)
    (hput : Puts key rows t t') (hkey : ∀ x ∈ t, key x ≠ key row) (hid : ∀ x ∈ t, id x ≠ id row)
    (hkeys : key row ∉ rows.map key) (hids : ∀ x ∈ rows, id x ≠ id row) :
    ∀ x ∈ t', ¬ Schema.clash row x := by
  intro x hx hc
  rcases (hput x).mp hx with ⟨hold, -⟩ | hrow
  · rcases hclash row x hc with h | h
    · exact hid x hold h.symm
    · exact hkey x hold h.symm
  · rcases hclash row x hc with h | h
    · exact hids x hrow h.symm
    · exact hkeys (List.mem_map.mpr ⟨x, hrow, h.symm⟩)

theorem feature_clash_cases (f g : CatalogFeature) (h : Schema.clash f g) :
    f.id = g.id ∨ featureKey f = featureKey g := h.imp id fun h => Prod.ext h.1 h.2

theorem plan_clash_cases (p q : CatalogPlan) (h : Schema.clash p q) :
    p.id = q.id ∨ planKey p = planKey q := h.imp id fun h => Prod.ext h.1 h.2

/-- The id of a feature after an import is a new one or that of a row with its
key. -/
theorem featureAfter_id (m : CatalogManifest) (s : Store) (ids : NewIds) (effectiveAt : Int)
    (input : CatalogFeatureInput) :
    (featureEffect (buildSnapshot m s) ids effectiveAt input).after.id = ids.feature input.key ∨
      ∃ f ∈ s.catalog_features, f.id =
        (featureEffect (buildSnapshot m s) ids effectiveAt input).after.id := by
  cases hfind : (buildSnapshot m s).feature input.key with
  | none => exact .inl (by simp [featureEffect, rowEffect, afterOf, featureAfter, hfind])
  | some row =>
    refine .inr ⟨row, (List.mem_filter.mp (snapshot_feature hfind).1).1, ?_⟩
    simp only [featureEffect, rowEffect, afterOf, featureAfter, hfind]
    split <;> rfl

theorem planAfter_id (m : CatalogManifest) (s : Store) (ids : NewIds) (effectiveAt : Int)
    (input : CatalogPlanInput) :
    (planEffect (buildSnapshot m s) ids effectiveAt input).after.id = ids.plan input.key ∨
      ∃ p ∈ s.catalog_plans, p.id =
        (planEffect (buildSnapshot m s) ids effectiveAt input).after.id := by
  cases hfind : (buildSnapshot m s).plan input.key with
  | none => exact .inl (by simp [planEffect, rowEffect, afterOf, planAfter, hfind])
  | some row =>
    refine .inr ⟨row, mem_snapshot_plans (snapshot_plan hfind).1, ?_⟩
    simp only [planEffect, rowEffect, afterOf, planAfter, hfind]
    split <;> rfl

section
variable {before after : List ImportAction}

/-- A feature fits after the actions before it. -/
theorem feature_ready (hm : Previewable m ids s) {e : RowEffect CatalogFeature}
    (hsplit : (importEffects (buildSnapshot m s) ids m effectiveAt).actions =
      before ++ .feature e :: after) (hdone : ActionsDone r before s s') :
    Ready s' (.feature e) := by
  have hmem : ∀ a ∈ before ++ [.feature e],
      a ∈ (importEffects (buildSnapshot m s) ids m effectiveAt).actions := by
    intro a ha
    rw [hsplit]
    simp only [List.mem_append, List.mem_cons, List.not_mem_nil, or_false] at ha ⊢
    exact ha.imp id .inl
  obtain ⟨input, hin, he, hne⟩ := mem_feature_actions.mp (hmem (.feature e) (by simp))
  have hd : ((featureRows (importEffects (buildSnapshot m s) ids m effectiveAt).actions).map
    featureKey).Nodup := featureRows_nodup hm.keyed
  rw [hsplit, featureRows_split] at hd
  obtain ⟨hdbefore, hnew⟩ := nodup_middle hd
  have hput := hdone.features hdbefore
  have hkey : featureKey e.after = input.key := by
    rw [he]
    exact featureEffect_key input
  have hafter : e.after = featureAfter ids input ((buildSnapshot m s).feature input.key)
      effectiveAt := by
    rw [he] at hne ⊢
    exact rowEffect_next hne
  have hcreate : e.effect = .create ↔ (buildSnapshot m s).feature input.key = none := by
    rw [he]
    exact rowEffect_create
  cases hfind : (buildSnapshot m s).feature input.key with
  | none =>
    rw [hfind] at hafter
    have hid : e.after.id = ids.feature input.key := by
      rw [hafter]
      rfl
    simp only [Ready, if_pos (hcreate.mpr hfind)]
    refine new_row_fits feature_clash_cases hput (fun f hf => ?_) (fun f hf => ?_) hnew ?_
    · rw [hkey]
      exact no_feature hin hfind hf
    · rw [hid]
      exact hm.fresh.new_feature input hin f hf
    · intro f hf hsame
      rw [hid] at hsame
      obtain ⟨e', he', rfl⟩ := mem_featureRows.mp hf
      obtain ⟨input', hin', rfl, -⟩ := mem_feature_actions.mp (hmem _ (List.mem_append_left _ he'))
      rcases featureAfter_id m s ids effectiveAt input' with hid' | ⟨g, hg, hid'⟩
      · have hinputs := hm.fresh.features input' hin' input hin (hid'.symm.trans hsame)
        exact hnew (List.mem_map.mpr ⟨_, hf, (featureEffect_key input').trans
          (hinputs.trans hkey.symm)⟩)
      · exact hm.fresh.new_feature input hin g hg (hid'.trans hsame)
  | some row =>
    rw [hfind] at hafter
    obtain ⟨hsnap, hrow⟩ := snapshot_feature hfind
    obtain ⟨h1, h2⟩ := Prod.mk.inj hrow
    have hthere : row ∈ s'.catalog_features := by
      refine hput.keeps (List.mem_filter.mp hsnap).1 ?_
      rw [hrow, ← hkey]
      exact hnew
    have hupdate : e.effect ≠ .create := fun h => by
      rw [hcreate.mp h] at hfind
      cases hfind
    simp only [Ready, if_neg hupdate]
    refine ⟨row, hthere, ?_, hrow.trans hkey.symm, ?_⟩
    · rw [hafter]
      rfl
    · rw [hafter]
      cases row
      simp_all [setFeature, featureAfter]

/-- A plan fits after the actions before it. -/
theorem plan_ready (hm : Previewable m ids s) {e : RowEffect CatalogPlan}
    (hsplit : (importEffects (buildSnapshot m s) ids m effectiveAt).actions =
      before ++ .plan e :: after) (hdone : ActionsDone r before s s') : Ready s' (.plan e) := by
  have hmem : ∀ a ∈ before ++ [.plan e],
      a ∈ (importEffects (buildSnapshot m s) ids m effectiveAt).actions := by
    intro a ha
    rw [hsplit]
    simp only [List.mem_append, List.mem_cons, List.not_mem_nil, or_false] at ha ⊢
    exact ha.imp id .inl
  obtain ⟨p, hin, he, hne⟩ := mem_plan_actions.mp (hmem (.plan e) (by simp))
  have hd : ((planRows (importEffects (buildSnapshot m s) ids m effectiveAt).actions).map
    planKey).Nodup := planRows_nodup hm.keyed
  rw [hsplit, planRows_split] at hd
  obtain ⟨hdbefore, hnew⟩ := nodup_middle hd
  have hput := hdone.plans hdbefore
  have hkey : planKey e.after = p.toCatalogPlanInput.key := by
    rw [he]
    exact planEffect_key _
  have hafter : e.after = planAfter ids p.toCatalogPlanInput
      ((buildSnapshot m s).plan p.toCatalogPlanInput.key) effectiveAt := by
    rw [he] at hne ⊢
    exact rowEffect_next hne
  have hcreate : e.effect = .create ↔
      (buildSnapshot m s).plan p.toCatalogPlanInput.key = none := by
    rw [he]
    exact rowEffect_create
  cases hfind : (buildSnapshot m s).plan p.toCatalogPlanInput.key with
  | none =>
    rw [hfind] at hafter
    have hid : e.after.id = ids.plan p.toCatalogPlanInput.key := by
      rw [hafter]
      rfl
    simp only [Ready, if_pos (hcreate.mpr hfind)]
    refine new_row_fits plan_clash_cases hput (fun q hq => ?_) (fun q hq => ?_) hnew ?_
    · rw [hkey]
      exact no_plan hin hfind hq
    · rw [hid]
      exact hm.fresh.new_plan p hin q hq
    · intro q hq hsame
      rw [hid] at hsame
      obtain ⟨e', he', rfl⟩ := mem_planRows.mp hq
      obtain ⟨p', hin', rfl, -⟩ := mem_plan_actions.mp (hmem _ (List.mem_append_left _ he'))
      rcases planAfter_id m s ids effectiveAt p'.toCatalogPlanInput with
        hid' | ⟨g, hg, hid'⟩
      · have hinputs := hm.fresh.plans p' hin' p hin (hid'.symm.trans hsame)
        exact hnew (List.mem_map.mpr ⟨_, hq, (planEffect_key _).trans
          (hinputs.trans hkey.symm)⟩)
      · exact hm.fresh.new_plan p hin g hg (hid'.trans hsame)
  | some row =>
    rw [hfind] at hafter
    obtain ⟨hsnap, hrow⟩ := snapshot_plan hfind
    obtain ⟨h1, h2⟩ := Prod.mk.inj hrow
    have hthere : row ∈ s'.catalog_plans := by
      refine hput.keeps (mem_snapshot_plans hsnap) ?_
      rw [hrow, ← hkey]
      exact hnew
    have hupdate : e.effect ≠ .create := fun h => by
      rw [hcreate.mp h] at hfind
      cases hfind
    simp only [Ready, if_neg hupdate]
    refine ⟨row, hthere, ?_, hrow.trans hkey.symm, ?_⟩
    · rw [hafter]
      rfl
    · rw [hafter]
      cases row
      simp_all [setPlan, planAfter]

end

/-! ## The order of the actions -/

/-- The action of an effect comes after those of features and plans. -/
theorem mem_before {before after : List ImportAction} {E : ImportEffects}
    {e : RowEffect CatalogPlanFeature} (hsplit : E.actions = before ++ .planFeature e :: after)
    {a : ImportAction} (ha : a ∈ (changes E.features).map .feature ++ (changes E.plans).map .plan) :
    a ∈ before := by
  unfold ImportEffects.actions at hsplit
  rcases List.append_eq_append_iff.mp hsplit with ⟨c, rfl, -⟩ | ⟨c, hc, hrest⟩
  · exact List.mem_append_left _ ha
  · cases c with
    | nil =>
      rw [List.append_nil] at hc
      exact hc ▸ ha
    | cons x c =>
      -- no feature and no plan is this action
      obtain ⟨rfl, -⟩ := List.cons.inj hrest
      have hin : ImportAction.planFeature e ∈
          (changes E.features).map .feature ++ (changes E.plans).map .plan := by
        rw [hc]
        simp
      simp at hin

theorem Puts.of_mem {ρ κ : Type} [Schema ρ] {key : ρ → κ} {rows rows' : List ρ} {t t' : Table ρ}
    (h : Puts key rows t t') (hmem : ∀ x, x ∈ rows ↔ x ∈ rows') : Puts key rows' t t' := by
  intro x
  have hkeys : key x ∈ rows.map key ↔ key x ∈ rows'.map key := by
    simp only [List.mem_map, hmem]
  rw [h x, hkeys, hmem]

/-- A put leaves a row of each key. -/
theorem Puts.lasts {ρ κ : Type} [Schema ρ] [DecidableEq κ] {key : ρ → κ} {rows : List ρ}
    {t t' : Table ρ} (h : Puts key rows t t') : Lasts key t t' := by
  intro x hx
  by_cases hk : key x ∈ rows.map key
  · obtain ⟨y, hy, hkey⟩ := List.mem_map.mp hk
    exact ⟨y, h.put hy, hkey⟩
  · exact ⟨x, h.keeps hx hk, rfl⟩

section
variable {S : ImportSnapshot}

theorem changes_nodup_self {ρ κ : Type} {key : ρ → κ} {l : List (RowEffect ρ)}
    (h : ((changes l).map fun e => key e.after).Nodup) : (changes l).Nodup := h.of_map

theorem actions_nodup (h : m.Keyed) (hown : OwnIds S ids m effectiveAt) :
    (importEffects S ids m effectiveAt).actions.Nodup := by
  have h1 : ((featureRows (importEffects S ids m effectiveAt).actions).map featureKey).Nodup :=
    featureRows_nodup h
  have h2 : ((planRows (importEffects S ids m effectiveAt).actions).map planKey).Nodup :=
    planRows_nodup h
  have h3 := planFeatureRows_nodup h hown
  rw [featureRows_actions, List.map_map] at h1
  rw [planRows_actions, List.map_map] at h2
  rw [planFeatureRows_actions, List.map_map] at h3
  unfold ImportEffects.actions
  rw [List.nodup_append, List.nodup_append]
  refine ⟨⟨?_, ?_, ?_⟩, ?_, ?_⟩
  · exact h1.of_map.map fun _ _ heq => ImportAction.feature.inj heq
  · exact h2.of_map.map fun _ _ heq => ImportAction.plan.inj heq
  · simp
  · exact h3.of_map.map fun _ _ heq => ImportAction.planFeature.inj heq
  · intro a ha b hb heq
    simp only [List.mem_append, List.mem_map] at ha hb
    obtain ⟨e, -, rfl⟩ := hb
    rcases ha with ⟨x, -, rfl⟩ | ⟨x, -, rfl⟩ <;> cases heq

/-- The actions of a plan stand in the order of its features. -/
theorem before_actions {p : ManifestPlan} (hp : p ∈ m.plans) {f g : CatalogPlanFeatureInput}
    (h : Before p.features g f) (hf : (effectIn S ids effectiveAt p f).effect ≠ .unchanged)
    (hg : (effectIn S ids effectiveAt p g).effect ≠ .unchanged) :
    Before (importEffects S ids m effectiveAt).actions
      (.planFeature (effectIn S ids effectiveAt p g))
      (.planFeature (effectIn S ids effectiveAt p f)) := by
  have hplan : Before (importEffects S ids m effectiveAt).plan_features
      (effectIn S ids effectiveAt p g) (effectIn S ids effectiveAt p f) := by
    refine (h.map (effectIn S ids effectiveAt p)).sublist ?_
    exact List.sublist_flatten_of_mem (List.mem_map_of_mem hp)
  have hchanges := hplan.filter (p := fun e => decide (e.effect ≠ .unchanged))
    (decide_eq_true hg) (decide_eq_true hf)
  exact (hchanges.map ImportAction.planFeature).sublist (List.sublist_append_right _ _)

theorem OwnIds.eq (h : OwnIds S ids m effectiveAt) {p q : ManifestPlan} (hp : p ∈ m.plans)
    (hq : q ∈ m.plans) (heq : plannedId S ids effectiveAt q.toCatalogPlanInput =
      plannedId S ids effectiveAt p.toCatalogPlanInput) : q = p :=
  List.inj_on_of_nodup_map h hq hp heq

/-- A row of a plan that is put before a feature is that of a feature listed before
it. -/
theorem listed_before (h : m.Keyed) (hown : OwnIds S ids m effectiveAt)
    {before after : List ImportAction} {p : ManifestPlan} (hp : p ∈ m.plans)
    {f : CatalogPlanFeatureInput} (hf : f ∈ p.features)
    (hsplit : (importEffects S ids m effectiveAt).actions =
      before ++ .planFeature (effectIn S ids effectiveAt p f) :: after)
    {row : CatalogPlanFeature} (hrow : row ∈ planFeatureRows before)
    (hplan : row.plan_id = plannedId S ids effectiveAt p.toCatalogPlanInput) :
    ∃ g ∈ p.features, Before p.features g f ∧ row = (effectIn S ids effectiveAt p g).after := by
  have hd := actions_nodup h hown
  have hd' := planFeatureRows_nodup h hown
  obtain ⟨e, he, rfl⟩ := mem_planFeatureRows.mp hrow
  have hmem : .planFeature e ∈ (importEffects S ids m effectiveAt).actions := by
    rw [hsplit]
    exact List.mem_append_left _ he
  have hmemf : .planFeature (effectIn S ids effectiveAt p f) ∈
      (importEffects S ids m effectiveAt).actions := by
    rw [hsplit]
    simp
  obtain ⟨q, hq, g, hg, rfl, hne⟩ := mem_planFeature_actions.mp hmem
  obtain ⟨-, -, -, -, -, hnef⟩ := mem_planFeature_actions.mp hmemf
  have hkey : planFeatureKey (effectIn S ids effectiveAt q g).after =
    (plannedId S ids effectiveAt q.toCatalogPlanInput, g.feature_key) := planFeatureEffect_key _ _ g
  obtain rfl := hown.eq hp hq ((Prod.mk.inj hkey).1.symm.trans hplan)
  refine ⟨g, hg, ?_, rfl⟩
  rw [hsplit] at hd hd'
  have hother : g ≠ f := by
    rintro rfl
    rw [planFeatureRows_split] at hd'
    exact (nodup_middle hd').2 (List.mem_map_of_mem hrow)
  rcases before_or_before hg hf hother with hb | hb
  · exact hb
  · have hfirst := before_actions hp hb hne hnef
    rw [hsplit] at hfirst
    exact absurd ((before_split hd).mpr he) (hfirst.asymm hd)

end

/-! ## Plan features fit -/

/-- Drawn ids keep the plans of a manifest apart. -/
theorem ownIds_of_fresh (hm : Previewable m ids s) :
    OwnIds (buildSnapshot m s) ids m effectiveAt := by
  unfold OwnIds
  refine List.Nodup.map_on (fun p hp q hq hid => ?_) hm.keyed.plans.of_map
  suffices hkey : p.toCatalogPlanInput.key = q.toCatalogPlanInput.key from
    List.inj_on_of_nodup_map hm.keyed.plans hp hq hkey
  rcases planAfter_id m s ids effectiveAt p.toCatalogPlanInput with hnew | ⟨row, hrow, hold⟩
  · rcases planAfter_id m s ids effectiveAt q.toCatalogPlanInput with hnew' | ⟨row, hrow, hold⟩
    · exact hm.fresh.plans p hp q hq (hnew.symm.trans (hid.trans hnew'))
    · exact absurd (hold.trans (hid.symm.trans hnew)) (hm.fresh.new_plan p hp row hrow)
  · exact (plan_of_id hm.fresh hp hrow hold).symm.trans
      (plan_of_id hm.fresh hq hrow (hold.trans hid))

theorem forM_ok {α ε : Type} {f : α → Except ε Unit} {l : List α} (h : l.forM f = .ok ()) {a : α}
    (ha : a ∈ l) : f a = .ok () := by
  induction l with
  | nil => cases ha
  | cons x l ih =>
    change (f x >>= fun _ => l.forM f) = .ok () at h
    obtain ⟨h1, h2⟩ := unit_bind_eq_ok.mp h
    rcases List.mem_cons.mp ha with rfl | ha
    · exact h1
    · exact ih h2 ha

/-- What the check of a plan feature has found. -/
theorem checkDependency_ok {S : ImportSnapshot} {f : CatalogPlanFeatureInput}
    (h : checkDependency S m f = .ok ()) :
    ((f.project, f.feature_key) ∈ m.features.map (·.key) ∨
      (f.project, f.feature_key) ∈ S.referencedFeatures) ∧
    ∀ id, f.policy_id = some id → ∃ policy, S.policy id = some policy ∧
      policy.project = f.project ∧ policy.status = .active := by
  unfold checkDependency at h
  by_cases hkey : (f.project, f.feature_key) ∉ m.features.map (·.key) ∧
      (f.project, f.feature_key) ∉ S.referencedFeatures
  · simp [hkey, bind, Except.bind, throw, throwThe, MonadExceptOf.throw] at h
  · refine ⟨?_, fun id hid => ?_⟩
    · by_contra hno
      exact hkey (not_or.mp hno)
    · simp only [hkey, if_false, hid] at h
      cases hpolicy : S.policy id with
      | none =>
        simp [hpolicy, throw, throwThe, MonadExceptOf.throw] at h
      | some policy =>
        refine ⟨policy, rfl, ?_⟩
        simp only [hpolicy, bind, Except.bind, pure, Except.pure, throw, throwThe,
          MonadExceptOf.throw] at h
        by_cases hproject : policy.project = f.project
        · by_cases hstatus : policy.status = .active
          · exact ⟨hproject, hstatus⟩
          · simp [hproject, hstatus] at h
        · simp [hproject] at h

section
variable {before after : List ImportAction} {p : ManifestPlan} {f : CatalogPlanFeatureInput}

/-- The plan of a plan feature is there when its turn comes. -/
theorem plan_there (hm : Previewable m ids s) {e : RowEffect CatalogPlanFeature}
    (hsplit : (importEffects (buildSnapshot m s) ids m effectiveAt).actions =
      before ++ .planFeature e :: after) (hdone : ActionsDone r before s s') (hp : p ∈ m.plans) :
    (planEffect (buildSnapshot m s) ids effectiveAt p.toCatalogPlanInput).after ∈
      s'.catalog_plans := by
  have hmem : ∀ x, x ∈ planRows before ↔
      x ∈ planRows (importEffects (buildSnapshot m s) ids m effectiveAt).actions := by
    intro x
    rw [mem_planRows, mem_planRows]
    constructor
    · rintro ⟨e', he', rfl⟩
      exact ⟨e', hsplit ▸ List.mem_append_left _ he', rfl⟩
    · rintro ⟨e', he', rfl⟩
      refine ⟨e', mem_before hsplit ?_, rfl⟩
      unfold ImportEffects.actions at he'
      rcases List.mem_append.mp he' with he' | he'
      · exact he'
      · simp at he'
  have hd : ((planRows (importEffects (buildSnapshot m s) ids m effectiveAt).actions).map
    planKey).Nodup := planRows_nodup hm.keyed
  have hdbefore : ((planRows before).map planKey).Nodup := by
    rw [hsplit] at hd
    unfold planRows at hd ⊢
    rw [List.filterMap_append, List.map_append] at hd
    exact (List.nodup_append.mp hd).1
  exact planned_there hm.keyed (Puts.of_mem (hdone.plans hdbefore) hmem) hp

/-- The feature of a plan feature is there when its turn comes. -/
theorem feature_there (hm : Previewable m ids s) {e : RowEffect CatalogPlanFeature}
    (hsplit : (importEffects (buildSnapshot m s) ids m effectiveAt).actions =
      before ++ .planFeature e :: after) (hdone : ActionsDone r before s s') {key : String × String}
    (hkey : key ∈ m.features.map (·.key) ∨ key ∈ (buildSnapshot m s).referencedFeatures) :
    ∃ row ∈ s'.catalog_features, featureKey row = key := by
  have hd : ((featureRows (importEffects (buildSnapshot m s) ids m effectiveAt).actions).map
    featureKey).Nodup := featureRows_nodup hm.keyed
  have hdbefore : ((featureRows before).map featureKey).Nodup := by
    rw [hsplit] at hd
    unfold featureRows at hd ⊢
    rw [List.filterMap_append, List.map_append] at hd
    exact (List.nodup_append.mp hd).1
  have hput := hdone.features hdbefore
  rcases hkey with hkey | hkey
  · obtain ⟨input, hin, rfl⟩ := List.mem_map.mp hkey
    by_cases hu : (featureEffect (buildSnapshot m s) ids effectiveAt input).effect = .unchanged
    · obtain ⟨row, hrow, -⟩ := rowEffect_unchanged.mp hu
      obtain ⟨hsnap, hk⟩ := snapshot_feature hrow
      exact lasts_of_key (Puts.lasts hput) ⟨row, (List.mem_filter.mp hsnap).1, hk⟩
    · have hrow : (featureEffect (buildSnapshot m s) ids effectiveAt input).after ∈
          featureRows before := by
        refine mem_featureRows.mpr ⟨_, mem_before hsplit (List.mem_append_left _ ?_), rfl⟩
        refine List.mem_map_of_mem (List.mem_filter.mpr ⟨?_, decide_eq_true hu⟩)
        exact List.mem_map_of_mem hin
      exact ⟨_, hput.put hrow, featureEffect_key input⟩
  · obtain ⟨hin, -⟩ := List.mem_filter.mp hkey
    obtain ⟨row, hrow, rfl⟩ := List.mem_map.mp hin
    exact lasts_of_key (Puts.lasts hput) ⟨row, hrow, rfl⟩

theorem planFeature_linked (hm : Previewable m ids s)
    (hsplit : (importEffects (buildSnapshot m s) ids m effectiveAt).actions =
      before ++ .planFeature (effectIn (buildSnapshot m s) ids effectiveAt p f) :: after)
    (hdone : ActionsDone r before s s') (hp : p ∈ m.plans) (hf : f ∈ p.features)
    {row : CatalogPlanFeature} (hrow : row = planFeatureAfter f
      (plannedId (buildSnapshot m s) ids effectiveAt p.toCatalogPlanInput)
      ((buildSnapshot m s).planFeature
        (plannedId (buildSnapshot m s) ids effectiveAt p.toCatalogPlanInput) f.feature_key)
      effectiveAt) : s'.Linked row := by
  subst hrow
  have hvalid := forM_ok hm.valid (List.mem_flatMap.mpr ⟨p, hp, hf⟩)
  obtain ⟨hfeature, hpolicy⟩ := checkDependency_ok hvalid
  refine ⟨⟨_, plan_there hm hsplit hdone hp, ?_, rfl⟩, ?_, ?_⟩
  · have hkey : planKey (planEffect (buildSnapshot m s) ids effectiveAt p.toCatalogPlanInput).after =
        p.toCatalogPlanInput.key := planEffect_key _
    exact (Prod.mk.inj hkey).1.trans (hm.keyed.projects p hp f hf).symm
  · obtain ⟨c, hc, hkey⟩ := feature_there hm hsplit hdone hfeature
    exact ⟨c, hc, (Prod.mk.inj hkey).1, (Prod.mk.inj hkey).2⟩
  · cases hid : f.policy_id with
    | none => exact .inl hid
    | some id =>
      obtain ⟨policy, hfind, -, -⟩ := hpolicy id hid
      have hin := (List.mem_filter.mp (List.mem_of_find?_eq_some hfind)).1
      have hfound := List.find?_some hfind
      refine .inr ⟨policy, ?_, ?_⟩
      · rw [hdone.policies]
        exact hin
      · simp only [decide_eq_true_eq] at hfound
        simp only [planFeatureAfter, hid, hfound]

end

/-! ## The values after an effect -/

theorem rowEffect_matches {ρ : Type} {target : ρ → ImportTarget} {status : ρ → CatalogStatus}
    {existing : Option ρ} (isMatch : ρ → Bool) {next : ρ} {nextStatus : CatalogStatus}
    (h : isMatch next = true) :
    isMatch (rowEffect target status existing isMatch next nextStatus).after = true := by
  cases existing with
  | none => exact h
  | some row =>
    simp only [rowEffect, afterOf]
    split
    · assumption
    · exact h

section
variable (S : ImportSnapshot) (ids : NewIds) (effectiveAt : Int)

theorem featureEffect_matches (input : CatalogFeatureInput) :
    featureMatches (featureEffect S ids effectiveAt input).after input = true :=
  rowEffect_matches (featureMatches · input) (by simp [featureMatches, featureAfter])

theorem planEffect_matches (input : CatalogPlanInput) :
    planMatches (planEffect S ids effectiveAt input).after input = true :=
  rowEffect_matches (planMatches · input) (by simp [planMatches, planAfter])

theorem effectIn_matches (p : ManifestPlan) (f : CatalogPlanFeatureInput) :
    planFeatureMatches (effectIn S ids effectiveAt p f).after f = true :=
  rowEffect_matches (planFeatureMatches · f)
    (by simp [planFeatureMatches, planFeatureAfter])

theorem effectIn_addon (p : ManifestPlan) (f : CatalogPlanFeatureInput) :
    (effectIn S ids effectiveAt p f).after.addon_key = f.addon_key := by
  have h := effectIn_matches S ids effectiveAt p f
  simp only [planFeatureMatches, Bool.and_eq_true, beq_iff_eq] at h
  exact h.1.1.1.1.2

theorem effectIn_key (p : ManifestPlan) (f : CatalogPlanFeatureInput) :
    planFeatureKey (effectIn S ids effectiveAt p f).after =
      (plannedId S ids effectiveAt p.toCatalogPlanInput, f.feature_key) :=
  planFeatureEffect_key _ _ f

end

/-! ## Add-on keys -/

/-- No other row holds the add-on key of a plan feature when its turn comes. -/
theorem addon_free (hm : Previewable m ids s) (hfree : AddonsFree m s)
    {before after : List ImportAction} {p : ManifestPlan} {f : CatalogPlanFeatureInput}
    (hsplit : (importEffects (buildSnapshot m s) ids m effectiveAt).actions =
      before ++ .planFeature (effectIn (buildSnapshot m s) ids effectiveAt p f) :: after)
    (hput : Puts planFeatureKey (planFeatureRows before) s.catalog_plan_features
      s'.catalog_plan_features) (hp : p ∈ m.plans) (hf : f ∈ p.features)
    {row : CatalogPlanFeature} (hrow : row ∈ s'.catalog_plan_features)
    (hplan : row.plan_id = plannedId (buildSnapshot m s) ids effectiveAt p.toCatalogPlanInput)
    (hne : row.feature_key ≠ f.feature_key) : ¬ Same f.addon_key row.addon_key := by
  intro hsame
  have hown : OwnIds (buildSnapshot m s) ids m effectiveAt := ownIds_of_fresh hm
  have hd := actions_nodup hm.keyed hown
  obtain ⟨hapart, hlisted⟩ := hfree p hp
  rcases (hput row).mp hrow with ⟨hold, hkept⟩ | hput'
  · -- a row of before that holds the key is listed before, so it has been put
    obtain ⟨⟨plan, hplanIn, hproject, hplanId⟩, -, -⟩ := hm.linked row hold
    have hplanKey := plan_of_id hm.fresh hp hplanIn (hplanId.trans hplan)
    obtain ⟨g, hg, hkey, hb⟩ :=
      hlisted f hf plan hplanIn hplanKey row hold hplanId.symm hsame hne
    by_cases hu : (effectIn (buildSnapshot m s) ids effectiveAt p g).effect = .unchanged
    · obtain ⟨row', hfind, hmatch⟩ := rowEffect_unchanged.mp hu
      have hthere := (planFeature_there hm.linked hm.fresh hp hg hold (Prod.ext hplan hkey.symm)).2
      rw [hfind] at hthere
      obtain rfl := Option.some.inj hthere
      have haddon : row'.addon_key = g.addon_key := by
        rw [← effectIn_addon (buildSnapshot m s) ids effectiveAt p g]
        exact congrArg _ (rowEffect_after hfind hmatch).symm
      rw [haddon] at hsame
      exact hne (hkey.symm.trans (hapart f hf g hg hsame).symm)
    · have hmem : .planFeature (effectIn (buildSnapshot m s) ids effectiveAt p f) ∈
          (importEffects (buildSnapshot m s) ids m effectiveAt).actions := by
        rw [hsplit]
        simp
      obtain ⟨-, -, -, -, -, hnef⟩ := mem_planFeature_actions.mp hmem
      have hfirst := before_actions hp hb hnef hu
      rw [hsplit] at hfirst hd
      refine hkept (List.mem_map.mpr ⟨_, mem_planFeatureRows.mpr
        ⟨_, (before_split hd).mp hfirst, rfl⟩, ?_⟩)
      exact (effectIn_key _ _ _ p g).trans (Prod.ext hplan.symm hkey)
  · obtain ⟨g, hg, -, rfl⟩ := listed_before hm.keyed hown hp hf hsplit hput' hplan
    rw [effectIn_addon] at hsame
    refine hne ?_
    rw [hapart f hf g hg hsame]
    exact (Prod.mk.inj (effectIn_key _ _ _ p g)).2

/-- A plan feature fits after the actions before it. -/
theorem planFeature_ready (hm : Previewable m ids s) (hfree : AddonsFree m s)
    {before after : List ImportAction} {e : RowEffect CatalogPlanFeature}
    (hsplit : (importEffects (buildSnapshot m s) ids m effectiveAt).actions =
      before ++ .planFeature e :: after) (hdone : ActionsDone r before s s') :
    Ready s' (.planFeature e) := by
  have hmem : .planFeature e ∈ (importEffects (buildSnapshot m s) ids m effectiveAt).actions := by
    rw [hsplit]
    simp
  obtain ⟨p, hp, f, hf, rfl, hne⟩ := mem_planFeature_actions.mp hmem
  have hd := planFeatureRows_nodup hm.keyed
    (ownIds_of_fresh hm : OwnIds (buildSnapshot m s) ids m effectiveAt)
  rw [hsplit, planFeatureRows_split] at hd
  obtain ⟨hdbefore, hnew⟩ := nodup_middle hd
  have hput := hdone.plan_features hdbefore
  obtain ⟨hid, hfeature⟩ := Prod.mk.inj (effectIn_key (buildSnapshot m s) ids effectiveAt p f)
  have hafter : (effectIn (buildSnapshot m s) ids effectiveAt p f).after = planFeatureAfter f
      (plannedId (buildSnapshot m s) ids effectiveAt p.toCatalogPlanInput)
      ((buildSnapshot m s).planFeature
        (plannedId (buildSnapshot m s) ids effectiveAt p.toCatalogPlanInput) f.feature_key)
      effectiveAt := rowEffect_next hne
  refine ⟨planFeature_linked hm hsplit hdone hp hf hafter, fun row hrow hother hsame => ?_, ?_⟩
  · obtain ⟨hplan, haddon⟩ := hsame
    rw [effectIn_addon] at haddon
    refine addon_free hm hfree hsplit hput hp hf hrow (hplan.symm.trans hid) ?_ haddon
    exact fun heq => hother ⟨hplan.symm, heq.trans hfeature.symm⟩
  · have hthere : ∀ row ∈ s.catalog_plan_features,
        row.sameRow (effectIn (buildSnapshot m s) ids effectiveAt p f).after → _ := fun row hrow hs =>
      planFeature_there hm.linked hm.fresh hp hf hrow
        (Prod.ext (hs.1.trans hid) (hs.2.trans hfeature))
    split
    · rename_i hcreate
      intro row hrow hs
      rcases (hput row).mp hrow with ⟨hold, -⟩ | hput'
      · have hnone : (buildSnapshot m s).planFeature
            (plannedId (buildSnapshot m s) ids effectiveAt p.toCatalogPlanInput) f.feature_key =
              none := rowEffect_create.mp hcreate
        rw [(hthere row hold hs).2] at hnone
        cases hnone
      · exact hnew (List.mem_map.mpr ⟨row, hput', Prod.ext hs.1 hs.2⟩)
    · rename_i hupdate
      obtain ⟨row, hrow⟩ := Option.ne_none_iff_exists'.mp fun hnone =>
        hupdate (rowEffect_create.mpr hnone)
      obtain ⟨hsnap, hkey⟩ := snapshot_planFeature hrow
      obtain ⟨h1, h2⟩ := Prod.mk.inj hkey
      have hold : row ∈ s.catalog_plan_features := (List.mem_filter.mp hsnap).1
      have hsame : row.sameRow (effectIn (buildSnapshot m s) ids effectiveAt p f).after :=
        ⟨h1.trans hid.symm, h2.trans hfeature.symm⟩
      have hproject : row.project = f.project :=
        (hthere row hold hsame).1.trans (hm.keyed.projects p hp f hf).symm
      refine ⟨row, hput.keeps hold ?_, ?_, hsame, ?_⟩
      · rw [show planFeatureKey row = planFeatureKey
          (effectIn (buildSnapshot m s) ids effectiveAt p f).after from Prod.ext hsame.1 hsame.2]
        exact hnew
      · rw [hafter]
        exact hproject
      · rw [hafter, hrow]
        cases row
        simp_all [setPlanFeature, planFeatureAfter]

/-! ## Enough -/

theorem action_ready (hm : Previewable m ids s) (hfree : AddonsFree m s)
    {before after : List ImportAction} {a : ImportAction}
    (hsplit : (importEffects (buildSnapshot m s) ids m effectiveAt).actions = before ++ a :: after)
    (hdone : ActionsDone r before s s') : Ready s' a := by
  cases a with
  | feature e => exact feature_ready hm hsplit hdone
  | plan e => exact plan_ready hm hsplit hdone
  | planFeature e => exact planFeature_ready hm hfree hsplit hdone

/-- The import of a claimable preview whose add-ons are free commits. -/
theorem import_commits (hm : Previewable m ids s) (hfree : AddonsFree m s) {p : ImportPreviewRow}
    (hp : p ∈ s.catalog_import_previews) (hc : Claimable r s p) (hkey : KeyUnused r s)
    {clock : Nat → Int} : ∃ ns s', runBatch (importBatch r
      (importEffects (buildSnapshot m s) ids m effectiveAt).actions) clock 0 s = .ok (ns, s') ∧
        ns.head? ≠ some 0 := by
  refine importBatch_succeeds hp hc hkey fun before a after heq t s' hdone => ?_
  have hm' : Previewable m ids { s with catalog_import_previews := t } :=
    ⟨hm.keyed, hm.linked, hm.valid,
      ⟨hm.fresh.features, hm.fresh.plans, hm.fresh.new_feature, hm.fresh.new_plan⟩⟩
  exact action_ready hm' hfree heq hdone

/-! ## Needed -/

/-- The states around one action of a batch with the claim. -/
theorem import_at {ns : List Nat} {clock : Nat → Int} {before after : List ImportAction}
    {a : ImportAction}
    (hrun : runBatch (importBatch r (before ++ a :: after)) clock 0 s = .ok (ns, s'))
    (hn : ns.head? ≠ some 0) : ∃ t s₂ s₃,
      ActionsDone r before { s with catalog_import_previews := t } s₂ ∧
        ActionsDone r [a] s₂ s₃ := by
  unfold importBatch at hrun
  rw [List.append_assoc, List.cons_append] at hrun
  obtain ⟨n₁, s₁, ms₁, h1, hrest, rfl⟩ := runBatch_cons.mp hrun
  rw [List.singleton_append] at hrest
  obtain ⟨n₀, s₀, ms₀, h0, hrest, -⟩ := runBatch_cons.mp hrest
  obtain ⟨-, rfl⟩ := Prod.mk.inj (Except.ok.inj h0)
  obtain ⟨p, hp, hc, t, rfl, hput⟩ := claim_ok h1 fun hz => hn (by rw [hz]; rfl)
  have hclaimed : Claimed r { s with catalog_import_previews := t } :=
    ⟨claim r p, hput.put List.mem_cons_self, hc.1, rfl, hc.2.2.2.1⟩
  rw [List.map_append, List.flatten_append, List.append_assoc] at hrest
  obtain ⟨ms₂, s₂, clock₂, changes₂, ms₃, hbefore, hrest, -⟩ := runBatch_append hrest
  have hdone := actions_ok hclaimed hbefore
  rw [List.map_cons, List.flatten_cons, List.append_assoc] at hrest
  obtain ⟨ms₄, s₃, clock₄, changes₄, ms₅, haction, -, -⟩ := runBatch_append hrest
  have hclaimed₂ : Claimed r s₂ := (claimed_of_previews hdone.previews).mpr hclaimed
  exact ⟨t, s₂, s₃, hdone, (action_ok hclaimed₂ haction).1⟩

/-- The plan features of the manifest are there after the import. -/
theorem planFeature_final (hm : Previewable m ids s)
    (hput : Puts planFeatureKey
      (planFeatureRows (importEffects (buildSnapshot m s) ids m effectiveAt).actions)
      s.catalog_plan_features s'.catalog_plan_features) {p : ManifestPlan} (hp : p ∈ m.plans)
    {f : CatalogPlanFeatureInput} (hf : f ∈ p.features) :
    (effectIn (buildSnapshot m s) ids effectiveAt p f).after ∈ s'.catalog_plan_features := by
  rw [planFeatureRows_actions] at hput
  refine effect_there ?_ hput (fun e he hu => ?_)
    (List.mem_flatMap.mpr ⟨p, hp, List.mem_map_of_mem hf⟩)
  · exact planFeatureEffects_nodup hm.keyed (ownIds_of_fresh hm)
  · obtain ⟨q, -, he⟩ := List.mem_flatMap.mp he
    obtain ⟨g, -, rfl⟩ := List.mem_map.mp he
    obtain ⟨row, hrow, hmatch⟩ := rowEffect_unchanged.mp hu
    rw [show (planFeatureEffect (buildSnapshot m s) effectiveAt q.plan_key
      (plannedId (buildSnapshot m s) ids effectiveAt q.toCatalogPlanInput) g).after = row from
        rowEffect_after hrow hmatch]
    exact (List.mem_filter.mp (snapshot_planFeature hrow).1).1

/-- An import that commits has found the add-ons free. -/
theorem addons_of_commit (hm : Previewable m ids s) {ns : List Nat} {clock : Nat → Int}
    (hrun : runBatch (importBatch r (importEffects (buildSnapshot m s) ids m effectiveAt).actions)
      clock 0 s = .ok (ns, s')) (hn : ns.head? ≠ some 0) : AddonsFree m s := by
  have hown : OwnIds (buildSnapshot m s) ids m effectiveAt := ownIds_of_fresh hm
  obtain ⟨preview, hcommitted⟩ := importBatch_claimed hrun hn
  have hput := hcommitted.plan_features (planFeatureRows_nodup hm.keyed hown)
  intro p hp
  refine ⟨fun f hf g hg hsame => ?_, fun f hf plan hplan hplanKey row hrow hrowPlan hsame hne => ?_⟩
  · -- both rows are in the table at the end, and the table has the key once
    have hf' := planFeature_final hm hput hp hf
    have hg' := planFeature_final hm hput hp hg
    obtain ⟨hfid, hfkey⟩ := Prod.mk.inj (effectIn_key (buildSnapshot m s) ids effectiveAt p f)
    obtain ⟨hgid, hgkey⟩ := Prod.mk.inj (effectIn_key (buildSnapshot m s) ids effectiveAt p g)
    have hrows := Table.unique hf' hg' (.inr ⟨hfid.trans hgid.symm, by
      rw [effectIn_addon, effectIn_addon]
      exact hsame⟩)
    rw [← hfkey, ← hgkey, hrows]
  · obtain ⟨hfid, hfkey⟩ := Prod.mk.inj (effectIn_key (buildSnapshot m s) ids effectiveAt p f)
    have hid : row.plan_id = plannedId (buildSnapshot m s) ids effectiveAt p.toCatalogPlanInput :=
      hrowPlan.trans (plannedId_of_plan hp hplan hplanKey).symm
    have hclash : ∀ t : Table CatalogPlanFeature,
        (effectIn (buildSnapshot m s) ids effectiveAt p f).after ∈ t → row ∉ t := by
      intro t hin hrow'
      have hrows := Table.unique hin hrow' (.inr ⟨hfid.trans hid.symm, by
        rw [effectIn_addon]
        exact hsame⟩)
      rw [← hrows] at hne
      exact hne hfkey
    by_cases hu : (effectIn (buildSnapshot m s) ids effectiveAt p f).effect = .unchanged
    · obtain ⟨row', hfind, hmatch⟩ := rowEffect_unchanged.mp hu
      refine absurd hrow (hclash _ ?_)
      rw [show (effectIn (buildSnapshot m s) ids effectiveAt p f).after = row' from
        rowEffect_after hfind hmatch]
      exact (List.mem_filter.mp (snapshot_planFeature hfind).1).1
    · obtain ⟨before, after, hsplit⟩ := List.append_of_mem
        (mem_planFeature_actions.mpr ⟨p, hp, f, hf, rfl, hu⟩ :
          ImportAction.planFeature (effectIn (buildSnapshot m s) ids effectiveAt p f) ∈
            (importEffects (buildSnapshot m s) ids m effectiveAt).actions)
      rw [hsplit] at hrun
      obtain ⟨t, s₂, s₃, hdone, haction⟩ := import_at hrun hn
      have hd := planFeatureRows_nodup hm.keyed hown
      rw [hsplit, planFeatureRows_split] at hd
      have hput₂ := hdone.plan_features (nodup_middle hd).1
      have hput₃ := haction.plan_features (by simp [planFeatureRows])
      by_cases hlisted : planFeatureKey row ∈ (planFeatureRows before).map planFeatureKey
      · obtain ⟨row', hrow', hkey⟩ := List.mem_map.mp hlisted
        obtain ⟨hplan', hfeature'⟩ := Prod.mk.inj hkey
        obtain ⟨g, hg, hb, rfl⟩ :=
          listed_before hm.keyed hown hp hf hsplit hrow' (hplan'.trans hid)
        refine ⟨g, hg, ?_, hb⟩
        rw [← hfeature']
        exact (Prod.mk.inj (effectIn_key _ _ _ p g)).2.symm
      · have hrow₂ := hput₂.keeps hrow hlisted
        have hrow₃ : row ∈ s₃.catalog_plan_features := by
          refine hput₃.keeps hrow₂ fun hmem => ?_
          have hkey : planFeatureKey row = planFeatureKey
              (effectIn (buildSnapshot m s) ids effectiveAt p f).after := List.mem_singleton.mp hmem
          exact hne ((Prod.mk.inj hkey).2.trans hfkey)
        refine absurd hrow₃ (hclash _ (hput₃.put ?_))
        simp [planFeatureRows]

/-! ## After the import -/

/-- Every row of the manifest is in the catalog with the values of the manifest. -/
def Present (m : CatalogManifest) (s : Store) : Prop :=
  (∀ input ∈ m.features, ∃ row ∈ s.catalog_features,
    featureKey row = input.key ∧ featureMatches row input = true) ∧
  ∀ p ∈ m.plans, ∃ plan ∈ s.catalog_plans, planKey plan = p.toCatalogPlanInput.key ∧
    planMatches plan p.toCatalogPlanInput = true ∧
    ∀ f ∈ p.features, ∃ row ∈ s.catalog_plan_features,
      row.plan_id = plan.id ∧ planFeatureMatches row f = true

theorem feature_final (hm : m.Keyed)
    (hput : Puts featureKey
      (featureRows (importEffects (buildSnapshot m s) ids m effectiveAt).actions)
      s.catalog_features s'.catalog_features) {input : CatalogFeatureInput}
    (hin : input ∈ m.features) :
    (featureEffect (buildSnapshot m s) ids effectiveAt input).after ∈ s'.catalog_features := by
  rw [featureRows_actions] at hput
  refine effect_there ?_ hput (fun e he hu => ?_) (List.mem_map_of_mem hin)
  · simp only [importEffects, List.map_map, Function.comp_def, featureEffect_key]
    exact hm.features
  · obtain ⟨g, -, rfl⟩ := List.mem_map.mp he
    obtain ⟨row, hrow, hmatch⟩ := rowEffect_unchanged.mp hu
    rw [show (featureEffect (buildSnapshot m s) ids effectiveAt g).after = row from
      rowEffect_after hrow hmatch]
    exact (List.mem_filter.mp (snapshot_feature hrow).1).1

theorem present_of_imported (hm : Previewable m ids s) {p : ImportPreviewRow}
    (h : Imported r (importEffects (buildSnapshot m s) ids m effectiveAt).actions p s s') :
    Present m s' := by
  refine ⟨fun input hin => ?_, fun p hp => ?_⟩
  · exact ⟨_, feature_final hm.keyed h.features hin, featureEffect_key input,
      featureEffect_matches _ _ _ input⟩
  · refine ⟨_, planned_there hm.keyed h.plans hp, planEffect_key _, planEffect_matches _ _ _ _,
      fun f hf => ?_⟩
    exact ⟨_, planFeature_final hm h.plan_features hp hf,
      (Prod.mk.inj (effectIn_key _ _ _ p f)).1, effectIn_matches _ _ _ p f⟩

theorem stored_of_imported {actions : List ImportAction} {p : ImportPreviewRow}
    (h : Imported r actions p s s') {a : ImportAction} (ha : a ∈ actions) : Stored a s' := by
  cases a with
  | feature e => exact h.features.put (mem_featureRows.mpr ⟨e, ha, rfl⟩)
  | plan e => exact h.plans.put (mem_planRows.mpr ⟨e, ha, rfl⟩)
  | planFeature e => exact h.plan_features.put (mem_planFeatureRows.mpr ⟨e, ha, rfl⟩)

/-! ## The state of a preview -/

section
variable {w w₀ : CatalogWorld} {o : Oracle} {d : ImportDraft} {call : ImportCall}
  {c : Config CatalogWorld CatalogWrite CatalogResult (Except String CatalogAnswer)}

/-- The ids that the preview has drawn are new. -/
def DrawnNew (d : ImportDraft) (s : Store) : Prop :=
  ∃ ids, FreshIds ids d.manifest s ∧
    deriveEffects (buildSnapshot d.manifest s) ids d.manifest d.effective_at = .ok d.effects

/-- The call of the apply carries out every effect of the preview, and every row of
the manifest is in the catalog with its values. -/
def AppliesWhole (call : ImportCall) (o : Oracle) (d : ImportDraft) (w : CatalogWorld) : Prop :=
  ∃ write, Prog.Writes w (applyCatalogImport call) write ∧
    (write.apply o w.db).1 = .applied (.ok (d.preview call.previewId)) ∧
    (∀ a ∈ d.effects.actions, Stored a (write.apply o w.db).2) ∧
    Present d.manifest (write.apply o w.db).2

/-- What an apply finds right after its preview. -/
structure JustPreviewed (d : ImportDraft) (id : String) (s : Store) : Prop where
  row : d.row id ∈ s.catalog_import_previews
  generation : d.source_generation = s.generation
  admitted : Admitted d

theorem actions_changed (e : ImportEffects) : e.actions.all (·.effect != .unchanged) = true := by
  simp only [List.all_eq_true, ImportEffects.actions, changes, List.mem_append, List.mem_map,
    List.mem_filter, decide_eq_true_eq, bne_iff_ne]
  rintro a ((⟨e, ⟨-, hne⟩, rfl⟩ | ⟨e, ⟨-, hne⟩, rfl⟩) | ⟨e, ⟨-, hne⟩, rfl⟩)
  · exact hne
  · exact hne
  · exact hne

theorem JustPreviewed.stored (h : JustPreviewed d call.previewId s) :
    storedPreview call.previewId s = .ok (d.row call.previewId) := by
  have hfind : s.catalog_import_previews.find? (·.id = call.previewId) =
      some (d.row call.previewId) :=
    Table.find?_eq h.row rfl fun a b ha hb => ha.trans hb.symm
  unfold storedPreview
  rw [hfind]
  exact ensure_bind_eq_ok.mpr ⟨⟨rfl, actions_changed d.effects⟩,
    unit_bind_eq_ok.mpr ⟨h.admitted.2, rfl⟩⟩

/-- The handler comes to the write of its preview. -/
theorem JustPreviewed.writes (h : JustPreviewed d call.previewId w.db) {write : CatalogWrite} :
    Prog.Writes w (applyCatalogImport call) write ↔
      write = .applyImport call d.effective_at d.effects.actions := by
  have hcheck : ∀ p, Prog.Yields w (check (storedPreview call.previewId w.db)) p ↔
      p = d.row call.previewId := by
    intro p
    rw [h.stored]
    exact Prog.yields_pure
  have hno : ∀ v, ¬ Prog.Writes w (check (storedPreview call.previewId w.db)) v := by
    intro v
    rw [h.stored]
    exact Prog.not_writes_pure
  unfold applyCatalogImport select
  simp only [Prog.writes_bind, Prog.not_writes_query, Prog.yields_query, exists_eq_left, hcheck, hno,
    Prog.writes_request, Prog.not_yields_request, false_and, exists_false, or_false, false_or]
  rfl

/-- The state of a run whose last write has stored the preview. -/
theorem justPreviewed (h0 : BeforePreviews w₀) (h : catalogSystem.Reach ⟨w₀, []⟩ c)
    {e : CatalogEntry} {older : List CatalogEntry} (hlast : c.state.log = e :: older) {id : String}
    (hpersists : Persists d id e) : JustPreviewed d id c.state.db := by
  obtain ⟨hafter, o, happly⟩ := World.log_head h0.log h hlast
  have hkept := (System.reach_safe catalog_keeps (fun _ hp w _ => run_handles hp w) h0.kept h).inv
  obtain ⟨hwrite, hresult⟩ := hpersists
  rw [hwrite] at happly
  simp only [CatalogWrite.apply] at happly
  rcases transact_cases (persistBatch d (previewId o.id)) o.clock e.before with
    ⟨a, -, ht⟩ | ⟨ns, s', hrun, ht⟩
  · simp only [ht, hresult, Prod.mk.injEq, reduceCtorEq, false_and] at happly
  · simp only [ht, hresult, Prod.mk.injEq, CatalogResult.persisted.injEq] at happly
    obtain ⟨hpreview, hs'⟩ := happly
    obtain ⟨hn, hpreview⟩ := Option.ite_none_right_eq_some.mp hpreview
    obtain rfl : previewId o.id = id := congrArg ImportPreview.preview_id (Option.some.inj hpreview)
    obtain ⟨t, rfl, -, hstored⟩ := persist_ok hrun
    obtain ⟨hrow, hg⟩ := hstored hn
    have hdb : c.state.db = { e.before with catalog_import_previews := t } :=
      hafter.symm.trans hs'.symm
    have hin : d.row (previewId o.id) ∈ c.state.db.catalog_import_previews := by
      rw [hdb]
      exact hrow
    refine ⟨hin, ?_, ?_⟩
    · rw [hdb]
      exact hg.symm
    · obtain ⟨d', hadmitted, hsame, -⟩ := hkept.issued _ hin
      have hjson : d.preview (previewId o.id) = d'.preview (previewId o.id) := hsame.preview_json
      have hmanifest : d.manifest = d'.manifest := congrArg ImportPreview.manifest hjson
      have heffects : d.effects = d'.effects := congrArg ImportPreview.effects hjson
      unfold Admitted
      rw [hmanifest, heffects]
      exact hadmitted

/-- When no write comes after a preview, an apply of it by its actor before it
expires carries out the whole import exactly when the add-on keys of the manifest
are free one row after another. -/
theorem a_preview_applies_exactly_when_its_addons_are_free (h0 : BeforePreviews w₀)
    (h : catalogSystem.Reach ⟨w₀, []⟩ c) {e : CatalogEntry} {older : List CatalogEntry}
    (hlast : c.state.log = e :: older) (hpersists : Persists d call.previewId e)
    (hlinked : ∀ f ∈ c.state.db.catalog_plan_features, c.state.db.Linked f)
    (hdrawn : DrawnNew d c.state.db) (hactor : call.actor.subject = d.actor_subject)
    (hexpiry : call.now < d.effective_at + previewTtlSeconds)
    (hkey : ¬ ∃ i ∈ c.state.db.responses, i.scope = importScope call.actor ∧
      i.idempotency_key = call.idempotencyKey) :
    AppliesWhole call o d c.state ↔ AddonsFree d.manifest c.state.db := by
  have hjust := justPreviewed h0 h hlast hpersists
  obtain ⟨ids, hfresh, hderive⟩ := hdrawn
  obtain ⟨hvalid, heffects⟩ := unit_bind_eq_ok.mp hderive
  have heffects := (Except.ok.inj heffects).symm
  have hm : Previewable d.manifest ids c.state.db := ⟨hjust.admitted.1.keyed, hlinked, hvalid, hfresh⟩
  constructor
  · rintro ⟨write, hwrites, hresult, -, -⟩
    obtain rfl := hjust.writes.mp hwrites
    simp only [CatalogWrite.apply, CatalogResult.applied.injEq] at hresult
    rcases transact_cases (importBatch (call.run d.effective_at o.id) d.effects.actions) o.clock
      c.state.db with ⟨a, -, ht⟩ | ⟨ns, s', hrun, ht⟩
    · rw [ht] at hresult
      cases hresult
    · rw [ht] at hresult
      by_cases hn : ns.head? = some 0
      · simp only [importResult, hn] at hresult
        cases hresult
      · rw [heffects] at hrun
        exact addons_of_commit hm hrun hn
  · intro hfree
    have hclaimable : Claimable (call.run d.effective_at o.id) c.state.db (d.row call.previewId) :=
      ⟨rfl, hactor.symm, rfl, rfl, hexpiry, hjust.generation⟩
    obtain ⟨ns, s', hrun, hn⟩ : ∃ ns s', runBatch (importBatch (call.run d.effective_at o.id)
        d.effects.actions) o.clock 0 c.state.db = .ok (ns, s') ∧ ns.head? ≠ some 0 := by
      rw [heffects]
      exact import_commits hm hfree hjust.row hclaimable hkey
    obtain ⟨p, hcommitted⟩ := importBatch_claimed hrun hn
    obtain rfl : p = d.row call.previewId :=
      Table.unique hcommitted.there hjust.row hcommitted.claimable.1
    have himported := hcommitted.imported hm.keyed ⟨ids, hderive⟩
    have happly : CatalogWrite.apply o (.applyImport call d.effective_at d.effects.actions)
        c.state.db = (.applied (.ok (d.preview call.previewId)), s') := by
      simp only [CatalogWrite.apply, transact, hrun, importResult_committed hcommitted hn]
      rfl
    refine ⟨_, hjust.writes.mpr rfl, ?_, fun a ha => ?_, ?_⟩
    · rw [happly]
    · rw [happly]
      exact stored_of_imported himported ha
    · rw [happly]
      rw [heffects] at himported
      exact present_of_imported hm himported

end

/-! ## Two previews of one catalog -/

def exampleFeature (key : String) : CatalogFeature where
  id := key
  project := "p"
  feature_key := key
  name := key
  created_at := 0
  updated_at := 0

/-- A feature of the plan with an add-on key. -/
def exampleAddon (key addon : String) : CatalogPlanFeature where
  project := "p"
  plan_id := "plan"
  feature_key := key
  feature_inclusion := .addon
  addon_key := some addon
  created_at := 0
  updated_at := 0

/-- A plan with the features `f` and `g`, whose add-on keys are `a` and `b`. -/
def addonStore : Store where
  catalog_features := ⟨[exampleFeature "f", exampleFeature "g"], by decide, by decide⟩
  catalog_plans := ⟨[⟨"plan", "p", "k", "Plan", .active, 1, "", 0, 0⟩], by decide, by decide⟩
  catalog_plan_features := ⟨[exampleAddon "f" "a", exampleAddon "g" "b"], by decide, by decide⟩

/-- The body of an import that gives `f` and `g` these add-on keys. -/
def addonImport (f g : String) : Value :=
  let feature (key addon : String) : Value := .object [("project", .string "p"),
    ("feature_key", .string key), ("feature_inclusion", .string "addon"),
    ("addon_key", .string addon)]
  .object [
    ("features", .array []),
    ("plans", .array [.object [("project", .string "p"), ("plan_key", .string "k"),
      ("name", .string "Plan"), ("features", .array [feature "f" f, feature "g" g])]])]

/-- The preview of an import. -/
def addonSchedule (body : Value) :
    List (World.Action Store CatalogWrite CatalogResult (Except String CatalogAnswer)) := [
  .start (previewCatalogImport (fun _ => "digest") body exampleAdmin.subject 0
    fun _ => ⟨fun _ => "feat_x", fun _ => "plan_x"⟩).run,
  .read 0, .write 0 1 "a"]

set_option maxRecDepth 20000 in
/-- The run of a preview that gives the key `a` from `f` to `g`. -/
def moveEnd : Config CatalogWorld CatalogWrite CatalogResult (Except String CatalogAnswer) :=
  (World.play CatalogWrite.apply ⟨⟨0, [], addonStore, []⟩, []⟩
    (addonSchedule (addonImport "c" "a"))).get (by decide)

set_option maxRecDepth 20000 in
/-- The run of a preview that swaps the keys of `f` and `g`. -/
def swapEnd : Config CatalogWorld CatalogWrite CatalogResult (Except String CatalogAnswer) :=
  (World.play CatalogWrite.apply ⟨⟨0, [], addonStore, []⟩, []⟩
    (addonSchedule (addonImport "b" "a"))).get (by decide)

/-- The manifest of an import of the plan. -/
def addonManifest (f g : String) : CatalogManifest :=
  let feature (key addon : String) : CatalogPlanFeatureInput :=
    ⟨"p", key, .addon, some addon, none, .active, 0, none⟩
  ⟨[], [⟨⟨"p", "k", "Plan", "", .active, 1⟩, [feature "f" f, feature "g" g]⟩]⟩

/-- The preview of an import of the plan. -/
def addonDraft (f g : String) : ImportDraft where
  actor_subject := exampleAdmin.subject
  manifest_digest := "digest"
  manifest := addonManifest f g
  effects := importEffects (buildSnapshot (addonManifest f g) addonStore)
    ⟨fun _ => "feat_x", fun _ => "plan_x"⟩ (addonManifest f g) 0
  effective_at := 0
  source_generation := 0

theorem moveEnd_reached : catalogSystem.Reach ⟨⟨0, [], addonStore, []⟩, []⟩ moveEnd :=
  World.reach_of_play (Option.some_get _).symm ⟨.preview _ _ _ _ _, ⟨⟩⟩

theorem swapEnd_reached : catalogSystem.Reach ⟨⟨0, [], addonStore, []⟩, []⟩ swapEnd :=
  World.reach_of_play (Option.some_get _).symm ⟨.preview _ _ _ _ _, ⟨⟩⟩

set_option maxRecDepth 20000 in
theorem moveEnd_log : moveEnd.state.log = [⟨.persist (addonDraft "c" "a"),
    .persisted (some ((addonDraft "c" "a").preview "civ_a")), addonStore, moveEnd.state.db⟩] := rfl

set_option maxRecDepth 20000 in
theorem swapEnd_log : swapEnd.state.log = [⟨.persist (addonDraft "b" "a"),
    .persisted (some ((addonDraft "b" "a").preview "civ_a")), addonStore, swapEnd.state.db⟩] := rfl

set_option maxRecDepth 20000 in
theorem moveEnd_linked :
    ∀ f ∈ moveEnd.state.db.catalog_plan_features, moveEnd.state.db.Linked f := by decide

set_option maxRecDepth 20000 in
theorem swapEnd_linked :
    ∀ f ∈ swapEnd.state.db.catalog_plan_features, swapEnd.state.db.Linked f := by decide

set_option maxRecDepth 20000 in
theorem moveEnd_drawn : DrawnNew (addonDraft "c" "a") moveEnd.state.db :=
  ⟨⟨fun _ => "feat_x", fun _ => "plan_x"⟩, ⟨by decide, by decide, by decide, by decide⟩, rfl⟩

set_option maxRecDepth 20000 in
theorem swapEnd_drawn : DrawnNew (addonDraft "b" "a") swapEnd.state.db :=
  ⟨⟨fun _ => "feat_x", fun _ => "plan_x"⟩, ⟨by decide, by decide, by decide, by decide⟩, rfl⟩

set_option maxRecDepth 20000 in
/-- The key that `f` gives up is free when the turn of `g` comes. -/
theorem a_moved_add_on_key_can_be_applied :
    AppliesWhole (exampleCall "k") (World.instant 11 "t") (addonDraft "c" "a") moveEnd.state :=
  (a_preview_applies_exactly_when_its_addons_are_free ⟨rfl, rfl⟩ moveEnd_reached moveEnd_log
    ⟨rfl, rfl⟩ moveEnd_linked moveEnd_drawn rfl (by decide) (by decide)).mpr (by decide)

set_option maxRecDepth 20000 in
/-- A preview that no write follows and that its actor applies before it expires can
still fail as a whole: two features of a plan swap their add-on keys. -/
theorem a_swap_of_add_on_keys_cannot_be_applied :
    ¬ ∀ (w₀ : CatalogWorld)
      (c : Config CatalogWorld CatalogWrite CatalogResult (Except String CatalogAnswer))
      (e : CatalogEntry) (older : List CatalogEntry) (d : ImportDraft) (call : ImportCall)
      (o : Oracle), BeforePreviews w₀ → catalogSystem.Reach ⟨w₀, []⟩ c → c.state.log = e :: older →
      Persists d call.previewId e →
      (∀ f ∈ c.state.db.catalog_plan_features, c.state.db.Linked f) → DrawnNew d c.state.db →
      call.actor.subject = d.actor_subject → call.now < d.effective_at + previewTtlSeconds →
      (¬ ∃ i ∈ c.state.db.responses, i.scope = importScope call.actor ∧
        i.idempotency_key = call.idempotencyKey) → AppliesWhole call o d c.state := by
  intro h
  obtain ⟨write, hwrites, hresult, -⟩ := h _ swapEnd _ [] (addonDraft "b" "a") (exampleCall "k")
    (World.instant 11 "t") ⟨rfl, rfl⟩ swapEnd_reached swapEnd_log ⟨rfl, rfl⟩ swapEnd_linked
    swapEnd_drawn rfl (by decide) (by decide)
  have hjust := justPreviewed (c := swapEnd) ⟨rfl, rfl⟩ swapEnd_reached swapEnd_log
    (d := addonDraft "b" "a") ⟨rfl, rfl⟩
  obtain rfl := JustPreviewed.writes hjust |>.mp hwrites
  have hfailed : (CatalogWrite.apply (World.instant 11 "t") (.applyImport (exampleCall "k") 0
    (addonDraft "b" "a").effects.actions) swapEnd.state.db).1 =
      .applied (.error "catalog_mutation_failed") := rfl
  cases hfailed.symm.trans hresult

end Licensecc.Catalog
