-- The laws of the effects of a manifest. Each row of the manifest has one effect
-- with the key of the row, so the rows that an import writes have each key once.
import Licensecc.Catalog.Commit

open Licensecc.Sql

namespace Licensecc.Catalog

variable {s : ImportSnapshot} {ids : NewIds} {m : CatalogManifest} {effectiveAt : Int}

/-! ## One row -/

section
variable {ρ κ : Type} {target : ρ → ImportTarget} {status : ρ → CatalogStatus}
  {existing : Option ρ} {isMatch : ρ → Bool} {next : ρ} {nextStatus : CatalogStatus}

/-- The row after an effect has the key of the rows that it is made from. -/
theorem rowEffect_key (key : ρ → κ) (k : κ) (hnext : key next = k)
    (hexisting : ∀ row, existing = some row → key row = k) :
    key (rowEffect target status existing isMatch next nextStatus).after = k := by
  cases existing with
  | none => exact hnext
  | some row =>
    simp only [rowEffect, afterOf]
    by_cases h : isMatch row = true
    · rw [if_pos h]
      exact hexisting row rfl
    · rw [if_neg h]
      exact hnext

theorem catalogEffect_unchanged {status : Option CatalogStatus} {isMatch : Bool}
    {next : CatalogStatus} : catalogEffect status isMatch next = .unchanged ↔
      status ≠ none ∧ isMatch = true := by
  cases status with
  | none => simp [catalogEffect]
  | some status =>
    cases isMatch with
    | true => simp [catalogEffect]
    | false =>
      simp only [catalogEffect]
      cases status <;> cases next <;> simp

/-- An effect that changes nothing leaves a row that matches. -/
theorem rowEffect_unchanged :
    (rowEffect target status existing isMatch next nextStatus).effect = .unchanged ↔
      ∃ row, existing = some row ∧ isMatch row = true := by
  simp only [rowEffect, catalogEffect_unchanged]
  cases existing <;> simp

theorem rowEffect_after {row : ρ} (h : existing = some row) (hm : isMatch row = true) :
    (rowEffect target status existing isMatch next nextStatus).after = row := by
  simp [rowEffect, afterOf, h, hm]

end

theorem snapshot_plan {key : String × String} {p : CatalogPlan}
    (h : s.plan key = some p) : p ∈ s.plans ∧ planKey p = key := by
  refine ⟨List.mem_of_find?_eq_some h, ?_⟩
  have hp := List.find?_some h
  simp only [decide_eq_true_eq] at hp
  exact Prod.ext hp.1 hp.2

theorem snapshot_feature {key : String × String} {f : CatalogFeature}
    (h : s.feature key = some f) : f ∈ s.features ∧ featureKey f = key := by
  refine ⟨List.mem_of_find?_eq_some h, ?_⟩
  have hf := List.find?_some h
  simp only [decide_eq_true_eq] at hf
  exact Prod.ext hf.1 hf.2

theorem snapshot_planFeature {planId key : String} {f : CatalogPlanFeature}
    (h : s.planFeature planId key = some f) :
    f ∈ s.planFeatures ∧ planFeatureKey f = (planId, key) := by
  refine ⟨List.mem_of_find?_eq_some h, ?_⟩
  have hf := List.find?_some h
  simp only [decide_eq_true_eq] at hf
  exact Prod.ext hf.1 hf.2

theorem featureEffect_key (input : CatalogFeatureInput) :
    featureKey (featureEffect s ids effectiveAt input).after = input.key := by
  unfold featureEffect
  refine rowEffect_key featureKey _ rfl fun row h => ?_
  exact (snapshot_feature h).2

theorem planEffect_key (input : CatalogPlanInput) :
    planKey (planEffect s ids effectiveAt input).after = input.key := by
  unfold planEffect
  refine rowEffect_key planKey _ rfl fun row h => ?_
  exact (snapshot_plan h).2

theorem planFeatureEffect_key (planKey planId : String) (input : CatalogPlanFeatureInput) :
    planFeatureKey (planFeatureEffect s effectiveAt planKey planId input).after =
      (planId, input.feature_key) := by
  unfold planFeatureEffect
  refine rowEffect_key planFeatureKey _ rfl fun row h => ?_
  exact (snapshot_planFeature h).2

/-! ## The rows of all actions -/

section
variable (e : ImportEffects)

theorem featureRows_actions : featureRows e.actions = (changes e.features).map (·.after) := by
  simp [featureRows, ImportEffects.actions, List.filterMap_append, List.filterMap_map]

theorem planRows_actions : planRows e.actions = (changes e.plans).map (·.after) := by
  simp [planRows, ImportEffects.actions, List.filterMap_append, List.filterMap_map]

theorem planFeatureRows_actions :
    planFeatureRows e.actions = (changes e.plan_features).map (·.after) := by
  simp [planFeatureRows, ImportEffects.actions, List.filterMap_append, List.filterMap_map]

end

/-- The keys of the changed rows are keys of all rows. -/
theorem changes_nodup {ρ κ : Type} {key : ρ → κ} {l : List (RowEffect ρ)}
    (h : (l.map fun e => key e.after).Nodup) : (((changes l).map (·.after)).map key).Nodup := by
  rw [List.map_map]
  exact h.sublist (List.filter_sublist.map _)

theorem featureRows_nodup (h : m.Keyed) :
    ((featureRows (importEffects s ids m effectiveAt).actions).map featureKey).Nodup := by
  rw [featureRows_actions]
  apply changes_nodup
  simp only [importEffects, List.map_map, Function.comp_def, featureEffect_key]
  exact h.features

theorem planRows_nodup (h : m.Keyed) :
    ((planRows (importEffects s ids m effectiveAt).actions).map planKey).Nodup := by
  rw [planRows_actions]
  apply changes_nodup
  simp only [importEffects, List.map_map, Function.comp_def, planEffect_key]
  exact h.plans

/-- The plans of a manifest have ids of their own. -/
def OwnIds (s : ImportSnapshot) (ids : NewIds) (m : CatalogManifest) (effectiveAt : Int) : Prop :=
  (m.plans.map fun p => plannedId s ids effectiveAt p.toCatalogPlanInput).Nodup

theorem planFeatureEffects_nodup (h : m.Keyed) (hids : OwnIds s ids m effectiveAt) :
    ((importEffects s ids m effectiveAt).plan_features.map
      fun e => planFeatureKey e.after).Nodup := by
  simp only [importEffects, List.map_flatMap, List.map_map, Function.comp_def,
    planFeatureEffect_key]
  refine List.nodup_flatMap.mpr ⟨fun p hp => ?_, ?_⟩
  · have hkeys := h.plan_features p hp
    refine List.Nodup.of_map Prod.snd ?_
    rw [List.map_map]
    exact hkeys
  · refine (List.pairwise_map.mp hids).imp fun {p q} hne => ?_
    intro k hk hk'
    obtain ⟨f, -, rfl⟩ := List.mem_map.mp hk
    obtain ⟨g, -, heq⟩ := List.mem_map.mp hk'
    exact hne (Prod.mk.inj heq).1.symm

theorem planFeatureRows_nodup (h : m.Keyed) (hids : OwnIds s ids m effectiveAt) :
    ((planFeatureRows (importEffects s ids m effectiveAt).actions).map planFeatureKey).Nodup := by
  rw [planFeatureRows_actions]
  exact changes_nodup (planFeatureEffects_nodup h hids)

/-! ## The plans after an import -/

theorem mem_snapshot_plans {st : Store} {p : CatalogPlan} (h : p ∈ (buildSnapshot m st).plans) :
    p ∈ st.catalog_plans := (List.mem_filter.mp h).1

/-- Every row of the effects is there after an import that puts the changed ones. -/
theorem effect_there {ρ κ : Type} [Schema ρ] {key : ρ → κ} {t t' : Table ρ}
    {effects : List (RowEffect ρ)} (hd : (effects.map fun e => key e.after).Nodup)
    (hput : Puts key ((changes effects).map (·.after)) t t')
    (hold : ∀ e ∈ effects, e.effect = .unchanged → e.after ∈ t) {e : RowEffect ρ}
    (he : e ∈ effects) : e.after ∈ t' := by
  by_cases hu : e.effect = .unchanged
  · refine hput.keeps (hold e he hu) fun hmem => ?_
    -- a changed row with this key is this row, which does not change
    rw [List.map_map] at hmem
    obtain ⟨e', he', hkey⟩ := List.mem_map.mp hmem
    obtain ⟨hin, hne⟩ := List.mem_filter.mp he'
    obtain rfl := List.inj_on_of_nodup_map hd hin he hkey
    exact absurd hu (of_decide_eq_true hne)
  · exact hput.put (List.mem_map_of_mem (List.mem_filter.mpr ⟨he, decide_eq_true hu⟩))

/-- Each plan of the manifest is there after an import that puts the changed
ones. -/
theorem planned_there {st st' : Store} (h : m.Keyed)
    (hput : Puts planKey (planRows (importEffects (buildSnapshot m st) ids m effectiveAt).actions)
      st.catalog_plans st'.catalog_plans) {p : ManifestPlan} (hp : p ∈ m.plans) :
    (planEffect (buildSnapshot m st) ids effectiveAt p.toCatalogPlanInput).after ∈
      st'.catalog_plans := by
  rw [planRows_actions] at hput
  refine effect_there ?_ hput (fun e he hu => ?_) (List.mem_map_of_mem hp)
  · simp only [importEffects, List.map_map, Function.comp_def, planEffect_key]
    exact h.plans
  · obtain ⟨q, -, rfl⟩ := List.mem_map.mp he
    obtain ⟨row, hrow, hmatch⟩ := rowEffect_unchanged.mp hu
    rw [show (planEffect (buildSnapshot m st) ids effectiveAt q.toCatalogPlanInput).after = row from
      rowEffect_after hrow hmatch]
    exact mem_snapshot_plans (snapshot_plan hrow).1

/-- So the plans have ids of their own, whatever the drawn ids are. -/
theorem ownIds_of_puts {st st' : Store} (h : m.Keyed)
    (hput : Puts planKey (planRows (importEffects (buildSnapshot m st) ids m effectiveAt).actions)
      st.catalog_plans st'.catalog_plans) : OwnIds (buildSnapshot m st) ids m effectiveAt := by
  unfold OwnIds
  refine List.Nodup.map_on (fun p hp q hq hid => ?_) h.plans.of_map
  have hrow := Table.unique (planned_there h hput hp) (planned_there h hput hq) (.inl hid)
  have hkey := congrArg planKey hrow
  rw [planEffect_key, planEffect_key] at hkey
  exact List.inj_on_of_nodup_map h.plans hp hq hkey

end Licensecc.Catalog
