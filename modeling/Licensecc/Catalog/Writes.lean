-- What the writes of the catalog system can do. No write takes a row away, and
-- each row that a write changes moves the generation, so two states of one
-- generation have one catalog.
import Licensecc.Catalog.System

open Licensecc.Sql Licensecc.Conc

namespace Licensecc.Catalog

variable {s s' s'' : Store} {time : Int} {changes n : Nat} {ns : List Nat} {clock : Nat → Int}

/-! ## The catalog over time -/

structure SameCatalog (s s' : Store) : Prop where
  features : s'.catalog_features = s.catalog_features
  plans : s'.catalog_plans = s.catalog_plans
  plan_features : s'.catalog_plan_features = s.catalog_plan_features
  policies : s'.entitlement_policies = s.entitlement_policies

theorem SameCatalog.refl (s : Store) : SameCatalog s s := ⟨rfl, rfl, rfl, rfl⟩

theorem SameCatalog.trans (h : SameCatalog s s') (h' : SameCatalog s' s'') : SameCatalog s s'' :=
  ⟨h'.features.trans h.features, h'.plans.trans h.plans,
    h'.plan_features.trans h.plan_features, h'.policies.trans h.policies⟩

/-- The rows of a table last, with the columns of the key. -/
def Lasts {ρ κ : Type} [Schema ρ] (key : ρ → κ) (t t' : Table ρ) : Prop :=
  ∀ r ∈ t, ∃ r' ∈ t', key r' = key r

/-- The columns of a feature that no write sets. -/
def featureKey (f : CatalogFeature) : String × String := (f.project, f.feature_key)

/-- The columns of a plan that no write sets. -/
def planIdentity (p : CatalogPlan) : String × String := (p.project, p.id)

/-- The columns of a policy that no write sets. -/
def policyIdentity (p : Policy) : String × String := (p.project, p.id)

/-- What a later state says of an earlier one. -/
structure Later (s s' : Store) : Prop where
  generation : s.generation ≤ s'.generation
  same : s'.generation = s.generation → SameCatalog s s'
  features : Lasts featureKey s.catalog_features s'.catalog_features
  plans : Lasts planIdentity s.catalog_plans s'.catalog_plans
  policies : Lasts policyIdentity s.entitlement_policies s'.entitlement_policies

section
variable {ρ κ : Type} [Schema ρ] {key : ρ → κ} {t t' t'' : Table ρ}

theorem Lasts.refl (key : ρ → κ) (t : Table ρ) : Lasts key t t := fun r hr => ⟨r, hr, rfl⟩

theorem Lasts.trans (h : Lasts key t t') (h' : Lasts key t' t'') : Lasts key t t'' := by
  intro r hr
  obtain ⟨r', hr', hk⟩ := h r hr
  obtain ⟨r'', hr'', hk'⟩ := h' r' hr'
  exact ⟨r'', hr'', hk'.trans hk⟩

theorem lasts_of_key {k : κ} (h : Lasts key t t') (hk : ∃ r ∈ t, key r = k) :
    ∃ r ∈ t', key r = k := by
  obtain ⟨r, hr, rfl⟩ := hk
  exact h r hr

theorem insert_lasts {row : ρ} (h : t.insert row = .ok t') : Lasts key t t' :=
  fun r hr => ⟨r, (Table.mem_of_insert h).mpr (.inr hr), rfl⟩

theorem update_lasts {sel : ρ → Prop} [DecidablePred sel] {set : ρ → ρ}
    (hset : ∀ r, key (set r) = key r) (h : t.update time sel set = .ok (n, t')) :
    Lasts key t t' := by
  intro r hr
  refine ⟨_, (Table.mem_of_update h).mpr ⟨r, hr, rfl⟩, ?_⟩
  by_cases hs : sel r
  · rw [if_pos hs]
    exact hset r
  · rw [if_neg hs]

end

theorem Later.refl (s : Store) : Later s s :=
  ⟨le_rfl, fun _ => SameCatalog.refl s, Lasts.refl _ _, Lasts.refl _ _, Lasts.refl _ _⟩

theorem Later.trans (h : Later s s') (h' : Later s' s'') : Later s s'' where
  generation := h.generation.trans h'.generation
  same heq := by
    have h1 := h.generation
    have h2 := h'.generation
    exact (h.same (by omega)).trans (h'.same (by omega))
  features := h.features.trans h'.features
  plans := h.plans.trans h'.plans
  policies := h.policies.trans h'.policies

/-- A write that leaves the catalog and the generation. -/
theorem Later.of_same (h : SameCatalog s s') (hg : s'.generation = s.generation) : Later s s' where
  generation := hg.ge
  same := fun _ => h
  features := by
    rw [h.features]
    exact Lasts.refl _ _
  plans := by
    rw [h.plans]
    exact Lasts.refl _ _
  policies := by
    rw [h.policies]
    exact Lasts.refl _ _

/-! ## Writes of one table -/

theorem later_features {x : Except Abort (Nat × Table CatalogFeature)}
    (hx : ∀ t, x = .ok (0, t) → t = s.catalog_features)
    (hlast : ∀ m t, x = .ok (m, t) → Lasts featureKey s.catalog_features t)
    (h : Store.onFeatures x s = .ok (n, s')) : Later s s' := by
  obtain ⟨t, ht, rfl⟩ := counted_eq_ok.mp h
  refine ⟨by dsimp only; omega, fun hg => ?_, hlast n t ht, Lasts.refl _ _, Lasts.refl _ _⟩
  obtain rfl : n = 0 := by dsimp only at hg; omega
  exact ⟨hx t ht, rfl, rfl, rfl⟩

theorem later_plans {x : Except Abort (Nat × Table CatalogPlan)}
    (hx : ∀ t, x = .ok (0, t) → t = s.catalog_plans)
    (hlast : ∀ m t, x = .ok (m, t) → Lasts planIdentity s.catalog_plans t)
    (h : Store.onPlans x s = .ok (n, s')) : Later s s' := by
  obtain ⟨t, ht, rfl⟩ := counted_eq_ok.mp h
  refine ⟨by dsimp only; omega, fun hg => ?_, Lasts.refl _ _, hlast n t ht, Lasts.refl _ _⟩
  obtain rfl : n = 0 := by dsimp only at hg; omega
  exact ⟨rfl, hx t ht, rfl, rfl⟩

theorem later_planFeatures {x : Except Abort (Nat × Table CatalogPlanFeature)}
    (hx : ∀ t, x = .ok (0, t) → t = s.catalog_plan_features)
    (h : Store.onPlanFeatures x s = .ok (n, s')) : Later s s' := by
  obtain ⟨t, ht, rfl⟩ := counted_eq_ok.mp h
  refine ⟨by dsimp only; omega, fun hg => ?_, Lasts.refl _ _, Lasts.refl _ _, Lasts.refl _ _⟩
  obtain rfl : n = 0 := by dsimp only at hg; omega
  exact ⟨rfl, rfl, hx t ht, rfl⟩

theorem later_policies {x : Except Abort (Nat × Table Policy)}
    (hx : ∀ t, x = .ok (0, t) → t = s.entitlement_policies)
    (hlast : ∀ m t, x = .ok (m, t) → Lasts policyIdentity s.entitlement_policies t)
    (h : Store.onPolicies x s = .ok (n, s')) : Later s s' := by
  obtain ⟨t, ht, rfl⟩ := counted_eq_ok.mp h
  refine ⟨by dsimp only; omega, fun hg => ?_, Lasts.refl _ _, Lasts.refl _ _, hlast n t ht⟩
  obtain rfl : n = 0 := by dsimp only at hg; omega
  exact ⟨rfl, rfl, rfl, hx t ht⟩

theorem inserted_ne_zero {ρ : Type} {x : Except Abort ρ} {t u : ρ} (h : inserted x = .ok (0, t)) :
    t = u := by
  have hn := (inserted_eq_ok.mp h).1
  cases hn

theorem later_insertPlanFeature {row : CatalogPlanFeature}
    (h : s.insertPlanFeature row = .ok (n, s')) : Later s s' :=
  later_planFeatures (fun _ => inserted_ne_zero) (require_bind_eq_ok.mp h).2

theorem later_updatePlanFeatures {sel : CatalogPlanFeature → Prop} [DecidablePred sel]
    {set : CatalogPlanFeature → CatalogPlanFeature}
    (h : s.updatePlanFeatures time sel set = .ok (n, s')) : Later s s' :=
  later_planFeatures (fun _ => Table.update_zero) (require_bind_eq_ok.mp h).2

/-- A step that leaves the catalog, its generation, the previews and the stored
responses. -/
structure Quiet (s s' : Store) : Prop extends SameCatalog s s' where
  generation : s'.generation = s.generation
  previews : s'.catalog_import_previews = s.catalog_import_previews
  responses : s'.responses = s.responses

theorem Quiet.refl (s : Store) : Quiet s s := ⟨SameCatalog.refl s, rfl, rfl, rfl⟩

theorem Quiet.later (h : Quiet s s') : Later s s' := .of_same h.toSameCatalog h.generation

theorem quiet_of_ok (h : (Except.ok (changes, s) : Except Abort (Nat × Store)) = .ok (n, s')) :
    Quiet s s' := by
  obtain ⟨-, rfl⟩ := Prod.mk.inj (Except.ok.inj h)
  exact Quiet.refl _

/-! ## Edits -/

theorem catalogFeatureAudit_quiet {c : EditContext} {kind : EffectKind} {reason id project : String}
    {prev : Option CatalogFeature}
    (h : catalogFeatureAudit c kind reason id project prev time changes s = .ok (n, s')) :
    Quiet s s' := by
  unfold catalogFeatureAudit at h
  split at h
  · exact quiet_of_ok h
  · obtain ⟨-, rfl⟩ := Prod.mk.inj (Except.ok.inj h)
    exact ⟨⟨rfl, rfl, rfl, rfl⟩, rfl, rfl, rfl⟩

theorem catalogPlanAudit_quiet {c : EditContext} {kind : EffectKind} {reason id project : String}
    {prev : Option CatalogPlan}
    (h : catalogPlanAudit c kind reason id project prev time changes s = .ok (n, s')) :
    Quiet s s' := by
  unfold catalogPlanAudit at h
  split at h
  · exact quiet_of_ok h
  · obtain ⟨-, rfl⟩ := Prod.mk.inj (Except.ok.inj h)
    exact ⟨⟨rfl, rfl, rfl, rfl⟩, rfl, rfl, rfl⟩

theorem catalogPlanFeatureAudit_quiet {c : EditContext} {kind : EffectKind}
    {reason planId featureKey project : String} {prev : Option CatalogPlanFeature}
    (h : catalogPlanFeatureAudit c kind reason planId featureKey project prev time changes s =
      .ok (n, s')) : Quiet s s' := by
  unfold catalogPlanFeatureAudit at h
  split at h
  · exact quiet_of_ok h
  · obtain ⟨-, rfl⟩ := Prod.mk.inj (Except.ok.inj h)
    exact ⟨⟨rfl, rfl, rfl, rfl⟩, rfl, rfl, rfl⟩

theorem policyEventAudit_quiet {c : EditContext} {kind : EffectKind}
    {reason policyId project : String}
    (h : policyEventAudit c kind reason policyId project time changes s = .ok (n, s')) :
    Quiet s s' := by
  unfold policyEventAudit at h
  split at h
  · exact quiet_of_ok h
  · obtain ⟨-, rfl⟩ := Prod.mk.inj (Except.ok.inj h)
    exact ⟨⟨rfl, rfl, rfl, rfl⟩, rfl, rfl, rfl⟩

theorem audit_quiet {c : EditContext} {id : String} {e : Edit}
    (h : e.audit c id time changes s = .ok (n, s')) : Quiet s s' := by
  cases e with
  | createFeature | patchFeature | transitionFeature =>
    unfold Edit.audit at h
    exact catalogFeatureAudit_quiet h
  | createPlan | patchPlan | transitionPlan =>
    unfold Edit.audit at h
    exact catalogPlanAudit_quiet h
  | savePlanFeature | transitionPlanFeature =>
    unfold Edit.audit at h
    exact catalogPlanFeatureAudit_quiet h
  | createPolicy | patchPolicy | transitionPolicy =>
    unfold Edit.audit at h
    exact policyEventAudit_quiet h

theorem write_later {c : EditContext} {id : String} {e : Edit}
    (h : e.write c id time changes s = .ok (n, s')) : Later s s' := by
  cases e with
  | createFeature =>
    refine later_features (fun _ => inserted_ne_zero) (fun m t ht => ?_) h
    exact insert_lasts (inserted_eq_ok.mp ht).2
  | patchFeature | transitionFeature =>
    refine later_features (fun _ => Table.update_zero) (fun m t ht => ?_) h
    exact update_lasts (fun p => by rfl) ht
  | createPlan =>
    refine later_plans (fun _ => inserted_ne_zero) (fun m t ht => ?_) h
    exact insert_lasts (inserted_eq_ok.mp ht).2
  | patchPlan | transitionPlan =>
    refine later_plans (fun _ => Table.update_zero) (fun m t ht => ?_) h
    exact update_lasts (fun p => by rfl) ht
  | savePlanFeature planId input existing =>
    simp only [Edit.write, catalogPlanFeatureUpsertStatement] at h
    split at h
    · exact later_updatePlanFeatures h
    · exact later_insertPlanFeature h
  | transitionPlanFeature => exact later_updatePlanFeatures h
  | createPolicy =>
    refine later_policies (fun _ => inserted_ne_zero) (fun m t ht => ?_) h
    exact insert_lasts (inserted_eq_ok.mp ht).2
  | patchPolicy | transitionPolicy =>
    refine later_policies (fun _ => Table.update_zero) (fun m t ht => ?_) h
    exact update_lasts (fun p => by rfl) ht

/-- A write of the tables apart from the previews and the stored responses. -/
structure Apart (s s' : Store) : Prop where
  previews : s'.catalog_import_previews = s.catalog_import_previews
  responses : s'.responses = s.responses

theorem features_apart {x : Except Abort (Nat × Table CatalogFeature)}
    (h : Store.onFeatures x s = .ok (n, s')) : Apart s s' := by
  obtain ⟨t, -, rfl⟩ := counted_eq_ok.mp h
  exact ⟨rfl, rfl⟩

theorem plans_apart {x : Except Abort (Nat × Table CatalogPlan)}
    (h : Store.onPlans x s = .ok (n, s')) : Apart s s' := by
  obtain ⟨t, -, rfl⟩ := counted_eq_ok.mp h
  exact ⟨rfl, rfl⟩

theorem planFeatures_apart {x : Except Abort (Nat × Table CatalogPlanFeature)}
    (h : Store.onPlanFeatures x s = .ok (n, s')) : Apart s s' := by
  obtain ⟨t, -, rfl⟩ := counted_eq_ok.mp h
  exact ⟨rfl, rfl⟩

theorem policies_apart {x : Except Abort (Nat × Table Policy)}
    (h : Store.onPolicies x s = .ok (n, s')) : Apart s s' := by
  obtain ⟨t, -, rfl⟩ := counted_eq_ok.mp h
  exact ⟨rfl, rfl⟩

/-- An edit writes no preview and no stored response. -/
theorem write_apart {c : EditContext} {id : String} {e : Edit}
    (h : e.write c id time changes s = .ok (n, s')) : Apart s s' := by
  cases e with
  | createFeature | patchFeature | transitionFeature => exact features_apart h
  | createPlan | patchPlan | transitionPlan => exact plans_apart h
  | savePlanFeature planId input existing =>
    simp only [Edit.write, catalogPlanFeatureUpsertStatement] at h
    split at h
    · exact planFeatures_apart (require_bind_eq_ok.mp h).2
    · exact planFeatures_apart (require_bind_eq_ok.mp h).2
  | transitionPlanFeature => exact planFeatures_apart (require_bind_eq_ok.mp h).2
  | createPolicy | patchPolicy | transitionPolicy => exact policies_apart h

/-- An edit is its write, and its audit row changes nothing more. -/
theorem edit_ok {c : EditContext} {id : String} {e : Edit}
    (h : runBatch (e.batch c id) clock 0 s = .ok (ns, s')) :
    ∃ n s₁, e.write c id (clock 0) 0 s = .ok (n, s₁) ∧ Quiet s₁ s' := by
  obtain ⟨n, s₁, ms, h1, hrest, -⟩ := runBatch_cons.mp h
  obtain ⟨n₂, s₂, ms₂, h2, hrest, -⟩ := runBatch_cons.mp hrest
  obtain ⟨-, rfl⟩ := runBatch_nil.mp hrest
  exact ⟨n, s₁, h1, audit_quiet h2⟩

end Licensecc.Catalog
