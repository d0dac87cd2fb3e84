-- The values that the catalog can hold. Each write of the admin API stores rows
-- that its validators have accepted, in their places, so in every run each row of
-- the catalog is one that they accept.
import Licensecc.Catalog.Export
import Licensecc.Catalog.Addons

open Licensecc.Sql Licensecc.Conc

namespace Licensecc.Catalog

variable {s s' : Store} {w w₀ : CatalogWorld} {o : Oracle} {m : CatalogManifest} {ids : NewIds}
  {effectiveAt : Int}

/-! ## The law of the catalog -/

/-- A plan feature with its plan, its feature and its policy, all of one project. -/
structure Placed (s : Store) (f : CatalogPlanFeature) : Prop where
  plan : ∃ p ∈ s.catalog_plans, planIdentity p = (f.project, f.plan_id)
  feature : ∃ c ∈ s.catalog_features, featureKey c = (f.project, f.feature_key)
  policy : ∀ id ∈ f.policy_id, ∃ p ∈ s.entitlement_policies, policyIdentity p = (f.project, id)

/-- Every row of the catalog is one that the admin API can store. -/
structure Sound (s : Store) : Prop where
  features : ∀ f ∈ s.catalog_features, StorableFeature (exportedFeature f)
  plans : ∀ p ∈ s.catalog_plans, StorablePlan (exportedPlan p)
  plan_features : ∀ f ∈ s.catalog_plan_features, StorablePlanFeature (exportedPlanFeature f)
  placed : ∀ f ∈ s.catalog_plan_features, Placed s f

theorem Placed.later {f : CatalogPlanFeature} (h : Placed s f) (hl : Later s s') : Placed s' f where
  plan := lasts_of_key hl.plans h.plan
  feature := lasts_of_key hl.features h.feature
  policy id hid := lasts_of_key hl.policies (h.policy id hid)

theorem Sound.of_same (h : Sound s) (hs : SameCatalog s s') : Sound s' := by
  refine ⟨?_, ?_, ?_, ?_⟩
  · rw [hs.features]
    exact h.features
  · rw [hs.plans]
    exact h.plans
  · rw [hs.plan_features]
    exact h.plan_features
  · intro f hf
    rw [hs.plan_features] at hf
    obtain ⟨hplan, hfeature, hpolicy⟩ := h.placed f hf
    refine ⟨?_, ?_, ?_⟩
    · rw [hs.plans]
      exact hplan
    · rw [hs.features]
      exact hfeature
    · rw [hs.policies]
      exact hpolicy

/-! ## Edits -/

/-- A write of the features that sets rows the admin API can store. -/
theorem Sound.features_of {x : Except Abort (Nat × Table CatalogFeature)} {n : Nat} (h : Sound s)
    (hx : Store.onFeatures x s = .ok (n, s')) (hl : Later s s')
    (hrows : ∀ t, x = .ok (n, t) → ∀ f ∈ t, StorableFeature (exportedFeature f)) : Sound s' := by
  obtain ⟨t, ht, rfl⟩ := counted_eq_ok.mp hx
  exact ⟨hrows t ht, h.plans, h.plan_features, fun f hf => (h.placed f hf).later hl⟩

/-- A write of the plans that sets rows the admin API can store. -/
theorem Sound.plans_of {x : Except Abort (Nat × Table CatalogPlan)} {n : Nat} (h : Sound s)
    (hx : Store.onPlans x s = .ok (n, s')) (hl : Later s s')
    (hrows : ∀ t, x = .ok (n, t) → ∀ p ∈ t, StorablePlan (exportedPlan p)) : Sound s' := by
  obtain ⟨t, ht, rfl⟩ := counted_eq_ok.mp hx
  exact ⟨h.features, hrows t ht, h.plan_features, fun f hf => (h.placed f hf).later hl⟩

/-- A write of the plan features that sets rows the admin API can store, each in its
place. -/
theorem Sound.planFeatures_of {x : Except Abort (Nat × Table CatalogPlanFeature)} {n : Nat}
    (h : Sound s) (hx : Store.onPlanFeatures x s = .ok (n, s'))
    (hrows : ∀ t, x = .ok (n, t) → ∀ f ∈ t,
      StorablePlanFeature (exportedPlanFeature f) ∧ Placed s f) : Sound s' := by
  obtain ⟨t, ht, rfl⟩ := counted_eq_ok.mp hx
  refine ⟨h.features, h.plans, fun f hf => (hrows t ht f hf).1, fun f hf => ?_⟩
  obtain ⟨hplan, hfeature, hpolicy⟩ := (hrows t ht f hf).2
  exact ⟨hplan, hfeature, hpolicy⟩

theorem Sound.policies_of {x : Except Abort (Nat × Table Policy)} {n : Nat} (h : Sound s)
    (hx : Store.onPolicies x s = .ok (n, s')) (hl : Later s s') : Sound s' := by
  obtain ⟨t, -, rfl⟩ := counted_eq_ok.mp hx
  exact ⟨h.features, h.plans, h.plan_features, fun f hf => (h.placed f hf).later hl⟩

/-- The rows after an insert. -/
theorem rows_of_insert {ρ : Type} [Schema ρ] {t t' : Table ρ} {row : ρ} {P : ρ → Prop} {n : Nat}
    (hall : ∀ r ∈ t, P r) (hrow : P row) (h : inserted (t.insert row) = .ok (n, t')) :
    ∀ r ∈ t', P r := by
  intro r hr
  rcases (Table.mem_of_insert (inserted_eq_ok.mp h).2).mp hr with rfl | hr
  · exact hrow
  · exact hall r hr

/-- The rows after an update. -/
theorem rows_of_update {ρ : Type} [Schema ρ] {t t' : Table ρ} {sel : ρ → Prop} [DecidablePred sel]
    {set : ρ → ρ} {P : ρ → Prop} {n : Nat} {time : Int} (hall : ∀ r ∈ t, P r)
    (hset : ∀ r ∈ t, sel r → P (set r)) (h : t.update time sel set = .ok (n, t')) :
    ∀ r ∈ t', P r := by
  intro r hr
  obtain ⟨a, ha, rfl⟩ := (Table.mem_of_update h).mp hr
  by_cases hs : sel a
  · rw [if_pos hs]
    exact hset a ha hs
  · rw [if_neg hs]
    exact hall a ha

/-- A PATCH of a feature sets texts that the admin API can store. -/
theorem patchedFeature_storable {body : Value} {patch : CatalogTextPatch} {now : Int}
    {f : CatalogFeature} (hpatch : validateCatalogFeaturePatch body = some patch)
    (h : StorableFeature (exportedFeature f)) :
    StorableFeature (exportedFeature (patchedFeature patch now f)) := by
  simp only [validateCatalogFeaturePatch, Option.bind_eq_bind, Option.bind_eq_some_iff] at hpatch
  obtain ⟨input, -, -, -, name, hname, description, hdescription, category, hcategory, -, -, heq⟩ :=
    hpatch
  obtain rfl := Option.some.inj heq
  exact ⟨h.project, h.feature_key, patched_text safeString_some h.name hname,
    patched_text optionalCatalogText_some h.description hdescription,
    patched_text optionalCatalogText_some h.category hcategory⟩

/-- A PATCH of a plan sets texts that the admin API can store. -/
theorem patchedPlan_storable {body : Value} {patch : CatalogTextPatch} {now : Int}
    {p : CatalogPlan} (hpatch : validateCatalogPlanPatch body = some patch)
    (h : StorablePlan (exportedPlan p)) : StorablePlan (exportedPlan (patchedPlan patch now p)) := by
  simp only [validateCatalogPlanPatch, Option.bind_eq_bind, Option.bind_eq_some_iff] at hpatch
  obtain ⟨input, -, -, -, name, hname, description, hdescription, -, -, heq⟩ := hpatch
  obtain rfl := Option.some.inj heq
  exact ⟨h.project, h.plan_key, patched_text safeString_some h.name hname,
    patched_text optionalCatalogText_some h.description hdescription, h.version⟩

/-- A row that satisfies its foreign keys, with a policy of its project. -/
theorem placed_of_linked {f : CatalogPlanFeature} (h : s.Linked f)
    (hpolicy : ∀ id ∈ f.policy_id, ∃ p ∈ s.entitlement_policies, policyIdentity p = (f.project, id)) :
    Placed s f := by
  obtain ⟨⟨p, hp, hproject, hid⟩, ⟨c, hc, hcproject, hkey⟩, -⟩ := h
  exact ⟨⟨p, hp, Prod.ext hproject hid⟩, ⟨c, hc, Prod.ext hcproject hkey⟩, hpolicy⟩

/-- The save of a plan feature. -/
theorem save_sound {planId : String} {input : CatalogPlanFeatureInput} {now time : Int}
    {changes n : Nat} (h : Sound s) (hinput : StorablePlanFeature input)
    (hplan : ∃ p ∈ s.catalog_plans, planIdentity p = (input.project, planId))
    (hpolicy : ∀ id ∈ input.policy_id, ∃ p ∈ s.entitlement_policies,
      policyIdentity p = (input.project, id))
    (hwrite : catalogPlanFeatureUpsertStatement planId input now time changes s = .ok (n, s')) :
    Sound s' := by
  unfold catalogPlanFeatureUpsertStatement at hwrite
  split at hwrite
  · obtain ⟨hlinked, hx⟩ := require_bind_eq_ok.mp hwrite
    refine h.planFeatures_of hx fun t ht => ?_
    refine rows_of_update (fun f hf => ⟨h.plan_features f hf, h.placed f hf⟩) (fun f hf hs => ?_) ht
    have hold := h.plan_features f hf
    -- the row is of the project of its plan, which is that of the input
    have hproject : f.project = input.project := by
      obtain ⟨⟨p, hp, hpp, hpid⟩, -⟩ := hlinked f hf hs
      obtain ⟨q, hq, hidentity⟩ := hplan
      obtain ⟨hqproject, hqid⟩ := Prod.mk.inj hidentity
      have hsame : p = q := Table.unique hp hq (.inl (hpid.trans (hs.1.trans hqid.symm)))
      subst hsame
      exact hpp.symm.trans hqproject
    refine ⟨⟨hold.project, hold.feature_key, hinput.inclusion, hinput.addon_key, hinput.policy_id,
      hinput.display_order, hinput.max_active_devices⟩, ?_⟩
    refine placed_of_linked (hlinked f hf hs) fun id hid => ?_
    have hp := hpolicy id hid
    rw [← hproject] at hp
    exact hp
  · obtain ⟨hlinked, hx⟩ := require_bind_eq_ok.mp hwrite
    refine h.planFeatures_of hx fun t ht => ?_
    refine rows_of_insert (fun f hf => ⟨h.plan_features f hf, h.placed f hf⟩) ?_ ht
    exact ⟨hinput, placed_of_linked hlinked hpolicy⟩

/-- The write of an edit that its handler has checked. -/
theorem write_sound {c : EditContext} {id : String} {e : Edit} {time : Int} {changes n : Nat}
    (h : Sound s) (hchecked : e.Checked s) (hwrite : e.write c id time changes s = .ok (n, s')) :
    Sound s' := by
  have hl := write_later hwrite
  cases e with
  | createFeature input =>
    obtain ⟨body, hbody⟩ := hchecked
    refine h.features_of hwrite hl fun t ht => rows_of_insert h.features ?_ ht
    exact validateCatalogFeatureInput_storable hbody
  | patchFeature existing patch =>
    obtain ⟨body, hbody⟩ := hchecked
    refine h.features_of hwrite hl fun t ht => rows_of_update h.features (fun f hf _ => ?_) ht
    exact patchedFeature_storable hbody (h.features f hf)
  | transitionFeature existing action reason =>
    refine h.features_of hwrite hl fun t ht => rows_of_update h.features (fun f hf _ => ?_) ht
    obtain ⟨h1, h2, h3, h4, h5⟩ := h.features f hf
    exact ⟨h1, h2, h3, h4, h5⟩
  | createPlan input =>
    obtain ⟨body, hbody⟩ := hchecked
    refine h.plans_of hwrite hl fun t ht => rows_of_insert h.plans ?_ ht
    exact validateCatalogPlanInput_storable hbody
  | patchPlan existing patch =>
    obtain ⟨body, hbody⟩ := hchecked
    refine h.plans_of hwrite hl fun t ht => rows_of_update h.plans (fun p hp _ => ?_) ht
    exact patchedPlan_storable hbody (h.plans p hp)
  | transitionPlan existing action reason =>
    refine h.plans_of hwrite hl fun t ht => rows_of_update h.plans (fun p hp _ => ?_) ht
    obtain ⟨h1, h2, h3, h4, h5⟩ := h.plans p hp
    exact ⟨h1, h2, h3, h4, h5⟩
  | savePlanFeature planId input existing =>
    obtain ⟨⟨body, hbody⟩, hplan, hpolicy⟩ := hchecked
    exact save_sound h (validateCatalogPlanFeatureInput_storable hbody) hplan hpolicy
      (show catalogPlanFeatureUpsertStatement planId input c.now time changes s = .ok (n, s') from
        hwrite)
  | transitionPlanFeature existing action reason =>
    obtain ⟨hlinked, hx⟩ := require_bind_eq_ok.mp hwrite
    refine h.planFeatures_of hx fun t ht => ?_
    refine rows_of_update (fun f hf => ⟨h.plan_features f hf, h.placed f hf⟩) (fun f hf _ => ?_) ht
    obtain ⟨h1, h2, h3, h4, h5, h6, h7⟩ := h.plan_features f hf
    obtain ⟨hplan, hfeature, hpolicy⟩ := h.placed f hf
    exact ⟨⟨h1, h2, h3, h4, h5, h6, h7⟩, hplan, hfeature, hpolicy⟩
  | createPolicy input => exact h.policies_of hwrite hl
  | patchPolicy existing patch => exact h.policies_of hwrite hl
  | transitionPolicy existing action reason => exact h.policies_of hwrite hl

/-! ## Imports -/

/-- What an accepted manifest holds. -/
structure StorableManifest (m : CatalogManifest) : Prop where
  features : ∀ f ∈ m.features, StorableFeature f
  plans : ∀ p ∈ m.plans, StorablePlan p.toCatalogPlanInput
  plan_features : ∀ p ∈ m.plans, ∀ f ∈ p.features, StorablePlanFeature f

theorem validateFeatures_storable {values : List Value} {seen : List (String × String)}
    {features : List CatalogFeatureInput} (h : validateFeatures values seen = some features) :
    ∀ f ∈ features, StorableFeature f := by
  induction values generalizing seen features with
  | nil =>
    obtain rfl := Option.some.inj h
    simp
  | cons value rest ih =>
    simp only [validateFeatures, Option.bind_eq_bind, Option.bind_eq_some_iff] at h
    obtain ⟨parsed, hparsed, -, -, fs, hfs, heq⟩ := h
    obtain rfl := Option.some.inj heq
    intro f hf
    rcases List.mem_cons.mp hf with rfl | hf
    · exact validateCatalogFeatureInput_storable hparsed
    · exact ih hfs f hf

theorem validatePlanFeatures_storable {project : String} {values : List Value} {seen : List String}
    {features : List CatalogPlanFeatureInput}
    (h : validatePlanFeatures project values seen = some features) :
    ∀ f ∈ features, StorablePlanFeature f := by
  induction values generalizing seen features with
  | nil =>
    obtain rfl := Option.some.inj h
    simp
  | cons value rest ih =>
    simp only [validatePlanFeatures, Option.bind_eq_bind, Option.bind_eq_some_iff] at h
    obtain ⟨parsed, hparsed, -, -, -, -, fs, hfs, heq⟩ := h
    obtain rfl := Option.some.inj heq
    intro f hf
    rcases List.mem_cons.mp hf with rfl | hf
    · exact validateCatalogPlanFeatureInput_storable hparsed
    · exact ih hfs f hf

theorem validatePlans_storable {values : List Value} {seen : List (String × String)} {count : Nat}
    {plans : List ManifestPlan} (h : validatePlans values seen count = some plans) :
    ∀ p ∈ plans, StorablePlan p.toCatalogPlanInput ∧ ∀ f ∈ p.features, StorablePlanFeature f := by
  induction values generalizing seen count plans with
  | nil =>
    obtain rfl := Option.some.inj h
    simp
  | cons value rest ih =>
    simp only [validatePlans, Option.bind_eq_bind, Option.bind_eq_some_iff] at h
    obtain ⟨parsed, hparsed, -, -, raw, -, -, -, fs, hfs, ps, hps, heq⟩ := h
    obtain rfl := Option.some.inj heq
    intro p hp
    rcases List.mem_cons.mp hp with rfl | hp
    · exact ⟨validateCatalogPlanInput_storable hparsed, validatePlanFeatures_storable hfs⟩
    · exact ih hps p hp

theorem Accepted.storable (h : Accepted m) : StorableManifest m := by
  obtain ⟨body, input, hinput, rfl⟩ := h
  simp only [validateCatalogImportInput, Option.bind_eq_bind, Option.bind_eq_some_iff] at hinput
  obtain ⟨fields, -, -, -, -, -, raw, -, rawPlans, -, -, -, features, hf, plans, hp, heq⟩ := hinput
  obtain rfl := Option.some.inj heq
  have hplans := validatePlans_storable hp
  refine ⟨fun f hmem => ?_, fun p hmem => ?_, fun p hmem f hfmem => ?_⟩
  · exact validateFeatures_storable hf f (mem_normalized_features.mp hmem)
  · obtain ⟨q, hq, rfl⟩ := mem_normalized_plans.mp hmem
    exact (hplans q hq).1
  · obtain ⟨q, hq, rfl⟩ := mem_normalized_plans.mp hmem
    exact (hplans q hq).2 f ((List.perm_insertionSort _ _).mem_iff.mp hfmem)

/-- A row that an effect puts is the one of its input. -/
theorem put_of_effect {ρ : Type} {target : ρ → ImportTarget} {status : ρ → CatalogStatus}
    {existing : Option ρ} {isMatch : ρ → Bool} {next : ρ} {nextStatus : CatalogStatus}
    (h : (rowEffect target status existing isMatch next nextStatus).effect ≠ .unchanged) :
    (rowEffect target status existing isMatch next nextStatus).after = next := by
  cases existing with
  | none => rfl
  | some row =>
    have hno : isMatch row ≠ true := fun hm => h (rowEffect_unchanged.mpr ⟨row, rfl, hm⟩)
    simp only [rowEffect, afterOf, if_neg hno]

theorem imported_features {r : ImportRun} {p : ImportPreviewRow} (h : Sound s)
    (hm : StorableManifest m)
    (hi : Imported r (importEffects (buildSnapshot m s) ids m effectiveAt).actions p s s') :
    ∀ f ∈ s'.catalog_features, StorableFeature (exportedFeature f) := by
  intro f hf
  rcases (hi.features f).mp hf with ⟨hold, -⟩ | hnew
  · exact h.features f hold
  · rw [featureRows_actions] at hnew
    obtain ⟨e, he, rfl⟩ := List.mem_map.mp hnew
    obtain ⟨hin, hne⟩ := List.mem_filter.mp he
    obtain ⟨input, hinput, rfl⟩ := List.mem_map.mp hin
    have hafter := put_of_effect (of_decide_eq_true hne)
    rw [show (featureEffect (buildSnapshot m s) ids effectiveAt input).after = _ from hafter]
    exact hm.features input hinput

theorem imported_plans {r : ImportRun} {p : ImportPreviewRow} (h : Sound s)
    (hm : StorableManifest m)
    (hi : Imported r (importEffects (buildSnapshot m s) ids m effectiveAt).actions p s s') :
    ∀ q ∈ s'.catalog_plans, StorablePlan (exportedPlan q) := by
  intro q hq
  rcases (hi.plans q).mp hq with ⟨hold, -⟩ | hnew
  · exact h.plans q hold
  · rw [planRows_actions] at hnew
    obtain ⟨e, he, rfl⟩ := List.mem_map.mp hnew
    obtain ⟨hin, hne⟩ := List.mem_filter.mp he
    obtain ⟨input, hinput, rfl⟩ := List.mem_map.mp hin
    have hafter := put_of_effect (of_decide_eq_true hne)
    rw [show (planEffect (buildSnapshot m s) ids effectiveAt input.toCatalogPlanInput).after = _ from
      hafter]
    exact hm.plans input hinput

/-- A plan feature that an import puts has its plan, its feature and its policy. -/
theorem imported_place {r : ImportRun} {p : ImportPreviewRow} {q : ManifestPlan}
    {input : CatalogPlanFeatureInput} {row : CatalogPlanFeature} (hk : m.Keyed)
    (hvalid : validateSnapshotDependencies (buildSnapshot m s) m = .ok ())
    (hi : Imported r (importEffects (buildSnapshot m s) ids m effectiveAt).actions p s s')
    (hq : q ∈ m.plans) (hinput : input ∈ q.features)
    (hrow : row = planFeatureAfter input
      (plannedId (buildSnapshot m s) ids effectiveAt q.toCatalogPlanInput)
      ((buildSnapshot m s).planFeature
        (plannedId (buildSnapshot m s) ids effectiveAt q.toCatalogPlanInput) input.feature_key)
      effectiveAt) : Placed s' row := by
  subst hrow
  obtain ⟨hfeature, hpolicy⟩ := checkDependency_ok
    (forM_ok hvalid (List.mem_flatMap.mpr ⟨q, hq, hinput⟩))
  refine ⟨⟨_, planned_there hk hi.plans hq, Prod.ext ?_ rfl⟩, ?_, fun id hid => ?_⟩
  · have hkey : planKey (planEffect (buildSnapshot m s) ids effectiveAt q.toCatalogPlanInput).after =
        q.toCatalogPlanInput.key := planEffect_key _
    exact (Prod.mk.inj hkey).1.trans (hk.projects q hq input hinput).symm
  · rcases hfeature with hin | hin
    · obtain ⟨f, hf, hkey⟩ := List.mem_map.mp hin
      exact ⟨_, feature_final hk hi.features hf, (featureEffect_key f).trans hkey⟩
    · obtain ⟨hin, -⟩ := List.mem_filter.mp hin
      obtain ⟨row, hrow, hkey⟩ := List.mem_map.mp hin
      exact lasts_of_key (Puts.lasts hi.features) ⟨row, hrow, hkey⟩
  · obtain ⟨policy, hfind, hproject, -⟩ := hpolicy id hid
    have hin := (List.mem_filter.mp (List.mem_of_find?_eq_some hfind)).1
    have hfound := List.find?_some hfind
    simp only [decide_eq_true_eq] at hfound
    rw [hi.policies]
    exact ⟨policy, hin, Prod.ext hproject hfound⟩

theorem imported_sound {r : ImportRun} {p : ImportPreviewRow} {d : ImportDraft} (h : Sound s)
    (hl : Later s s') (ha : Accepted d.manifest) (hd : Derived d s) (hi : Imported r d.effects.actions p s s') :
    Sound s' := by
  obtain ⟨ids, hderive⟩ := hd
  obtain ⟨hvalid, heffects⟩ := unit_bind_eq_ok.mp hderive
  have heffects := (Except.ok.inj heffects).symm
  rw [heffects] at hi
  have hm := ha.storable
  have hrow : ∀ f ∈ s'.catalog_plan_features, StorablePlanFeature (exportedPlanFeature f) ∧
      Placed s' f := by
    intro f hf
    rcases (hi.plan_features f).mp hf with ⟨hold, -⟩ | hnew
    · exact ⟨h.plan_features f hold, (h.placed f hold).later hl⟩
    · rw [planFeatureRows_actions] at hnew
      obtain ⟨e, he, rfl⟩ := List.mem_map.mp hnew
      obtain ⟨hin, hne⟩ := List.mem_filter.mp he
      obtain ⟨q, hq, hin⟩ := List.mem_flatMap.mp hin
      obtain ⟨input, hinput, rfl⟩ := List.mem_map.mp hin
      have hafter := put_of_effect (of_decide_eq_true hne)
      refine ⟨?_, imported_place ha.keyed hvalid hi hq hinput hafter⟩
      rw [show (planFeatureEffect (buildSnapshot d.manifest s) d.effective_at q.plan_key
        (plannedId (buildSnapshot d.manifest s) ids d.effective_at q.toCatalogPlanInput)
        input).after = _ from hafter]
      exact hm.plan_features q hq input hinput
  exact ⟨imported_features h hm hi, imported_plans h hm hi, fun f hf => (hrow f hf).1,
    fun f hf => (hrow f hf).2⟩

/-! ## Every run -/

/-- A write of a program keeps the catalog sound. -/
theorem step_sound {write : CatalogWrite} (hk : ImportsKept w) (ho : World.Admits o w)
    (hp : Prepared write w) (h : Sound w.db) : Sound (write.apply o w.db).2 := by
  cases write with
  | persist d =>
    simp only [CatalogWrite.apply]
    rcases transact_cases (persistBatch d (previewId o.id)) o.clock w.db with
      ⟨a, -, ht⟩ | ⟨ns, s', hrun, ht⟩
    · rw [ht]
      exact h
    · rw [ht]
      obtain ⟨t, rfl, -⟩ := persist_ok hrun
      exact h.of_same ⟨rfl, rfl, rfl, rfl⟩
  | edit c e =>
    simp only [CatalogWrite.apply]
    rcases transact_cases (e.batch c o.id) o.clock w.db with ⟨a, -, ht⟩ | ⟨ns, s', hrun, ht⟩
    · rw [ht]
      exact h
    · rw [ht]
      obtain ⟨n, s₁, hwrite, hquiet⟩ := edit_ok hrun
      exact (write_sound h hp hwrite).of_same hquiet.toSameCatalog
  | applyImport call effective_at actions =>
    have hl : Later w.db (CatalogWrite.apply o (.applyImport call effective_at actions) w.db).2 :=
      (import_step hk ho hp).1.later
    simp only [CatalogWrite.apply] at hl ⊢
    rcases transact_cases (importBatch (call.run effective_at o.id) actions) o.clock w.db with
      ⟨a, -, ht⟩ | ⟨ns, s', hrun, ht⟩
    · rw [ht]
      exact h
    · rw [ht] at hl ⊢
      by_cases hn : ns.head? = some 0
      · obtain rfl := importBatch_unclaimed hrun hn fun q hq htoken =>
          ho.fresh (hk.tokens q hq o.id htoken)
        exact h
      · obtain ⟨p, hc⟩ := importBatch_claimed hrun hn
        obtain ⟨d, hadmitted, -, hderived, rfl, himported, -⟩ :=
          committed_import hk hc (hp p hc.there hc.claimable.1).1
        exact imported_sound h hl hadmitted.1 hderived himported

theorem catalog_keeps_sound :
    catalogSystem.Keeps Grows Prepared fun w => ImportsKept w ∧ Sound w.db where
  refl w h := Grows.refl h.1.drawn
  trans := Grows.trans
  inv o write w ho hp h := ⟨catalog_keeps.inv o write w ho hp h.1, step_sound h.1 ho hp h.2⟩
  guarantee o write w ho hp h := catalog_keeps.guarantee o write w ho hp h.1

/-- A world whose catalog has no feature and no plan. -/
structure BeforeCatalog (w : CatalogWorld) : Prop extends BeforePreviews w where
  features : w.db.catalog_features = .empty
  plans : w.db.catalog_plans = .empty
  plan_features : w.db.catalog_plan_features = .empty

theorem BeforeCatalog.sound (h : BeforeCatalog w) : Sound w.db where
  features f hf := by
    rw [h.features] at hf
    exact absurd hf Table.not_mem_empty
  plans p hp := by
    rw [h.plans] at hp
    exact absurd hp Table.not_mem_empty
  plan_features f hf := by
    rw [h.plan_features] at hf
    exact absurd hf Table.not_mem_empty
  placed f hf := by
    rw [h.plan_features] at hf
    exact absurd hf Table.not_mem_empty

/-- In every run the catalog holds only rows that the validators accept. -/
theorem reach_sound
    {c : Config CatalogWorld CatalogWrite CatalogResult (Except String CatalogAnswer)}
    (h0 : BeforeCatalog w) (h : catalogSystem.Reach ⟨w, []⟩ c) :
    ImportsKept c.state ∧ Sound c.state.db :=
  (System.reach_safe catalog_keeps_sound (fun _ hp w _ => run_handles hp w)
    ⟨h0.toBeforePreviews.kept, h0.sound⟩ h).inv

end Licensecc.Catalog
