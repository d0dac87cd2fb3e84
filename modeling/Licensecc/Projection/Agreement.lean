-- What the operator sees, what an apply writes and what its assertions check
-- agree: the classes name the grants of the actions, and after an apply the
-- same plan asks for nothing more.
import Licensecc.Projection.Converge

open Licensecc.Sql

namespace Licensecc.Projection

variable {r : ApplyRun} {s s' s'' : Store} {time : Int} {changes n : Nat} {ns : List Nat}
  {clock : Nat → Int} {input : ProjectionInput} {desired : List Desired}

/-! ## The claim and the closing statements -/

/-- A step that writes no grant and no feature of the catalog. -/
structure SameGrants (s s' : Store) : Prop where
  entitlements : s'.entitlements = s.entitlements
  features : s'.catalog_features = s.catalog_features

theorem SameGrants.refl (s : Store) : SameGrants s s := ⟨rfl, rfl⟩

theorem SameGrants.trans (h : SameGrants s s') (h' : SameGrants s' s'') : SameGrants s s'' :=
  ⟨h'.entitlements.trans h.entitlements, h'.features.trans h.features⟩

theorem onPreviews_same {x : Except Abort (Nat × Table ProjectionPreviewRow)}
    (h : onPreviews x s = .ok (n, s')) : SameGrants s s' := by
  obtain ⟨t, -, rfl⟩ := stored_eq_ok.mp h
  exact ⟨rfl, rfl⟩

theorem onResponses_same {x : Except Abort (Nat × Table ResponseRow)}
    (h : Store.onResponses x s = .ok (n, s')) : SameGrants s s' := by
  obtain ⟨t, -, rfl⟩ := stored_eq_ok.mp h
  exact ⟨rfl, rfl⟩

theorem onAssignments_same {x : Except Abort (Nat × Table Assignment)}
    (h : onAssignments x s = .ok (n, s')) : SameGrants s s' := by
  obtain ⟨t, -, rfl⟩ := counted_eq_ok.mp h
  exact ⟨rfl, rfl⟩

theorem same_of_ok (h : (Except.ok (changes, s) : Except Abort (Nat × Store)) = .ok (n, s')) :
    SameGrants s s' := by
  obtain ⟨-, rfl⟩ := Prod.mk.inj (Except.ok.inj h)
  exact SameGrants.refl _

theorem asserts_same {holds : Store → Prop} [DecidablePred holds]
    (h : asserts holds time changes s = .ok (n, s')) : SameGrants s s' := by
  obtain ⟨-, rfl⟩ := asserts_ok h
  exact SameGrants.refl _

theorem assignmentStatement_same {target : PlanAssignment}
    (h : assignmentStatement r target time changes s = .ok (n, s')) : SameGrants s s' := by
  unfold assignmentStatement at h
  split at h
  · split at h
    · exact onAssignments_same h
    · exact onAssignments_same h
  · exact same_of_ok h

theorem assignmentAudit_same {target : PlanAssignment} {previous : Option Assignment}
    (h : assignmentAuditStatement r target previous time changes s = .ok (n, s')) :
    SameGrants s s' := by
  unfold assignmentAuditStatement at h
  split at h
  · exact same_of_ok h
  · split at h
    · obtain ⟨-, rfl⟩ := Prod.mk.inj (Except.ok.inj h)
      exact ⟨rfl, rfl⟩
    · exact same_of_ok h

theorem remember_same {scope key : String} {body : Store → Option MutationBody} {now : Int}
    (h : Store.remember scope key body now time changes s = .ok (n, s')) : SameGrants s s' := by
  unfold Store.remember at h
  split at h
  · exact same_of_ok h
  · split at h
    · exact same_of_ok h
    · exact onResponses_same h

theorem closing_same {target : PlanAssignment} {previous : Option Assignment}
    {stmt : Stmt Store} (hmem : stmt ∈ closingStatements r target previous)
    (h : stmt time changes s = .ok (n, s')) : SameGrants s s' := by
  simp only [closingStatements, List.mem_append, List.mem_cons, List.not_mem_nil, or_false] at hmem
  rcases hmem with ((rfl | rfl | rfl | rfl | rfl) | hmem) | (rfl | rfl)
  · exact assignmentStatement_same h
  · exact asserts_same h
  · exact assignmentAudit_same h
  · exact asserts_same h
  · exact onPreviews_same h
  · unfold idempotencyStatements at hmem
    split at hmem
    · rcases List.mem_pair.mp hmem with rfl | rfl
      · exact remember_same h
      · exact asserts_same h
    · cases hmem
  · exact onPreviews_same h
  · exact asserts_same h

theorem claim_ok (h : claimStatement r time changes s = .ok (n, s')) (hn : n ≠ 0) :
    Claimed r s' ∧ SameGrants s s' := by
  unfold claimStatement at h
  refine ⟨?_, onPreviews_same h⟩
  unfold onPreviews at h
  obtain ⟨t, ht, rfl⟩ := stored_eq_ok.mp h
  obtain ⟨p, hp, hc⟩ : ∃ p ∈ s.license_plan_projection_previews, Claimable r s p := by
    by_contra hno
    refine hn ((Table.update_eq_ok.mp ht).2.1.trans (Table.count_eq_zero.mpr fun p hp hc => ?_))
    exact hno ⟨p, hp, hc⟩
  refine ⟨_, (Table.mem_of_update ht).mpr ⟨p, hp, rfl⟩, ?_⟩
  rw [if_pos hc]
  exact ⟨hc.1, rfl, hc.2.2.2.1⟩

/-- The batch of an apply that claims its preview, in its three parts: the
claim, the actions and the rest. -/
theorem projectionBatch_parts {actions : ProjectionActions} {batch : List (Stmt Store)}
    (hbatch : projectionBatch r actions = .ok batch)
    (hrun : runBatch batch clock 0 s = .ok (ns, s')) (hclaim : ns.head? ≠ some 0) :
    ∃ blocks s₁ s₂ clock' changes' ms, grantBlocks r actions.toPlanActions = .ok blocks ∧
      SameGrants s s₁ ∧ Claimed r s₁ ∧
      runBatch (blocks.map (GrantBlock.statements r)).flatten clock' changes' s₁ = .ok (ms, s₂) ∧
      SameGrants s₂ s' := by
  obtain ⟨blocks, hblocks, rfl⟩ := store_eq_ok.mp hbatch
  obtain ⟨ms, s₂, clock₂, changes₂, ms₂, hfirst, hclosing, rfl⟩ := runBatch_append hrun
  rw [List.cons_append] at hfirst
  obtain ⟨n₁, s₁, ms₁, h1, hrest, rfl⟩ := runBatch_cons.mp hfirst
  obtain ⟨hclaimed, hsame⟩ := claim_ok h1 fun hn => hclaim (by rw [hn]; rfl)
  rw [List.singleton_append] at hrest
  obtain ⟨n₀, s₀, ms₀, h0, hgrants, -⟩ := runBatch_cons.mp hrest
  obtain ⟨-, rfl⟩ := Prod.mk.inj (Except.ok.inj h0)
  refine ⟨blocks, _, s₂, _, _, _, hblocks, hsame, hclaimed, hgrants, ?_⟩
  exact runBatch_rel SameGrants.refl SameGrants.trans
    (fun stmt hmem _ _ _ _ _ hs => closing_same hmem hs) hclosing

/-! ## The keys of the actions -/

/-- What the snapshot of a preview gives of the desired grants: each is asked
of the license, one for each feature, and its feature is in the catalog. -/
structure Wanted (input : ProjectionInput) (desired : List Desired) (s : Store) : Prop where
  nodup : (desired.map (·.input.feature)).Nodup
  asks : ∀ d ∈ desired, Asks input d
  known : ∀ d ∈ desired, ∃ f ∈ s.catalog_features,
    f.project = input.project ∧ f.feature_key = d.input.feature

theorem Wanted.unique (h : Wanted input desired s) {d d' : Desired} (hd : d ∈ desired)
    (hd' : d' ∈ desired) (hf : d.input.feature = d'.input.feature) : d = d' :=
  List.inj_on_of_nodup_map h.nodup hd hd' hf

section
variable {rows : List EntitlementRecord}

theorem mem_created {a : CreateAction} : a ∈ (deriveActions desired rows).created ↔
    a.desired ∈ desired ∧ byFeature (·.feature) rows a.desired.input.feature = none ∧
      a = ⟨actionId a.desired, a.desired⟩ := by
  rw [deriveActions_eq]
  simp only [List.mem_map, List.mem_filter, Option.isNone_iff_eq_none]
  constructor
  · rintro ⟨d, ⟨hd, hn⟩, rfl⟩
    exact ⟨hd, hn, rfl⟩
  · rintro ⟨hd, hn, heq⟩
    exact ⟨a.desired, ⟨hd, hn⟩, heq.symm⟩

theorem mem_updated {a : UpdateAction} : a ∈ (deriveActions desired rows).updated ↔
    a.desired ∈ desired ∧ updateAction rows a.desired = some a := by
  rw [deriveActions_eq]
  simp only [List.mem_filterMap]
  constructor
  · rintro ⟨d, hd, hu⟩
    obtain rfl := updateAction_desired hu
    exact ⟨hd, hu⟩
  · rintro ⟨hd, hu⟩
    exact ⟨a.desired, hd, hu⟩

theorem mem_disabled {a : DisableAction} : a ∈ (deriveActions desired rows).disabled ↔
    a.previous ∈ notInPlan desired rows ∧ mayDisable a.previous = true ∧
      a = ⟨entitlementId a.previous.toEntitlementKey, a.previous⟩ := by
  rw [deriveActions_eq]
  simp only [List.mem_map, List.mem_filter]
  constructor
  · rintro ⟨row, ⟨hr, hm⟩, rfl⟩
    exact ⟨hr, hm, rfl⟩
  · rintro ⟨hr, hm, heq⟩
    exact ⟨a.previous, ⟨hr, hm⟩, heq.symm⟩

theorem mem_notInPlan {row : EntitlementRecord} : row ∈ notInPlan desired rows ↔
    row ∈ rows ∧ row.feature ∉ desired.map (·.input.feature) := by
  unfold notInPlan
  rw [List.mem_filter, byFeature_isNone]

theorem updateAction_none {d : Desired} (h : byFeature (·.feature) rows d.input.feature = none) :
    updateAction rows d = none := by
  unfold updateAction
  rw [h]

/-- The features of the actions, each once. -/
theorem action_features_nodup (hd : (desired.map (·.input.feature)).Nodup)
    (he : (rows.map (·.feature)).Nodup) :
    (((deriveActions desired rows).created.map (·.desired.input.toEntitlementKey) ++
      (deriveActions desired rows).updated.map (·.desired.input.toEntitlementKey) ++
      (deriveActions desired rows).disabled.map (·.previous.toEntitlementKey)).map
        (·.feature)).Nodup := by
  have hcreated : (deriveActions desired rows).created.map (·.desired.input.toEntitlementKey) =
      (desired.filter fun d => (byFeature (·.feature) rows d.input.feature).isNone).map
        (·.input.toEntitlementKey) := by
    rw [deriveActions_eq, List.map_map]
    rfl
  have hupdated : (deriveActions desired rows).updated.map (·.desired.input.toEntitlementKey) =
      (desired.filter fun d => (updateAction rows d).isSome).map (·.input.toEntitlementKey) := by
    rw [deriveActions_eq, updateAction_keys]
  have hdisabled : (deriveActions desired rows).disabled.map (·.previous.toEntitlementKey) =
      ((notInPlan desired rows).filter mayDisable).map (·.toEntitlementKey) := by
    rw [deriveActions_eq, List.map_map]
    rfl
  rw [hcreated, hupdated, hdisabled, List.map_append, List.map_append, List.map_map, List.map_map,
    List.map_map, List.nodup_append, List.nodup_append]
  refine ⟨⟨?_, ?_, ?_⟩, ?_, ?_⟩
  · exact hd.sublist (List.filter_sublist.map _)
  · exact hd.sublist (List.filter_sublist.map _)
  · intro f hf f' hf' heq
    obtain ⟨d, hmem, rfl⟩ := List.mem_map.mp hf
    obtain ⟨d', hmem', rfl⟩ := List.mem_map.mp hf'
    obtain ⟨hin, hnone⟩ := List.mem_filter.mp hmem
    obtain ⟨hin', hsome⟩ := List.mem_filter.mp hmem'
    obtain rfl := List.inj_on_of_nodup_map hd hin hin' heq
    rw [updateAction_none (Option.isNone_iff_eq_none.mp hnone)] at hsome
    cases hsome
  · exact he.sublist ((List.filter_sublist.trans List.filter_sublist).map _)
  · intro f hf f' hf' heq
    obtain ⟨row, hmem', rfl⟩ := List.mem_map.mp hf'
    obtain ⟨-, hnot⟩ := mem_notInPlan.mp (List.mem_filter.mp hmem').1
    have hfeature : f = row.feature := heq
    apply hnot
    rw [← hfeature]
    rcases List.mem_append.mp hf with hf | hf
    · obtain ⟨d, hmem, rfl⟩ := List.mem_map.mp hf
      exact List.mem_map_of_mem (List.mem_filter.mp hmem).1
    · obtain ⟨d, hmem, rfl⟩ := List.mem_map.mp hf
      exact List.mem_map_of_mem (List.mem_filter.mp hmem).1

end

/-! ## A second look -/

section
variable {blocks : List GrantBlock}

/-- Where an apply stands after its actions: the actions came from the grants
of the state before, each left its row as it says, and every other grant is as
it was. -/
structure Executed (r : ApplyRun) (input : ProjectionInput) (desired : List Desired)
    (blocks : List GrantBlock) (s s' : Store) : Prop where
  derived : grantBlocks r (deriveActions desired (existingRows input s)) = .ok blocks
  applied : ∀ b ∈ blocks, Applied b.action s'
  others : ∀ e, e.toEntitlementKey ∉ blocks.map (·.action.key) →
    (e ∈ s'.entitlements ↔ e ∈ s.entitlements)
  features : s'.catalog_features = s.catalog_features

theorem Wanted.key (h : Wanted input desired s) {d : Desired} (hd : d ∈ desired) :
    d.input.toEntitlementKey = ⟨input.project, d.input.feature, input.license_fingerprint⟩ :=
  EntitlementKey.ext (h.asks d hd).project rfl (h.asks d hd).fingerprint

/-- The key of a grant that no action is about. -/
theorem key_untouched (hx : Executed r input desired blocks s s') {key : EntitlementKey}
    (hcreated : ∀ d ∈ desired, d.input.toEntitlementKey = key →
      byFeature (·.feature) (existingRows input s) d.input.feature ≠ none)
    (hupdated : ∀ d ∈ desired, d.input.toEntitlementKey = key →
      updateAction (existingRows input s) d = none)
    (hdisabled : ∀ row ∈ existingRows input s, row.toEntitlementKey = key →
      row.feature ∉ desired.map (·.input.feature) → mayDisable row = false) :
    key ∉ blocks.map (·.action.key) := by
  rw [grantBlocks_keys hx.derived, List.mem_append, List.mem_append]
  rintro ((h | h) | h)
  · obtain ⟨a, ha, hk⟩ := List.mem_map.mp h
    obtain ⟨hd, hn, -⟩ := mem_created.mp ha
    exact hcreated a.desired hd hk hn
  · obtain ⟨a, ha, hk⟩ := List.mem_map.mp h
    obtain ⟨hd, hu⟩ := mem_updated.mp ha
    rw [hupdated a.desired hd hk] at hu
    cases hu
  · obtain ⟨a, ha, hk⟩ := List.mem_map.mp h
    obtain ⟨hp, hm, -⟩ := mem_disabled.mp ha
    obtain ⟨hrow, hnot⟩ := mem_notInPlan.mp hp
    rw [hdisabled a.previous hrow hk hnot] at hm
    cases hm

/-- A row that has the values of a desired grant is the managed row of its
feature, and the matcher accepts it. -/
theorem satisfied_matches (hw : Wanted input desired s) (hf : s'.catalog_features = s.catalog_features)
    {d : Desired} (hd : d ∈ desired) {v : DesiredValues} (hv : valuesForDesired d = .ok v)
    {e : Entitlement} (he : e ∈ s'.entitlements)
    (hk : e.toEntitlementKey = d.input.toEntitlementKey) (hx : DesiredSatisfied v e) :
    ∃ row, byFeature (·.feature) (existingRows input s') d.input.feature = some row ∧
      planProjectionMatchesDesired row d = true := by
  have hkey := hk.trans (hw.key hd)
  have hfeature : e.feature = d.input.feature := congrArg EntitlementKey.feature hk
  have hlicense : e.license_id = some input.license_id := by
    obtain ⟨owner, -, rfl⟩ := valuesForDesired_ok hv
    exact hx.license_id.trans (hw.asks d hd).license
  have hmanaged : e ∈ managedEntitlements input s' := by
    refine mem_managedEntitlements.mpr ⟨he, congrArg EntitlementKey.project hkey, hlicense,
      congrArg EntitlementKey.license_fingerprint hkey, ?_⟩
    obtain ⟨f, hmem, hproject, hname⟩ := hw.known d hd
    have hp : e.project = input.project := congrArg EntitlementKey.project hkey
    exact ⟨f, hf ▸ hmem, hproject.trans hp.symm, hname.trans hfeature.symm⟩
  refine ⟨withId e, ?_, (matches_iff_satisfied hv (hw.asks d hd).active e).mpr hx⟩
  rw [← hfeature]
  exact byFeature_managed hmanaged

/-- After an apply, a desired grant has its row, and the row matches unless it
was revoked before. -/
theorem desired_settled (hw : Wanted input desired s) (hx : Executed r input desired blocks s s')
    {d : Desired} (hd : d ∈ desired) :
    ∃ row, byFeature (·.feature) (existingRows input s') d.input.feature = some row ∧
      (row.status = .revoked ∨ planProjectionMatchesDesired row d = true) := by
  cases hb : byFeature (·.feature) (existingRows input s) d.input.feature with
  | none =>
    have hmem : (⟨actionId d, d⟩ : CreateAction) ∈
        (deriveActions desired (existingRows input s)).created := mem_created.mpr ⟨hd, hb, rfl⟩
    obtain ⟨v, hv, e, he, hk, hsat⟩ := created_satisfied hx.derived hx.applied hmem
    obtain ⟨row, hrow, hmatch⟩ := satisfied_matches hw hx.features hd hv he hk hsat
    exact ⟨row, hrow, .inr hmatch⟩
  | some existing =>
    by_cases hs : existing.status ≠ .revoked ∧ planProjectionMatchesDesired existing d = false
    · have hu : updateAction (existingRows input s) d = some ⟨actionId d, d, existing⟩ := by
        unfold updateAction
        simp only [hb]
        rw [if_pos hs]
      have hmem : (⟨actionId d, d, existing⟩ : UpdateAction) ∈
          (deriveActions desired (existingRows input s)).updated := mem_updated.mpr ⟨hd, hu⟩
      obtain ⟨v, hv, e, he, hk, hsat⟩ := updated_satisfied hx.derived hx.applied hmem
      obtain ⟨row, hrow, hmatch⟩ := satisfied_matches hw hx.features hd hv he hk hsat
      exact ⟨row, hrow, .inr hmatch⟩
    · -- the grant is as the plan asks or revoked, and no action is about it
      obtain ⟨e, he, rfl, hfeature⟩ := byFeature_existing hb
      have hm := mem_managedEntitlements.mp he
      have hkey : e.toEntitlementKey = d.input.toEntitlementKey := by
        rw [hw.key hd]
        exact EntitlementKey.ext hm.2.1 hfeature hm.2.2.2.1
      have hsame : ∀ d' ∈ desired, d'.input.toEntitlementKey = e.toEntitlementKey → d' = d :=
        fun d' hd' hk' => hw.unique hd' hd (congrArg EntitlementKey.feature (hk'.trans hkey))
      have hout : e.toEntitlementKey ∉ blocks.map (·.action.key) := by
        refine key_untouched hx ?_ ?_ ?_
        · intro d' hd' hk'
          rw [hsame d' hd' hk', hb]
          exact Option.some_ne_none _
        · intro d' hd' hk'
          rw [hsame d' hd' hk']
          unfold updateAction
          simp only [hb]
          rw [if_neg hs]
        · intro row _ hk' hnot
          have hf' : row.feature = d.input.feature :=
            congrArg EntitlementKey.feature (hk'.trans hkey)
          rw [hf'] at hnot
          exact absurd (List.mem_map_of_mem hd) hnot
      have hmanaged : e ∈ managedEntitlements input s' := by
        refine mem_managedEntitlements.mpr ⟨(hx.others e hout).mpr hm.1, hm.2.1, hm.2.2.1,
          hm.2.2.2.1, ?_⟩
        rw [hx.features]
        exact hm.2.2.2.2
      refine ⟨withId e, ?_, ?_⟩
      · rw [← hfeature]
        exact byFeature_managed hmanaged
      · rw [not_and_or, not_not, Bool.not_eq_false] at hs
        exact hs

/-- After an apply, a grant that the plan does not ask for is not one to
disable. -/
theorem others_settled (hx : Executed r input desired blocks s s') {row : EntitlementRecord}
    (hrow : row ∈ notInPlan desired (existingRows input s')) : mayDisable row = false := by
  obtain ⟨hmem, hnot⟩ := mem_notInPlan.mp hrow
  obtain ⟨e, he, rfl⟩ := List.mem_map.mp hmem
  have hm := mem_managedEntitlements.mp he
  by_cases hdis : ∃ old ∈ existingRows input s, old.toEntitlementKey = e.toEntitlementKey ∧
      mayDisable old = true
  · obtain ⟨old, hold, hk, hmay⟩ := hdis
    have hf : old.feature = e.feature := congrArg EntitlementKey.feature hk
    have hact : (⟨entitlementId old.toEntitlementKey, old⟩ : DisableAction) ∈
        (deriveActions desired (existingRows input s)).disabled := by
      refine mem_disabled.mpr ⟨mem_notInPlan.mpr ⟨hold, ?_⟩, hmay, rfl⟩
      rw [hf]
      exact hnot
    obtain ⟨e', he', hk', hstatus⟩ := disabled_disabled hx.derived hx.applied hact
    have heq : e' = e := Table.unique he' hm.1 (hk'.trans hk)
    rw [heq] at hstatus
    simp [mayDisable, withId, hstatus]
  · have hplan : ∀ d ∈ desired, d.input.toEntitlementKey ≠ e.toEntitlementKey := by
      intro d hd hk
      apply hnot
      have hf : d.input.feature = e.feature := congrArg EntitlementKey.feature hk
      have hrec : (withId e).feature = d.input.feature := hf.symm
      rw [hrec]
      exact List.mem_map_of_mem hd
    have hout : e.toEntitlementKey ∉ blocks.map (·.action.key) := by
      refine key_untouched hx ?_ ?_ ?_
      · exact fun d hd hk => absurd hk (hplan d hd)
      · exact fun d hd hk => absurd hk (hplan d hd)
      · intro old hold hk _
        by_contra hmay
        exact hdis ⟨old, hold, hk, Bool.not_eq_false _ ▸ hmay⟩
    have hold : withId e ∈ existingRows input s := by
      refine List.mem_map_of_mem (mem_managedEntitlements.mpr ⟨(hx.others e hout).mp hm.1, hm.2.1,
        hm.2.2.1, hm.2.2.2.1, ?_⟩)
      rw [← hx.features]
      exact hm.2.2.2.2
    by_contra hmay
    exact hdis ⟨withId e, hold, rfl, Bool.not_eq_false _ ▸ hmay⟩

/-- After an apply, the same plan creates, updates and disables nothing. -/
theorem settled_classes (hw : Wanted input desired s)
    (hx : Executed r input desired blocks s s') {c : PlanClass}
    (hc : c = .create ∨ c = .update ∨ c = .disable) :
    (classifyBuckets input desired (existingRows input s')).get c = [] := by
  rw [classifyBuckets_get]
  refine List.eq_nil_iff_forall_not_mem.mpr fun l hl => ?_
  rcases List.mem_append.mp (mem_linesOf.mp hl) with hmem | hmem
  · obtain ⟨d, hd, hline⟩ := List.mem_map.mp hmem
    obtain ⟨row, hrow, hset⟩ := desired_settled hw hx hd
    have hclass : (desiredLine input (existingRows input s') d).1 = c := congrArg Prod.fst hline
    rcases desiredLine_settled hrow hset with h | h
    · rw [h] at hclass
      simp [← hclass] at hc
    · rw [h] at hclass
      simp [← hclass] at hc
  · obtain ⟨row, hrow, hline⟩ := List.mem_map.mp hmem
    have hclass : (existingLine row).1 = c := congrArg Prod.fst hline
    rw [existingLine_class, others_settled hx hrow] at hclass
    simp [← hclass] at hc

end

end Licensecc.Projection
