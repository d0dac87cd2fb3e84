-- The laws of a plan apply that succeeds: every action leaves its row as the
-- plan asks, no other grant changes, and a second look at the license finds
-- nothing to create, to update or to disable.
import Licensecc.Projection.Apply
import Licensecc.Projection.Classes

open Licensecc.Sql

namespace Licensecc.Projection

variable {r : ApplyRun} {s s' s'' : Store} {time : Int} {changes n : Nat} {ns : List Nat}
  {clock : Nat → Int}

/-! ## Frames -/

/-- A step changes no grant but those of some keys, and neither the catalog nor
the previews. -/
structure Frame (keys : List EntitlementKey) (s s' : Store) : Prop where
  others : ∀ e, e.toEntitlementKey ∉ keys → (e ∈ s'.entitlements ↔ e ∈ s.entitlements)
  features : s'.catalog_features = s.catalog_features
  previews : s'.license_plan_projection_previews = s.license_plan_projection_previews

theorem Frame.refl {keys : List EntitlementKey} : Frame keys s s := ⟨fun _ _ => Iff.rfl, rfl, rfl⟩

theorem Frame.mono {keys keys' : List EntitlementKey} (h : Frame keys s s')
    (hk : ∀ k ∈ keys, k ∈ keys') : Frame keys' s s' :=
  ⟨fun e he => h.others e fun hmem => he (hk _ hmem), h.features, h.previews⟩

theorem Frame.trans {keys : List EntitlementKey} (h : Frame keys s s')
    (h' : Frame keys s' s'') : Frame keys s s'' where
  others e he := (h'.others e he).trans (h.others e he)
  features := h'.features.trans h.features
  previews := h'.previews.trans h.previews

theorem Frame.claimed {keys : List EntitlementKey} (h : Frame keys s s') :
    Claimed r s' ↔ Claimed r s := by
  unfold Claimed
  rw [h.previews]

/-- What an action has left stands as long as its key is out of the frame. -/
theorem Frame.applied {keys : List EntitlementKey} {a : GrantAction} (h : Frame keys s s')
    (hk : a.key ∉ keys) (ha : Applied a s) : Applied a s' := by
  obtain ⟨e, he, hkey, hx⟩ := ha
  exact ⟨e, (h.others e (hkey ▸ hk)).mpr he, hkey, hx⟩

/-! ## The writes -/

theorem createEntitlement_frame {v : DesiredValues}
    (h : createEntitlementStatement r v time changes s = .ok (n, s')) :
    Frame [v.toEntitlementKey] s s' := by
  unfold createEntitlementStatement at h
  split at h
  · obtain ⟨db, hdb, rfl⟩ := Store.onDb_eq_ok.mp h
    obtain ⟨-, hins⟩ := inserted_eq_ok.mp hdb
    obtain ⟨t, ht, rfl⟩ := Db.insertEntitlement_eq_ok.mp hins
    refine ⟨fun e he => ?_, rfl, rfl⟩
    rw [Table.mem_of_insert ht]
    refine or_iff_right fun heq => he ?_
    rw [heq]
    exact List.mem_singleton_self _
  · obtain ⟨-, rfl⟩ := Prod.mk.inj (Except.ok.inj h)
    exact Frame.refl

/-- An update of the row of a key. -/
theorem updateEntitlements_frame {key : EntitlementKey} {ofCapacity : Bool}
    {sel : Entitlement → Prop} [DecidablePred sel] {set : Entitlement → Entitlement}
    (hsel : ∀ e, sel e → e.toEntitlementKey = key)
    (hset : ∀ e, (set e).toEntitlementKey = e.toEntitlementKey)
    (h : Store.onDb (s.updateEntitlements time ofCapacity sel set) s = .ok (n, s')) :
    Frame [key] s s' := by
  obtain ⟨db, hdb, rfl⟩ := Store.onDb_eq_ok.mp h
  obtain ⟨-, t, ht, rfl⟩ := Db.updateEntitlements_eq_ok.mp hdb
  refine ⟨fun e he => ?_, rfl, rfl⟩
  have hne : e.toEntitlementKey ≠ key := fun heq => he (heq ▸ List.mem_singleton_self _)
  dsimp only
  rw [Table.mem_of_update ht]
  constructor
  · rintro ⟨e₀, he₀, rfl⟩
    by_cases hs : sel e₀
    · rw [if_pos hs, Entitlement.bumped_key, hset] at hne
      exact absurd (hsel e₀ hs) hne
    · rw [if_neg hs]
      exact he₀
  · intro hmem
    exact ⟨e, hmem, (if_neg fun hs => hne (hsel e hs)).symm⟩

theorem updateEntitlement_frame {v : DesiredValues}
    (h : updateEntitlementStatement r v time changes s = .ok (n, s')) :
    Frame [v.toEntitlementKey] s s' := by
  unfold updateEntitlementStatement at h
  refine updateEntitlements_frame ?_ ?_ h
  · exact fun e hs => hs.1
  · exact fun e => rfl

theorem disableEntitlement_frame {key : EntitlementKey}
    (h : disableEntitlementStatement r key time changes s = .ok (n, s')) : Frame [key] s s' := by
  unfold disableEntitlementStatement at h
  refine updateEntitlements_frame ?_ ?_ h
  · exact fun e hs => hs.1
  · exact fun e => rfl

theorem entitlementAudit_frame {a : GrantAction}
    (h : entitlementAuditStatement r a time changes s = .ok (n, s')) : Frame [] s s' := by
  unfold entitlementAuditStatement at h
  split at h
  · obtain ⟨-, rfl⟩ := Prod.mk.inj (Except.ok.inj h)
    exact Frame.refl
  · split at h
    · obtain ⟨-, rfl⟩ := Prod.mk.inj (Except.ok.inj h)
      exact ⟨fun _ _ => Iff.rfl, rfl, rfl⟩
    · obtain ⟨-, rfl⟩ := Prod.mk.inj (Except.ok.inj h)
      exact Frame.refl

/-! ## The actions -/

/-- The write of a block changes the row of its action only. -/
def GrantBlock.Local (b : GrantBlock) : Prop :=
  ∀ time changes n s s', b.write time changes s = .ok (n, s') → Frame [b.action.key] s s'

/-- Under the claim, the three statements of an action leave its row as the
action says. -/
theorem block_applies {b : GrantBlock} (hb : b.Local) (hclaim : Claimed r s)
    (h : runBatch (b.statements r) clock changes s = .ok (ns, s')) :
    Applied b.action s' ∧ Frame [b.action.key] s s' := by
  obtain ⟨n₁, s₁, ms, h1, hrest, -⟩ := runBatch_cons.mp h
  obtain ⟨n₂, s₂, ms, h2, hrest, -⟩ := runBatch_cons.mp hrest
  obtain ⟨n₃, s₃, ms, h3, hrest, -⟩ := runBatch_cons.mp hrest
  obtain ⟨-, rfl⟩ := runBatch_nil.mp hrest
  have hframe : Frame [b.action.key] s s₂ :=
    (hb _ _ _ _ _ h1).trans ((entitlementAudit_frame h2).mono (by simp))
  obtain ⟨hholds, rfl⟩ := asserts_ok h3
  exact ⟨hholds.resolve_left fun hno => hno (hframe.claimed.mpr hclaim), hframe⟩

/-- Under the claim, the actions of different keys all leave their rows as they
say. The induction is on the actions: a later one keeps the row of an earlier
one, since their keys differ. -/
theorem blocks_apply {blocks : List GrantBlock} (hlocal : ∀ b ∈ blocks, b.Local)
    (hkeys : (blocks.map (·.action.key)).Nodup) (hclaim : Claimed r s)
    (h : runBatch (blocks.map (GrantBlock.statements r)).flatten clock changes s = .ok (ns, s')) :
    (∀ b ∈ blocks, Applied b.action s') ∧ Frame (blocks.map (·.action.key)) s s' := by
  induction blocks generalizing clock changes s ns with
  | nil =>
    obtain ⟨-, rfl⟩ := runBatch_nil.mp h
    exact ⟨by simp, Frame.refl⟩
  | cons b blocks ih =>
    rw [List.map_cons, List.flatten_cons] at h
    obtain ⟨ms, s₁, clock', changes', ms', h1, h2, -⟩ := runBatch_append h
    obtain ⟨happ, hframe⟩ := block_applies (hlocal b List.mem_cons_self) hclaim h1
    rw [List.map_cons, List.nodup_cons] at hkeys
    obtain ⟨hrest, hframe'⟩ := ih (fun b' hb' => hlocal b' (List.mem_cons_of_mem _ hb')) hkeys.2
      (hframe.claimed.mpr hclaim) h2
    refine ⟨fun b' hb' => ?_, ?_⟩
    · rcases List.mem_cons.mp hb' with rfl | hb'
      · exact hframe'.applied hkeys.1 happ
      · exact hrest b' hb'
    · exact (hframe.mono (by simp)).trans (hframe'.mono (by simp +contextual))

/-! ## The matcher and its predicate -/

theorem valuesForDesired_ok {d : Desired} {v : DesiredValues} (h : valuesForDesired d = .ok v) :
    ∃ owner, d.input.customer_id = some owner ∧ v = {
      toEntitlementKey := d.input.toEntitlementKey
      status := d.input.status
      valid_from := d.input.valid_from
      valid_until := d.input.valid_until
      notes := d.input.notes
      customer_id := owner
      license_id := d.input.license_id
      policy_id := d.policy_id
      max_active_devices := d.max_active_devices
      is_trial := d.trial.is_trial
      trial_expiration_basis := d.trial.trial_expiration_basis
      trial_duration_sec := d.trial.trial_duration_sec
      trial_one_per_device := d.trial.trial_one_per_device } := by
  unfold valuesForDesired at h
  cases ho : d.input.customer_id with
  | none => simp [ho, throw, throwThe, MonadExceptOf.throw] at h
  | some owner =>
    rw [ho] at h
    dsimp only at h
    split at h
    · cases h
    · exact ⟨owner, rfl, (Except.ok.inj h).symm⟩

/-- The matcher of a preview and the predicate of an apply agree on every
row. -/
theorem matches_iff_satisfied {d : Desired} {v : DesiredValues} (hv : valuesForDesired d = .ok v)
    (hactive : d.input.status = .active) (e : Entitlement) :
    planProjectionMatchesDesired (withId e) d = true ↔ DesiredSatisfied v e := by
  obtain ⟨owner, ho, rfl⟩ := valuesForDesired_ok hv
  simp [planProjectionMatchesDesired, withId, desiredSatisfied_iff, ho, hactive, and_assoc]

/-! ## The blocks of an apply -/

section
variable {actions : PlanActions} {blocks : List GrantBlock}

theorem createBlock_ok {a : CreateAction} {b : GrantBlock} (h : createBlock r a = .ok b) :
    ∃ v, valuesForDesired a.desired = .ok v ∧
      b = ⟨createEntitlementStatement r v, createGrant a v⟩ := store_eq_ok.mp h

theorem updateBlock_ok {a : UpdateAction} {b : GrantBlock} (h : updateBlock r a = .ok b) :
    ∃ v, valuesForDesired a.desired = .ok v ∧
      b = ⟨updateEntitlementStatement r v, updateGrant a v⟩ := store_eq_ok.mp h

theorem values_key {d : Desired} {v : DesiredValues} (h : valuesForDesired d = .ok v) :
    v.toEntitlementKey = d.input.toEntitlementKey := by
  obtain ⟨owner, -, rfl⟩ := valuesForDesired_ok h
  rfl

theorem createBlock_key {a : CreateAction} {b : GrantBlock} (h : createBlock r a = .ok b) :
    b.action.key = a.desired.input.toEntitlementKey := by
  obtain ⟨v, hv, rfl⟩ := createBlock_ok h
  exact values_key hv

theorem updateBlock_key {a : UpdateAction} {b : GrantBlock} (h : updateBlock r a = .ok b) :
    b.action.key = a.desired.input.toEntitlementKey := by
  obtain ⟨v, hv, rfl⟩ := updateBlock_ok h
  exact values_key hv

theorem createBlock_local {a : CreateAction} {b : GrantBlock} (h : createBlock r a = .ok b) :
    b.Local := by
  obtain ⟨v, -, rfl⟩ := createBlock_ok h
  intro time changes n s s' hw
  have hcreate : createEntitlementStatement r v time changes s = .ok (n, s') := hw
  exact createEntitlement_frame hcreate

theorem updateBlock_local {a : UpdateAction} {b : GrantBlock} (h : updateBlock r a = .ok b) :
    b.Local := by
  obtain ⟨v, -, rfl⟩ := updateBlock_ok h
  intro time changes n s s' hw
  have hupdate : updateEntitlementStatement r v time changes s = .ok (n, s') := hw
  exact updateEntitlement_frame hupdate

theorem disableBlock_local (a : DisableAction) : (disableBlock r a).Local := by
  intro time changes n s s' hw
  have hdisable : disableEntitlementStatement r a.previous.toEntitlementKey time changes s =
      .ok (n, s') := hw
  exact disableEntitlement_frame hdisable

theorem grantBlocks_ok (h : grantBlocks r actions = .ok blocks) :
    ∃ created updated, List.Forall₂ (fun a b => createBlock r a = .ok b) actions.created created ∧
      List.Forall₂ (fun a b => updateBlock r a = .ok b) actions.updated updated ∧
      blocks = created ++ updated ++ actions.disabled.map (disableBlock r) := by
  obtain ⟨created, hc, h⟩ := bind_eq_ok.mp h
  obtain ⟨updated, hu, rfl⟩ := store_eq_ok.mp h
  exact ⟨created, updated, mapM_eq_ok.mp hc, mapM_eq_ok.mp hu, rfl⟩

theorem grantBlocks_local (h : grantBlocks r actions = .ok blocks) : ∀ b ∈ blocks, b.Local := by
  obtain ⟨created, updated, hc, hu, rfl⟩ := grantBlocks_ok h
  intro b hb
  rcases List.mem_append.mp hb with hb | hb
  · rcases List.mem_append.mp hb with hb | hb
    · obtain ⟨a, ha⟩ := exists_left_of_mem hc hb
      exact createBlock_local ha
    · obtain ⟨a, ha⟩ := exists_left_of_mem hu hb
      exact updateBlock_local ha
  · obtain ⟨a, -, rfl⟩ := List.mem_map.mp hb
    exact disableBlock_local a

theorem forall₂_keys {α : Type} {f : α → Except String GrantBlock} {key : α → EntitlementKey}
    (hkey : ∀ a b, f a = .ok b → b.action.key = key a) {l : List α} {bs : List GrantBlock}
    (h : List.Forall₂ (fun a b => f a = .ok b) l bs) :
    bs.map (·.action.key) = l.map key := by
  induction h with
  | nil => rfl
  | cons hab _ ih => rw [List.map_cons, List.map_cons, ih, hkey _ _ hab]

theorem grantBlocks_keys (h : grantBlocks r actions = .ok blocks) :
    blocks.map (·.action.key) = actions.created.map (·.desired.input.toEntitlementKey) ++
      actions.updated.map (·.desired.input.toEntitlementKey) ++
      actions.disabled.map (·.previous.toEntitlementKey) := by
  obtain ⟨created, updated, hc, hu, rfl⟩ := grantBlocks_ok h
  rw [List.map_append, List.map_append, forall₂_keys (fun _ _ => createBlock_key) hc,
    forall₂_keys (fun _ _ => updateBlock_key) hu, List.map_map]
  rfl

/-- After the actions, a created grant is as the plan asks. -/
theorem created_satisfied (h : grantBlocks r actions = .ok blocks)
    (happ : ∀ b ∈ blocks, Applied b.action s') {a : CreateAction} (ha : a ∈ actions.created) :
    ∃ v, valuesForDesired a.desired = .ok v ∧ ∃ e ∈ s'.entitlements,
      e.toEntitlementKey = a.desired.input.toEntitlementKey ∧ DesiredSatisfied v e := by
  obtain ⟨created, updated, hc, -, rfl⟩ := grantBlocks_ok h
  obtain ⟨b, hb, hab⟩ := forall₂_left hc ha
  obtain ⟨v, hv, rfl⟩ := createBlock_ok hab
  obtain ⟨e, he, hk, hx⟩ := happ _ (List.mem_append_left _ (List.mem_append_left _ hb))
  exact ⟨v, hv, e, he, hk.trans (values_key hv), hx⟩

theorem updated_satisfied (h : grantBlocks r actions = .ok blocks)
    (happ : ∀ b ∈ blocks, Applied b.action s') {a : UpdateAction} (ha : a ∈ actions.updated) :
    ∃ v, valuesForDesired a.desired = .ok v ∧ ∃ e ∈ s'.entitlements,
      e.toEntitlementKey = a.desired.input.toEntitlementKey ∧ DesiredSatisfied v e := by
  obtain ⟨created, updated, -, hu, rfl⟩ := grantBlocks_ok h
  obtain ⟨b, hb, hab⟩ := forall₂_left hu ha
  obtain ⟨v, hv, rfl⟩ := updateBlock_ok hab
  obtain ⟨e, he, hk, hx⟩ := happ _ (List.mem_append_left _ (List.mem_append_right _ hb))
  exact ⟨v, hv, e, he, hk.trans (values_key hv), hx⟩

theorem disabled_disabled (h : grantBlocks r actions = .ok blocks)
    (happ : ∀ b ∈ blocks, Applied b.action s') {a : DisableAction} (ha : a ∈ actions.disabled) :
    ∃ e ∈ s'.entitlements, e.toEntitlementKey = a.previous.toEntitlementKey ∧
      e.status = .disabled := by
  obtain ⟨created, updated, -, -, rfl⟩ := grantBlocks_ok h
  obtain ⟨e, he, hk, hx⟩ := happ _ (List.mem_append_right _ (List.mem_map_of_mem ha))
  exact ⟨e, he, hk, hx⟩

end

/-! ## The managed grants -/

section
variable {input : ProjectionInput}

theorem mem_managedEntitlements {e : Entitlement} : e ∈ managedEntitlements input s ↔
    e ∈ s.entitlements ∧ e.project = input.project ∧ e.license_id = some input.license_id ∧
      e.license_fingerprint = input.license_fingerprint ∧
      ∃ f ∈ s.catalog_features, f.project = e.project ∧ f.feature_key = e.feature := by
  unfold managedEntitlements
  simp [Table.mem_def]

/-- A license has one managed grant for each feature. -/
theorem existingRows_nodup : ((existingRows input s).map (·.feature)).Nodup := by
  unfold existingRows managedEntitlements
  rw [List.map_map, ((List.perm_insertionSort _ _).map _).nodup_iff, List.Nodup, List.pairwise_map]
  refine List.Pairwise.imp_of_mem ?_ (s.entitlements.distinct.filter _)
  intro a b ha hb hab heq
  have ha' := (List.mem_filter.mp ha).2
  have hb' := (List.mem_filter.mp hb).2
  simp only [decide_eq_true_eq] at ha' hb'
  exact hab (EntitlementKey.ext (ha'.1.trans hb'.1.symm) heq (ha'.2.2.1.trans hb'.2.2.1.symm))

theorem byFeature_managed {e : Entitlement} (h : e ∈ managedEntitlements input s) :
    byFeature (·.feature) (existingRows input s) e.feature = some (withId e) :=
  byFeature_eq (r := withId e) existingRows_nodup (List.mem_map_of_mem h)

theorem byFeature_existing {f : String} {row : EntitlementRecord}
    (h : byFeature (·.feature) (existingRows input s) f = some row) :
    ∃ e ∈ managedEntitlements input s, withId e = row ∧ e.feature = f := by
  obtain ⟨hmem, hf⟩ := byFeature_some h
  obtain ⟨e, he, rfl⟩ := List.mem_map.mp hmem
  exact ⟨e, he, rfl, hf⟩

end

end Licensecc.Projection
