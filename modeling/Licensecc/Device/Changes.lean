-- What a change can do to each table of the device system. Every law of a run
-- uses this list, so no law looks at the statements of a change again.
import Licensecc.Device.System

open Licensecc.Sql Licensecc.Conc

namespace Licensecc

/-! ## The life of a row -/

/-- A binding that no issue touches: it keeps its hold, and it only falls, from
active to retiring and from there, past its hold, to released. -/
structure BindingFalls (finish : Int) (b b' : Binding) : Prop where
  id : b'.id = b.id
  key : b'.toEntitlementKey = b.toEntitlementKey
  hold : b'.hold_until = b.hold_until
  active : b'.state = .active → b.state = .active
  retiring : b'.state = .retiring → b.state ≠ .released
  released : b'.state = .released → b.state = .released ∨ b.hold_until ≤ finish

theorem BindingFalls.refl {finish : Int} (b : Binding) : BindingFalls finish b b :=
  ⟨rfl, rfl, rfl, fun h => h, fun h => by rw [h]; decide, .inl⟩

/-- A binding that falls takes no new slot. -/
theorem BindingFalls.occupied {finish now : Int} {b b' : Binding} (h : BindingFalls finish b b')
    (ho : b'.boundOccupied now) : b.boundOccupied now := by
  rcases ho with ha | ⟨hr, ht⟩
  · exact .inl (h.active ha)
  · have hs := h.retiring hr
    cases hb : b.state with
    | active => exact .inl hb
    | retiring => exact .inr ⟨hb, h.hold ▸ ht⟩
    | released => exact absurd hb hs

theorem retiredBinding_falls {finish at_ : Int} {b : Binding} (h : b.state = .active) :
    BindingFalls finish b (Db.retiredBinding at_ b) :=
  ⟨rfl, rfl, rfl, fun _ => h, fun _ => by rw [h]; decide, fun hr => by cases hr⟩

/-- An operation keeps everything but its status and its response, a complete
one stays complete, and its response stays or is erased. -/
structure OperationAges (o o' : Operation) : Prop where
  same : { o' with status := o.status, response_json := o.response_json } = o
  status : o.status = .complete → o'.status = .complete
  response : o'.response_json = o.response_json ∨ o'.response_json = .erased

theorem OperationAges.refl (o : Operation) : OperationAges o o := ⟨rfl, fun h => h, .inl rfl⟩

/-- The trigger `tr_bound_operation_immutable` lets an operation only age. -/
theorem ages_of_trigger {now : Int} {old new : Operation}
    (h : Schema.beforeUpdate now old new = none) : OperationAges old new := by
  simp only [Schema.beforeUpdate, ite_eq_right_iff, reduceCtorEq, imp_false] at h
  obtain ⟨hs, hc⟩ := not_or.mp h
  rw [ne_eq, not_not] at hs
  rcases not_not.mp hc with ⟨-, h2, h3⟩ | ⟨-, h2, -, h4⟩
  · exact ⟨hs, fun _ => h2, .inl h3⟩
  · exact ⟨hs, fun _ => h2, .inr h4⟩

/-! ## The effect of a change -/

/-- What a change between two times can do. The id is the id that it draws. -/
structure ChangeEffect (id : String) (finish : Int) (db db' : Db) : Prop where
  bindings : List.Forall₂ (BindingFalls finish) db.device_bound_bindings.rows
    db'.device_bound_bindings.rows
  operations : ∃ new aged, db'.device_bound_operations.rows = new ++ aged ∧
    (∀ o ∈ new, o.invocation_id = id ∧ ∀ r, o.response_json ≠ .lease r) ∧
    List.Forall₂ OperationAges db.device_bound_operations.rows aged
  leases : ∀ l ∈ db'.device_bound_leases, l ∈ db.device_bound_leases
  leases_kept : ∀ l ∈ db.device_bound_leases, finish < l.accept_until → l ∈ db'.device_bound_leases
  challenges : ∀ c ∈ db'.device_bound_challenges,
    c ∈ db.device_bound_challenges ∨ (c.id = id ∧ c.consumed_invocation_id = none)
  attempts : ∀ a' ∈ db'.device_bound_authorizations,
    (∃ a ∈ db.device_bound_authorizations, AttemptAges a a') ∨ a'.handle_hash = id
  entitlements : ∀ e ∈ db.entitlements, ∃ e' ∈ db'.entitlements,
    e'.toEntitlementKey = e.toEntitlementKey
  limits : ∀ e' ∈ db'.entitlements,
    (∃ e ∈ db.entitlements, e.toEntitlementKey = e'.toEntitlementKey ∧
      (e'.max_active_devices = e.max_active_devices ∨
        db.occupied finish e.toEntitlementKey ≤ e'.max_active_devices)) ∨
    (0 ≤ e'.max_active_devices ∧
      ∀ e ∈ db.entitlements, e.toEntitlementKey ≠ e'.toEntitlementKey)

theorem ChangeEffect.refl (id : String) (finish : Int) (db : Db) :
    ChangeEffect id finish db db where
  bindings := List.forall₂_same.mpr fun b _ => BindingFalls.refl b
  operations := ⟨[], _, rfl, by simp, List.forall₂_same.mpr fun o _ => OperationAges.refl o⟩
  leases := fun _ h => h
  leases_kept := fun _ h _ => h
  challenges := fun _ h => .inl h
  attempts := fun a ha => .inl ⟨a, ha, .refl a⟩
  entitlements := fun e he => ⟨e, he, rfl⟩
  limits := fun e he => .inl ⟨e, he, rfl, .inl rfl⟩

variable {id : String} {finish : Int} {db db' : Db} {clock : Nat → Int}

theorem ChangeEffect.of_bindings {now : Int} {sel : Binding → Prop} [DecidablePred sel]
    {set : Binding → Binding} {n : Nat} {t : Table Binding}
    (h : db.device_bound_bindings.update now sel set = .ok (n, t))
    (hset : ∀ b ∈ db.device_bound_bindings, sel b →
      Schema.beforeUpdate now b (set b) = none → BindingFalls finish b (set b)) :
    ChangeEffect id finish db { db with device_bound_bindings := t } :=
  { ChangeEffect.refl id finish db with
    bindings := Table.forall₂_of_update h (fun b _ _ => BindingFalls.refl b) hset }

theorem ChangeEffect.of_attempts {now : Int} {sel : Authorization → Prop} [DecidablePred sel]
    {set : Authorization → Authorization} {n : Nat} {t : Table Authorization}
    (h : db.device_bound_authorizations.update now sel set = .ok (n, t)) :
    ChangeEffect id finish db { db with device_bound_authorizations := t } := by
  refine { ChangeEffect.refl id finish db with attempts := fun a' ha' => .inl ?_ }
  have hall := Table.forall₂_of_update h (fun a _ _ => AttemptAges.refl a)
    fun a _ _ => attempt_of_trigger
  exact forall₂_right hall ha'

theorem ChangeEffect.of_purge {sel : Authorization → Prop} [DecidablePred sel] {n : Nat}
    {t : Table Authorization} (h : db.device_bound_authorizations.delete sel = .ok (n, t)) :
    ChangeEffect id finish db { db with device_bound_authorizations := t } :=
  { ChangeEffect.refl id finish db with
    attempts := fun a ha => .inl ⟨a, ((Table.mem_of_delete h).mp ha).1, .refl a⟩ }

/-- A raw write of the state column: the triggers let a binding only fall. -/
theorem state_write_falls {now : Int} (hnow : now ≤ finish) {b : Binding} {state : BindingState}
    (h : Schema.beforeUpdate now b { b with state } = none) :
    BindingFalls finish b { b with state } := by
  simp only [Schema.beforeUpdate, lt_self_iff_false, ↓reduceIte, ne_eq, not_true_eq_false, or_self]
    at h
  split at h
  · cases h
  rename_i h1
  split at h
  · cases h
  rename_i h2
  refine ⟨rfl, rfl, rfl, fun ha => ?_, fun hr => ?_, fun hr => ?_⟩
  · cases hb : b.state with
    | active => rfl
    | retiring => exact absurd (.inl ⟨hb, ha⟩) h2
    | released =>
      refine absurd (.inr ⟨hb, ?_⟩) h2
      rw [show state = .active from ha]
      decide
  · intro hb
    refine absurd (.inr ⟨hb, ?_⟩) h2
    rw [show state = .retiring from hr]
    decide
  · refine .inr ?_
    by_contra hlt
    exact h1 ⟨hr, .inr (by omega)⟩

/-- The statements of the cleanup erase only what has expired. -/
theorem cleanup_effect (k : Cleanup) {n : Nat} (hclock : clock 0 ≤ finish)
    (h : k.stmt (clock 0) 0 db = .ok (n, db')) : ChangeEffect id finish db db' := by
  cases k <;> dsimp only [Cleanup.stmt] at h
  case eraseApprovals pick =>
    obtain ⟨t, ht, rfl⟩ := stored_eq_ok.mp h
    exact .of_attempts ht
  case purgeChallenges pick =>
    obtain ⟨t, ht, rfl⟩ := stored_eq_ok.mp h
    exact { ChangeEffect.refl id finish db with
      challenges := fun c hc => .inl ((Table.mem_of_delete ht).mp hc).1 }
  case purgeAttempts pick =>
    obtain ⟨t, ht, rfl⟩ := stored_eq_ok.mp h
    exact .of_purge ht
  case expireResponses pick =>
    obtain ⟨t, ht, rfl⟩ := stored_eq_ok.mp h
    exact { ChangeEffect.refl id finish db with
      operations := ⟨[], _, rfl, by simp, Table.forall₂_of_update ht
        (fun o _ _ => OperationAges.refl o) fun o _ _ => ages_of_trigger⟩ }
  case purgeConsumed pick =>
    obtain ⟨t, ht, rfl⟩ := stored_eq_ok.mp h
    exact .of_purge ht
  case purgeLeases pick =>
    obtain ⟨t, ht, rfl⟩ := stored_eq_ok.mp h
    refine { ChangeEffect.refl id finish db with
      leases := fun l hl => ((Table.mem_of_delete ht).mp hl).1
      leases_kept := fun l hl hlt => (Table.mem_of_delete ht).mpr ⟨hl, fun hd => ?_⟩ }
    have := hd.2
    omega

/-- What a change can do. -/
theorem change_effect (c : DeviceChange) {ns : List Nat}
    (hfresh : ∀ o ∈ db.device_bound_operations, o.invocation_id ≠ id)
    (hclock : ∀ n, clock n ≤ finish)
    (h : runBatch (c.batch id) clock 0 db = .ok (ns, db')) : ChangeEffect id finish db db' := by
  cases c with
  | retire p =>
    obtain ⟨⟨b, hb, d, hd, hg, hrows, -⟩, ⟨n, hu⟩, hothers⟩ := boundRetire_ok hfresh h
    rw [hothers]
    exact { ChangeEffect.refl id finish db with
      bindings := Table.forall₂_of_update hu (fun b _ _ => BindingFalls.refl b)
        fun b _ hs _ => retiredBinding_falls hs.2.1
      operations := ⟨[_], _, hrows, fun o ho => by
          obtain rfl := List.mem_singleton.mp ho
          exact ⟨rfl, nofun⟩,
        List.forall₂_same.mpr fun o _ => OperationAges.refl o⟩ }
  | deviceStatus device status =>
    obtain ⟨n, h⟩ := runBatch_one h
    obtain ⟨devices, bindings, m, hu, rfl⟩ := Db.updateDeviceStatus_ok h
    exact { ChangeEffect.refl id finish db with
      bindings := Table.forall₂_of_update hu (fun b _ _ => BindingFalls.refl b)
        fun b _ hs _ => retiredBinding_falls hs.2.1 }
  | bindingState sel state =>
    obtain ⟨n, h⟩ := runBatch_one h
    obtain ⟨t, ht, rfl⟩ := stored_eq_ok.mp h
    exact .of_bindings ht fun b _ _ => state_write_falls (hclock 0)
  | customerStatus customer status =>
    obtain ⟨n, h⟩ := runBatch_one h
    obtain ⟨t, ht, rfl⟩ := stored_eq_ok.mp h
    exact { ChangeEffect.refl id finish db with }
  | customerInsert row =>
    obtain ⟨n, h⟩ := runBatch_one h
    obtain ⟨t, ht, rfl⟩ := store_eq_ok.mp (inserted_eq_ok.mp h).2
    exact { ChangeEffect.refl id finish db with }
  | entitlements u =>
    obtain ⟨n, h⟩ := runBatch_one h
    obtain ⟨hcap, t, ht, rfl⟩ := Db.updateEntitlements_eq_ok.mp h
    have hkey : ∀ e : Entitlement, (e.bumped (u.set e)).toEntitlementKey = e.toEntitlementKey :=
      fun e => Entitlement.bumped_key.trans (u.keeps_key e)
    refine { ChangeEffect.refl id finish db with
      entitlements := fun e he => ⟨_, (Table.mem_of_update ht).mpr ⟨e, he, rfl⟩, ?_⟩
      limits := fun e' he' => .inl ?_ }
    · split
      · exact hkey e
      · rfl
    obtain ⟨e, he, rfl⟩ := (Table.mem_of_update ht).mp he'
    by_cases hs : u.sel e
    · rw [if_pos hs]
      refine ⟨e, he, (hkey e).symm, ?_⟩
      have hlimit : (e.bumped (u.set e)).max_active_devices = (u.set e).max_active_devices := by
        rw [Entitlement.bumped_eq]
      rw [hlimit]
      cases hof : u.ofCapacity with
      | false => exact .inl (u.keeps_limit hof e)
      | true =>
        -- The trigger has let the new limit through, so it is no lower than the slots in use.
        have hno := hcap e he hs
        have hle : (db.occupied (clock 0) e.toEntitlementKey : Int) ≤ (u.set e).max_active_devices := by
          by_contra hlt
          exact hno (.inl ⟨hof, by omega⟩)
        have hanti := @Db.occupied_anti db _ _ e.toEntitlementKey (hclock 0)
        right
        omega
    · rw [if_neg hs]
      exact ⟨e, he, rfl, .inl rfl⟩
  | entitlementInsert i =>
    obtain ⟨n, h⟩ := runBatch_one h
    obtain ⟨t, ht, rfl⟩ := Db.insertEntitlement_eq_ok.mp (inserted_eq_ok.mp h).2
    refine { ChangeEffect.refl id finish db with
      entitlements := fun e he => ⟨e, (Table.mem_of_insert ht).mpr (.inr he), rfl⟩
      limits := fun e' he' => ?_ }
    rcases (Table.mem_of_insert ht).mp he' with rfl | he
    · exact .inr ⟨i.limit, fun e he hk => (Table.insert_eq_ok.mp ht).2.2.1 e he hk.symm⟩
    · exact .inl ⟨e', he, rfl, .inl rfl⟩
  | challenge q =>
    obtain ⟨n, h⟩ := runBatch_one h
    rcases insertChallenge_ok h with rfl | ⟨s, -, -, t, ht, rfl⟩
    · exact .refl id finish _
    refine { ChangeEffect.refl id finish db with challenges := fun c hc => ?_ }
    rcases (Table.mem_of_insert ht).mp hc with rfl | hc
    · exact .inr ⟨rfl, rfl⟩
    · exact .inl hc
  | authorization q =>
    obtain ⟨n, h⟩ := runBatch_one h
    obtain ⟨t, ht, rfl⟩ := store_eq_ok.mp (inserted_eq_ok.mp h).2
    refine { ChangeEffect.refl id finish db with attempts := fun a ha => ?_ }
    rcases (Table.mem_of_insert ht).mp ha with rfl | ha
    · exact .inr rfl
    · exact .inl ⟨a, ha, .refl a⟩
  | approve q =>
    obtain ⟨n, h⟩ := runBatch_one h
    obtain ⟨t, ht, rfl⟩ := stored_eq_ok.mp h
    exact .of_attempts ht
  | deny q =>
    have heff := denyBatch_ok h
    obtain ⟨n, hu⟩ := heff.attempts
    rw [heff.others]
    exact { ChangeEffect.refl id finish db with
      attempts := fun a' ha' => .inl (forall₂_right (Table.forall₂_of_update hu
        (fun a _ _ => AttemptAges.refl a) fun a _ _ => attempt_of_trigger) ha') }
  | cleanup k =>
    obtain ⟨n, h⟩ := runBatch_one h
    exact cleanup_effect k (hclock 0) h
  | wait =>
    obtain ⟨-, rfl⟩ := runBatch_nil.mp h
    exact .refl id finish db'

end Licensecc
