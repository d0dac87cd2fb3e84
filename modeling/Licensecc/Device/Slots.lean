-- The laws of the device slots. However the writes of the system interleave,
-- an entitlement never has more slots in use than its limit, and a lease that
-- is accepted holds a slot until its acceptance ends.
import Licensecc.Device.Changes

open Licensecc.Sql Licensecc.Conc

namespace Licensecc

/-! ## The invariant -/

/-- What holds of the database between two writes, with the time and the ids
that were drawn so far. -/
structure SlotsHold (now : Int) (minted : List String) (db : Db) : Prop where
  minted : ∀ o ∈ db.device_bound_operations, o.invocation_id ∈ minted
  capacity : ∀ e ∈ db.entitlements,
    (db.occupied now e.toEntitlementKey : Int) ≤ e.max_active_devices
  granted : ∀ b ∈ db.device_bound_bindings,
    ∃ e ∈ db.entitlements, e.toEntitlementKey = b.toEntitlementKey
  leases : ∀ l ∈ db.device_bound_leases, ∃ b ∈ db.device_bound_bindings,
    b.id = l.binding_id ∧ l.accept_until ≤ b.hold_until
  released : ∀ b ∈ db.device_bound_bindings, b.state = .released → b.hold_until ≤ now

/-- A database before the first device: no limit is negative. -/
structure BeforeDevices (db : Db) : Prop where
  limits : ∀ e ∈ db.entitlements, 0 ≤ e.max_active_devices
  operations : db.device_bound_operations = .empty
  bindings : db.device_bound_bindings = .empty
  leases : db.device_bound_leases = .empty

theorem BeforeDevices.slotsHold {db : Db} (h : BeforeDevices db) (now : Int)
    (minted : List String) : SlotsHold now minted db where
  minted := by simp [h.operations]
  capacity := fun e he => by
    have h0 : db.occupied now e.toEntitlementKey = 0 := by
      rw [Db.occupied, h.bindings]
      rfl
    rw [h0]
    exact h.limits e he
  granted := by simp [h.bindings]
  leases := by simp [h.leases]
  released := by simp [h.bindings]

/-- Time and new ids keep the invariant. -/
theorem SlotsHold.later {now later : Int} {minted : List String} {id : String} {db : Db}
    (h : SlotsHold now minted db) (hle : now ≤ later) : SlotsHold later (id :: minted) db where
  minted := fun o ho => List.mem_cons_of_mem _ (h.minted o ho)
  capacity := fun e he => by
    have hanti := @Db.occupied_anti db _ _ e.toEntitlementKey hle
    have hcap := h.capacity e he
    omega
  granted := h.granted
  leases := h.leases
  released := fun b hb hr => le_trans (h.released b hb hr) hle

variable {db db' : Db} {p : Candidate} {clock : Nat → Int}

/-! ## A commit -/

/-- The stamp of a trial moves no key and no limit. -/
theorem CommitEffect.limits (h : CommitEffect p clock db db') {e' : Entitlement}
    (he' : e' ∈ db'.entitlements) : ∃ e ∈ db.entitlements,
      e.toEntitlementKey = e'.toEntitlementKey ∧ e'.max_active_devices = e.max_active_devices := by
  obtain ⟨n, hu, -⟩ := h.entitlements
  obtain ⟨e, he, rfl⟩ := (Table.mem_of_update hu).mp he'
  refine ⟨e, he, ?_⟩
  split
  · rw [Entitlement.bumped_eq]
    exact ⟨rfl, rfl⟩
  · exact ⟨rfl, rfl⟩

theorem CommitEffect.entitlement_kept (h : CommitEffect p clock db db') {e : Entitlement}
    (he : e ∈ db.entitlements) :
    ∃ e' ∈ db'.entitlements, e'.toEntitlementKey = e.toEntitlementKey := by
  obtain ⟨n, hu, -⟩ := h.entitlements
  refine ⟨_, (Table.mem_of_update hu).mpr ⟨e, he, rfl⟩, ?_⟩
  split
  · rw [Entitlement.bumped_eq]
    rfl
  · rfl

/-- A commit takes at most one more slot, and only of an entitlement that has
one free. -/
theorem CommitEffect.occupied (h : CommitEffect p clock db db') (now : Int) (key : EntitlementKey) :
    db'.occupied now key ≤ db.occupied now key ∨
    (db'.occupied now key ≤ db.occupied now key + 1 ∧ key = p.key ∧
      ∃ e ∈ db.entitlements, e.toEntitlementKey = key ∧
        db.occupied (clock 0) key < e.max_active_devices) := by
  obtain ⟨t, n, hcreated, hu⟩ := h.bindings
  have hset : db'.occupied now key ≤
      t.count fun b => b.toEntitlementKey = key ∧ b.boundOccupied now :=
    Table.count_of_update_le hu
      (fun b _ hb hq => ⟨hq.1, .inl hb.state⟩) (fun b _ _ hq => hq)
  rcases hcreated with ⟨-, hfree, hi⟩ | ⟨-, rfl⟩
  swap
  · exact .inl hset
  rw [Table.count_of_insert hi] at hset
  by_cases hk : key = p.key
  · -- The id of the binding is new, so the guard has counted the slots of its entitlement.
    rcases h.binding_cases with ⟨b, hb, ha, -⟩ | ⟨⟨e, he, ho, hf⟩, -⟩
    · exact absurd ⟨b, hb, ha.id⟩ hfree
    refine .inr ⟨?_, hk, e, he, ho.key.trans hk.symm, hk ▸ hf.capacity⟩
    split at hset
    · exact hset
    · exact Nat.le_succ_of_le hset
  · rw [if_neg fun hq => hk hq.1.symm] at hset
    exact .inl hset

/-- Each binding after a commit: an old one with the same hold or a higher
one, or the new one. -/
theorem CommitEffect.binding_source (h : CommitEffect p clock db db') {b' : Binding}
    (hb' : b' ∈ db'.device_bound_bindings) :
    (∃ b ∈ db.device_bound_bindings, b'.id = b.id ∧ b'.toEntitlementKey = b.toEntitlementKey ∧
      b'.state = b.state ∧ (b' = b ∨ b.state = .active)) ∨
    (b'.state = .active ∧ ∃ e ∈ db.entitlements, e.toEntitlementKey = b'.toEntitlementKey) := by
  rcases h.binding_cases with ⟨b₀, hb₀, ha, hmem⟩ | ⟨⟨e, he, ho, -⟩, hmem⟩
  · rcases (hmem b').mp hb' with ⟨hb, -⟩ | rfl
    · exact .inl ⟨b', hb, rfl, rfl, rfl, .inl rfl⟩
    · exact .inl ⟨b₀, hb₀, rfl, rfl, rfl, .inr ha.state⟩
  · rcases (hmem b').mp hb' with hb | rfl
    · exact .inl ⟨b', hb, rfl, rfl, rfl, .inl rfl⟩
    · exact .inr ⟨rfl, e, he, ho.key⟩

/-- Each binding before a commit is there after it, with its hold or a higher
one. -/
theorem CommitEffect.binding_kept (h : CommitEffect p clock db db') {b : Binding}
    (hb : b ∈ db.device_bound_bindings) :
    ∃ b' ∈ db'.device_bound_bindings, b'.id = b.id ∧ b.hold_until ≤ b'.hold_until ∧
      b'.state = b.state := by
  rcases h.binding_cases with ⟨b₀, hb₀, ha, hmem⟩ | ⟨-, hmem⟩
  · by_cases hbb : b = b₀
    · exact ⟨_, (hmem _).mpr (.inr rfl), hbb ▸ rfl, hbb ▸ le_max_left _ _, hbb ▸ rfl⟩
    · exact ⟨b, (hmem b).mpr (.inl ⟨hb, hbb⟩), rfl, le_rfl, rfl⟩
  · exact ⟨b, (hmem b).mpr (.inl hb), rfl, le_rfl, rfl⟩

theorem CommitEffect.lease_cases (h : CommitEffect p clock db db') {l : Lease} :
    l ∈ db'.device_bound_leases ↔ l = p.lease ∨ l ∈ db.device_bound_leases :=
  Table.mem_of_insert h.leases

theorem CommitEffect.slotsHold {now : Int} {minted : List String}
    (h : CommitEffect p clock db db') (hs : SlotsHold now minted db)
    (hid : p.invocationId ∈ minted) (hclock : ∀ n, clock n ≤ now) : SlotsHold now minted db' where
  minted := by
    intro o ho
    rw [Table.mem_def, h.operations] at ho
    rcases List.mem_cons.mp ho with rfl | ho
    · exact hid
    · exact hs.minted o ho
  capacity := by
    intro e' he'
    obtain ⟨e, he, hk, hmax⟩ := h.limits he'
    have hcap := hs.capacity e he
    rw [hk] at hcap
    rcases h.occupied now e'.toEntitlementKey with hle | ⟨hle, -, e₁, he₁, hk₁, hfree⟩
    · omega
    · obtain rfl : e₁ = e := Table.unique he₁ he (hk₁.trans hk.symm)
      have hanti := @Db.occupied_anti db _ _ e'.toEntitlementKey (hclock 0)
      omega
  granted := by
    intro b' hb'
    have hkept : ∀ e ∈ db.entitlements, e.toEntitlementKey = b'.toEntitlementKey →
        ∃ e' ∈ db'.entitlements, e'.toEntitlementKey = b'.toEntitlementKey := by
      intro e he hk
      obtain ⟨e', he', hk'⟩ := h.entitlement_kept he
      exact ⟨e', he', hk'.trans hk⟩
    rcases h.binding_source hb' with ⟨b, hb, -, hk, -⟩ | ⟨-, e, he, hk⟩
    · obtain ⟨e, he, hke⟩ := hs.granted b hb
      exact hkept e he (hke.trans hk.symm)
    · exact hkept e he hk
  leases := by
    intro l hl
    rcases h.lease_cases.mp hl with rfl | hl
    · obtain ⟨b, hb, hf⟩ := h.final.binding
      exact ⟨b, hb, hf.id, hf.hold_until⟩
    · obtain ⟨b, hb, hid, hle⟩ := hs.leases l hl
      obtain ⟨b', hb', hid', hle', -⟩ := h.binding_kept hb
      exact ⟨b', hb', hid'.trans hid, le_trans hle hle'⟩
  released := by
    intro b' hb' hr
    rcases h.binding_source hb' with ⟨b, hb, -, -, hst, rfl | ha⟩ | ⟨ha, -⟩
    · exact hs.released _ hb hr
    · rw [hst, ha] at hr
      cases hr
    · rw [ha] at hr
      cases hr

/-! ## A change -/

theorem ChangeEffect.slotsHold {id : String} {now : Int} {minted : List String}
    (h : ChangeEffect id now db db') (hs : SlotsHold now minted db) (hid : id ∈ minted) :
    SlotsHold now minted db' where
  minted := by
    obtain ⟨new, aged, hrows, hnew, haged⟩ := h.operations
    intro o' ho'
    rw [Table.mem_def, hrows] at ho'
    rcases List.mem_append.mp ho' with ho' | ho'
    · exact (hnew o' ho').1 ▸ hid
    · obtain ⟨o, ho, hages⟩ := forall₂_right haged ho'
      have hsame := hages.same
      rw [show o'.invocation_id = o.invocation_id by rw [← hsame]]
      exact hs.minted o ho
  capacity := by
    intro e' he'
    have hle : db'.occupied now e'.toEntitlementKey ≤ db.occupied now e'.toEntitlementKey := by
      refine forall₂_countP h.bindings fun b b' hf hq => ?_
      rw [decide_eq_true_eq] at hq ⊢
      exact ⟨hf.key.symm.trans hq.1, hf.occupied hq.2⟩
    rcases h.limits e' he' with ⟨e, he, hk, hmax | hocc⟩ | ⟨h0, hnew⟩
    · have hcap := hs.capacity e he
      rw [hk] at hcap
      omega
    · rw [hk] at hocc
      omega
    · -- A new entitlement has no bindings yet.
      have hz : db.occupied now e'.toEntitlementKey = 0 := by
        refine Table.count_eq_zero.mpr fun b hb hq => ?_
        obtain ⟨e, he, hk⟩ := hs.granted b hb
        exact hnew e he (hk.trans hq.1)
      omega
  granted := by
    intro b' hb'
    obtain ⟨b, hb, hf⟩ := forall₂_right h.bindings hb'
    obtain ⟨e, he, hk⟩ := hs.granted b hb
    obtain ⟨e', he', hk'⟩ := h.entitlements e he
    exact ⟨e', he', hk'.trans (hk.trans hf.key.symm)⟩
  leases := by
    intro l hl
    obtain ⟨b, hb, hid, hle⟩ := hs.leases l (h.leases l hl)
    obtain ⟨b', hb', hf⟩ := forall₂_left h.bindings hb
    exact ⟨b', hb', hf.id.trans hid, hf.hold ▸ hle⟩
  released := by
    intro b' hb' hr
    obtain ⟨b, hb, hf⟩ := forall₂_right h.bindings hb'
    rw [hf.hold]
    rcases hf.released hr with hr | hle
    · exact hs.released b hb hr
    · exact hle

/-! ## The runs -/

/-- Every write keeps the invariant. -/
theorem slotsHold_step {o : Oracle} {w : DeviceWorld} (hw : SlotsHold w.now w.minted w.db)
    (ho : World.Admits o w) (write : DeviceWrite) :
    SlotsHold o.finish (o.id :: w.minted) (DeviceWrite.apply o write w.db).2 := by
  have hfresh : ∀ op ∈ w.db.device_bound_operations, op.invocation_id ≠ o.id :=
    fun op hop he => ho.fresh (he ▸ hw.minted op hop)
  have hlater : SlotsHold o.finish (o.id :: w.minted) w.db := hw.later ho.le_finish
  refine @apply_rel _ _ (fun d d' => SlotsHold o.finish (o.id :: w.minted) d →
    SlotsHold o.finish (o.id :: w.minted) d') (fun _ h => h) hfresh ?_ ?_ ?_ write hlater
  · intro p db' hid heff hs
    exact heff.slotsHold hs (hid ▸ List.mem_cons_self) ho.finish
  · intro p hs
    rw [recovery_writes_challenges]
    exact ⟨hs.minted, hs.capacity, hs.granted, hs.leases, hs.released⟩
  · intro c ns db' hr hs
    exact (change_effect c hfresh ho.finish hr).slotsHold hs List.mem_cons_self

variable {α : Type} {starts : Prog DeviceWorld DeviceWrite DeviceResult α → Prop}
  {c c' : Config DeviceWorld DeviceWrite DeviceResult α}

theorem slotsHold_reach (h0 : BeforeDevices c.state.db) (h : (deviceSystem starts).Reach c c') :
    SlotsHold c'.state.now c'.state.minted c'.state.db :=
  @System.reach_state _ _ _ _ _ _ _ _ (fun w => SlotsHold w.now w.minted w.db)
    (fun _ write _ ho hs => slotsHold_step hs ho write) h (h0.slotsHold _ _)

/-- In every state of a run, and at every time up to its next write, the
bindings that hold a slot of an entitlement are no more than its device
limit. -/
theorem slots_never_exceed_the_limit (h0 : BeforeDevices c.state.db)
    (h : (deviceSystem starts).Reach c c') (e : Entitlement) (he : e ∈ c'.state.db.entitlements)
    (now : Int) (hnow : c'.state.now ≤ now) :
    (c'.state.db.occupied now e.toEntitlementKey : Int) ≤ e.max_active_devices := by
  have hcap := (slotsHold_reach h0 h).capacity e he
  have hanti := @Db.occupied_anti c'.state.db _ _ e.toEntitlementKey hnow
  omega

/-! ## A run with one slot -/

def exampleWorld : DeviceWorld := ⟨0, [], exampleDb, []⟩

/-- One program commits the candidate of the first exchange. -/
def exampleSchedule : List (World.Action Db DeviceWrite DeviceResult (Option DeviceResult)) :=
  [.start (Prog.request (.commit exampleCandidate)), .write 0 10 "i"]

def exampleEnd : Config DeviceWorld DeviceWrite DeviceResult (Option DeviceResult) :=
  (World.play DeviceWrite.apply ⟨exampleWorld, []⟩ exampleSchedule).get (by decide)

theorem exampleEnd_reached :
    (deviceSystem fun _ => True).Reach ⟨exampleWorld, []⟩ exampleEnd :=
  World.reach_of_play (Option.some_get _).symm ⟨⟨⟩, ⟨⟩⟩

theorem exampleDb_beforeDevices : BeforeDevices exampleWorld.db :=
  ⟨by decide, rfl, rfl, rfl⟩

theorem the_only_slot_is_taken : ∃ e ∈ exampleEnd.state.db.entitlements,
    exampleEnd.state.db.occupied 10 e.toEntitlementKey = 1 ∧
      (exampleEnd.state.db.occupied 10 e.toEntitlementKey : Int) ≤ e.max_active_devices :=
  ⟨exampleEntitlement, by decide, by decide,
    slots_never_exceed_the_limit exampleDb_beforeDevices exampleEnd_reached exampleEntitlement
      (by decide) 10 (by decide)⟩

/-! ## The life of a binding -/

/-- From one database to a later one every binding lives on: its hold never
shrinks, and it is active only when it was active before. -/
def BindingsLive (db db' : Db) : Prop :=
  ∀ b ∈ db.device_bound_bindings, ∃ b' ∈ db'.device_bound_bindings, b'.id = b.id ∧
    b.hold_until ≤ b'.hold_until ∧ (b'.state = .active → b.state = .active)

theorem BindingsLive.refl (db : Db) : BindingsLive db db :=
  fun b hb => ⟨b, hb, rfl, le_rfl, fun h => h⟩

theorem BindingsLive.trans {db₁ db₂ db₃ : Db} (h : BindingsLive db₁ db₂)
    (h' : BindingsLive db₂ db₃) : BindingsLive db₁ db₃ := by
  intro b hb
  obtain ⟨b₂, hb₂, hid₂, hle₂, ha₂⟩ := h b hb
  obtain ⟨b₃, hb₃, hid₃, hle₃, ha₃⟩ := h' b₂ hb₂
  exact ⟨b₃, hb₃, hid₃.trans hid₂, le_trans hle₂ hle₃, fun h => ha₂ (ha₃ h)⟩

/-- The leases that are still accepted at a time stay in their table. -/
def LeasesKept (finish : Int) (db db' : Db) : Prop :=
  ∀ l ∈ db.device_bound_leases, finish < l.accept_until → l ∈ db'.device_bound_leases

theorem live_step {o : Oracle} {w : DeviceWorld} (hw : SlotsHold w.now w.minted w.db)
    (ho : World.Admits o w) (write : DeviceWrite) :
    BindingsLive w.db (DeviceWrite.apply o write w.db).2 ∧
      LeasesKept o.finish w.db (DeviceWrite.apply o write w.db).2 := by
  have hfresh : ∀ op ∈ w.db.device_bound_operations, op.invocation_id ≠ o.id :=
    fun op hop he => ho.fresh (he ▸ hw.minted op hop)
  refine @apply_rel _ _ (fun d d' => BindingsLive d d' ∧ LeasesKept o.finish d d')
    (fun d => ⟨.refl d, fun _ hl _ => hl⟩) hfresh ?_ ?_ ?_ write
  · intro p db' _ heff
    refine ⟨fun b hb => ?_, fun l hl _ => heff.lease_cases.mpr (.inr hl)⟩
    obtain ⟨b', hb', hid, hle, hst⟩ := heff.binding_kept hb
    exact ⟨b', hb', hid, hle, fun ha => hst ▸ ha⟩
  · intro p
    rw [recovery_writes_challenges]
    exact ⟨fun b hb => ⟨b, hb, rfl, le_rfl, fun h => h⟩, fun _ hl _ => hl⟩
  · intro c ns db' hr
    have heff := change_effect c hfresh ho.finish hr
    refine ⟨fun b hb => ?_, heff.leases_kept⟩
    obtain ⟨b', hb', hf⟩ := forall₂_left heff.bindings hb
    exact ⟨b', hb', hf.id, hf.hold ▸ le_rfl, hf.active⟩

/-- Across a run every binding lives on, and every lease stays until its
acceptance ends. -/
theorem live_reach (h0 : SlotsHold c.state.now c.state.minted c.state.db)
    (h : (deviceSystem starts).Reach c c') : BindingsLive c.state.db c'.state.db ∧
      LeasesKept c'.state.now c.state.db c'.state.db := by
  have hall := @System.reach_state _ _ _ _ _ _ _ _
    (fun w => SlotsHold w.now w.minted w.db ∧ BindingsLive c.state.db w.db ∧
      LeasesKept w.now c.state.db w.db)
    (fun o write w ho ⟨hs, hb, hl⟩ => by
      obtain ⟨hb', hl'⟩ := live_step hs ho write
      refine ⟨slotsHold_step hs ho write, hb.trans hb', fun l hmem hlt => ?_⟩
      have hle : w.now ≤ o.finish := ho.le_finish
      exact hl' l (hl l hmem (lt_of_le_of_lt hle hlt)) hlt)
    h ⟨h0, .refl _, fun _ hl _ => hl⟩
  exact hall.2

/-- A lease of any state of a run has a binding whose hold reaches the end of
its acceptance. In every later state that binding is there, its hold has not
shrunk and it has not come back to life. Until the end of its acceptance the
lease is kept and the binding holds its slot. -/
theorem an_accepted_lease_holds_its_slot {c'' : Config DeviceWorld DeviceWrite DeviceResult α}
    (h0 : BeforeDevices c.state.db) (h : (deviceSystem starts).Reach c c') (l : Lease)
    (hl : l ∈ c'.state.db.device_bound_leases) (h' : (deviceSystem starts).Reach c' c'') :
    ∃ b ∈ c'.state.db.device_bound_bindings, b.id = l.binding_id ∧ l.accept_until ≤ b.hold_until ∧
      ∃ b' ∈ c''.state.db.device_bound_bindings, b'.id = b.id ∧ b.hold_until ≤ b'.hold_until ∧
        (b'.state = .active → b.state = .active) ∧
        (∀ now, c''.state.now ≤ now → now < l.accept_until → b'.boundOccupied now) ∧
        (c''.state.now < l.accept_until → l ∈ c''.state.db.device_bound_leases) := by
  have hs := slotsHold_reach h0 h
  have hs' := slotsHold_reach h0 (h.trans h')
  obtain ⟨b, hb, hid, hle⟩ := hs.leases l hl
  obtain ⟨hlive, hkept⟩ := live_reach hs h'
  obtain ⟨b', hb', hid', hle', hact⟩ := hlive b hb
  refine ⟨b, hb, hid, hle, b', hb', hid', hle', hact, fun now hnow hlt => ?_, hkept l hl⟩
  cases hst : b'.state with
  | active => exact .inl hst
  | retiring => exact .inr ⟨hst, by omega⟩
  | released =>
    have hrel := hs'.released b' hb' hst
    omega

/-- The lease of the first exchange is accepted until 86530, and its binding
holds the slot until then. -/
theorem the_first_lease_holds_the_slot : ∃ b ∈ exampleEnd.state.db.device_bound_bindings,
    b.id = "b" ∧ ∀ now, 10 ≤ now → now < 86530 → b.boundOccupied now := by
  obtain ⟨b, hb, hid, -, b', hb', hid', -, -, hslot, -⟩ :=
    an_accepted_lease_holds_its_slot exampleDb_beforeDevices exampleEnd_reached
      exampleCandidate.lease (by decide) .refl
  exact ⟨b', hb', hid'.trans hid, hslot⟩

end Licensecc
