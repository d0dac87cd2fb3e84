-- The laws of the lease commit. A batch that succeeds has passed its guard and
-- written each row of the issue once, and a batch that fails has written none.
import Licensecc.Device.Store

open Licensecc.Sql

namespace Licensecc

variable {p : Candidate} {db db' : Db} {clock : Nat → Int}

/-! ## The prepared operation -/

theorem operation_prepared (p : Candidate) (now : Int) : PreparedFor p (p.operation now) :=
  ⟨rfl, rfl, rfl, rfl, rfl, rfl, rfl, rfl, rfl⟩

theorem joined_some {f : Operation → Int → Db → Except Abort (Nat × Db)} {o : Operation}
    {now : Int} {changes : Nat}
    (h : db.device_bound_operations.find? (PreparedFor p ·) = some o) :
    joined p f now changes db = f o now db := by
  rw [joined, h]

theorem joined_ok {f : Operation → Int → Db → Except Abort (Nat × Db)} {o : Operation} {now : Int}
    {changes : Nat} {r : Nat × Db} (h : joined p f now changes db = .ok r)
    (ho : db.device_bound_operations.find? (PreparedFor p ·) = some o) : f o now db = .ok r := by
  rwa [joined_some ho] at h

/-- Without an operation of the invocation, a joined statement does
nothing. -/
theorem joined_none {f : Operation → Int → Db → Except Abort (Nat × Db)} {now : Int} {changes : Nat}
    (h : ∀ o ∈ db.device_bound_operations, o.invocation_id ≠ p.invocationId) :
    joined p f now changes db = .ok (0, db) := by
  have hn : db.device_bound_operations.find? (PreparedFor p ·) = none :=
    Table.find?_none.mpr fun o ho hp => h o ho hp.invocation_id
  rw [joined, hn]

theorem find_prepared {t t' : Table Operation} {now : Int}
    (h : t.insert (p.operation now) = .ok t') :
    t'.find? (PreparedFor p ·) = some (p.operation now) := by
  rw [Table.find?, Table.rows_of_insert h]
  simp [operation_prepared]

theorem assertThat_ok {invocationId : String} {holds : Db → Int → Prop}
    [∀ db now, Decidable (holds db now)] {now : Int} {changes n : Nat}
    (h : assertThat invocationId holds now changes db = .ok (n, db')) :
    holds db now ∧ ∃ t, db.device_bound_commit_checks.insert ⟨invocationId, 1⟩ = .ok t ∧
      db' = { db with device_bound_commit_checks := t } := by
  obtain ⟨t, ht, hp⟩ := store_eq_ok.mp h
  obtain ⟨-, rfl⟩ := Prod.mk.inj hp
  have hok := (Table.insert_eq_ok.mp ht).2.1
  by_cases hh : holds db now
  · rw [if_pos hh] at ht
    exact ⟨hh, t, ht, rfl⟩
  · simp [Schema.check, hh] at hok

/-- The rest of the batch fails when the guard has inserted no operation: the
check row finds none. -/
theorem unguarded_aborts {ns : List Nat} {changes : Nat}
    (hfresh : ∀ o ∈ db.device_bound_operations, o.invocation_id ≠ p.invocationId) :
    runBatch ((boundLeaseCommit p).drop 1) clock changes db ≠ .ok (ns, db') := by
  intro h
  have hidle : ∀ stmt ∈ ((boundLeaseCommit p).drop 1).take 10, ∀ now n,
      stmt now n db = .ok (0, db) := by
    intro stmt hmem now n
    simp only [boundLeaseCommit, List.drop_succ_cons, List.drop_zero, List.take_succ_cons,
      List.take_zero, List.mem_cons, List.not_mem_nil, or_false] at hmem
    rcases hmem with rfl | rfl | rfl | rfl | rfl | rfl | rfl | rfl | rfl | rfl
    case inr.inr.inr.inr.inr.inr.inr.inr.inr =>
      have hu : db.device_bound_operations.update now (Finalizes db p now ·) operationSet =
          .ok (0, db.device_bound_operations) :=
        Table.update_none fun o ho hf => hfresh o ho hf.invocation_id
      rw [finalize, hu]
      rfl
    all_goals exact joined_none hfresh
  obtain ⟨clock', changes', ms, h⟩ := @runBatch_skip _ _ [assertComplete p, _] _ _ _ _ _ hidle h
  obtain ⟨n, db₁, -, h1, -⟩ := runBatch_cons.mp h
  obtain ⟨⟨o, ho, hc⟩, -⟩ := assertThat_ok h1
  exact hfresh o ho hc.invocation_id

/-! ## What a commit does -/

/-- A statement that inserts the row of an exchange when its id is free. -/
def Created {ρ : Type} [Schema ρ] (exchange free : Prop) (row : ρ) (t t' : Table ρ) : Prop :=
  (exchange ∧ free ∧ t.insert row = .ok t') ∨ (¬ (exchange ∧ free) ∧ t' = t)

/-- What a batch that succeeds has done, table by table. Each table is named
with the statement that writes it and with the time of that statement. -/
structure CommitEffect (p : Candidate) (clock : Nat → Int) (db db' : Db) : Prop where
  guard : ∃ e ∈ db.entitlements, LeaseGuard db p (clock 0) e
  customers : db'.customers = db.customers
  operation_fresh : ∀ o ∈ db.device_bound_operations, ¬ (p.operation (clock 0)).sameSlot o
  operations : db'.device_bound_operations.rows =
    operationSet (p.operation (clock 0)) :: db.device_bound_operations.rows
  entitlements : ∃ n, db.entitlements.update (clock 1) (stampSelects p)
      (fun e => e.bumped (stampSet p (p.operation (clock 0)) e)) = .ok (n, db'.entitlements) ∧
    db'.generation = db.generation + n + db.entitlements.count fun e =>
      stampSelects p e ∧ (stampSet p (p.operation (clock 0)) e).authorityOf ≠ e.authorityOf
  devices : ∃ t n, Created (p.purpose = .exchange)
      (¬ ∃ d ∈ db.device_bound_devices, d.id = p.deviceId) (p.device (p.operation (clock 0)))
      db.device_bound_devices t ∧
    t.update (clock 7) (ActiveDevice p ·) (deviceSet (p.operation (clock 0))) =
      .ok (n, db'.device_bound_devices)
  bindings : ∃ t n, Created (p.purpose = .exchange)
      (¬ ∃ b ∈ db.device_bound_bindings, b.id = p.bindingId) (p.binding (p.operation (clock 0)))
      db.device_bound_bindings t ∧
    t.update (clock 6) (ActiveBinding p ·) (bindingSet p (p.operation (clock 0))) =
      .ok (n, db'.device_bound_bindings)
  challenges : ∃ n, db.device_bound_challenges.update (clock 4) (OpenChallenge p (clock 4) ·)
    (challengeSet p.invocationId) = .ok (n, db'.device_bound_challenges)
  authorizations : ∃ n, db.device_bound_authorizations.update (clock 5)
    (fun a => p.purpose = .exchange ∧ Approved p (clock 5) a)
    (approvalSet p (p.operation (clock 0))) = .ok (n, db'.device_bound_authorizations)
  leases : db.device_bound_leases.insert p.lease = .ok db'.device_bound_leases
  events : db.device_bound_events.insert (p.event (p.operation (clock 0))) =
    .ok db'.device_bound_events
  commit_checks : db'.device_bound_commit_checks = db.device_bound_commit_checks
  final : Finalizes db' p (clock 10) (p.operation (clock 0))

theorem createDevice_ok {now : Int} {changes n : Nat} {o : Operation}
    (ho : db.device_bound_operations.find? (PreparedFor p ·) = some o)
    (h : createDevice p now changes db = .ok (n, db')) :
    ∃ t, Created (p.purpose = .exchange) (¬ ∃ d ∈ db.device_bound_devices, d.id = p.deviceId)
      (p.device o) db.device_bound_devices t ∧ db' = { db with device_bound_devices := t } := by
  rw [createDevice, joined_some ho] at h
  split at h
  · rename_i hc
    obtain ⟨-, h1⟩ := inserted_eq_ok.mp h
    obtain ⟨-, t, ht, rfl⟩ := Db.insertDevice_eq_ok.mp h1
    exact ⟨t, .inl ⟨hc.1, hc.2, ht⟩, rfl⟩
  · rename_i hc
    obtain ⟨-, rfl⟩ := Prod.mk.inj (Except.ok.inj h)
    exact ⟨_, .inr ⟨hc, rfl⟩, rfl⟩

theorem createBinding_ok {now : Int} {changes n : Nat} {o : Operation}
    (ho : db.device_bound_operations.find? (PreparedFor p ·) = some o)
    (h : createBinding p now changes db = .ok (n, db')) :
    ∃ t, Created (p.purpose = .exchange) (¬ ∃ b ∈ db.device_bound_bindings, b.id = p.bindingId)
      (p.binding o) db.device_bound_bindings t ∧ db' = { db with device_bound_bindings := t } := by
  rw [createBinding, joined_some ho] at h
  split at h
  · rename_i hc
    obtain ⟨-, h1⟩ := inserted_eq_ok.mp h
    obtain ⟨-, t, ht, rfl⟩ := Db.insertBinding_eq_ok.mp h1
    exact ⟨t, .inl ⟨hc.1, hc.2, ht⟩, rfl⟩
  · rename_i hc
    obtain ⟨-, rfl⟩ := Prod.mk.inj (Except.ok.inj h)
    exact ⟨_, .inr ⟨hc, rfl⟩, rfl⟩

/-- The check row sits in the table only between its insert and its
delete. -/
theorem remove_inserted {invocationId : String} {t t' t'' : Table CommitCheck} {n : Nat}
    (hi : t.insert ⟨invocationId, 1⟩ = .ok t')
    (hd : t'.delete (·.invocation_id = invocationId) = .ok (n, t'')) : t'' = t := by
  obtain ⟨-, -, hclash, hrows⟩ := Table.insert_eq_ok.mp hi
  have hkeep : t.rows.filter (fun r => ¬ r.invocation_id = invocationId) = t.rows :=
    List.filter_eq_self.mpr fun r hr => decide_eq_true fun he => hclash r hr he.symm
  refine Table.ext ?_
  rw [Table.rows_of_delete hd, hrows, List.filter_cons_of_neg (by simp), hkeep]

/-- The statement that completes the operation has selected the operation of
the guard, and no other. -/
theorem finalize_ok {now : Int} {t t₁ t' : Table Operation} {o : Operation} {n : Nat}
    (hi : t.insert (p.operation now) = .ok t₁) {sel : Operation → Prop} [DecidablePred sel]
    {later : Int} (hsel : ∀ o, sel o → o.invocation_id = p.invocationId)
    (hu : t₁.update later sel operationSet = .ok (n, t')) (ho : o ∈ t') (hc : CompleteFor p o) :
    sel (p.operation now) ∧ t'.rows = operationSet (p.operation now) :: t.rows := by
  obtain ⟨-, -, hclash, hrows⟩ := Table.insert_eq_ok.mp hi
  have hother : ∀ r ∈ t.rows, r.invocation_id ≠ p.invocationId :=
    fun r hr he => hclash r hr (.inr he.symm)
  have hmap : t.rows.map (fun r => if sel r then operationSet r else r) = t.rows.map id :=
    List.map_congr_left fun r hr => if_neg fun hs => hother r hr (hsel r hs)
  have hnew : t'.rows = (if sel (p.operation now) then operationSet (p.operation now)
      else p.operation now) :: t.rows := by
    rw [Table.rows_of_update hu, hrows, List.map_cons, hmap, List.map_id]
  have hs : sel (p.operation now) := by
    by_contra hs
    rw [Table.mem_def, hnew, if_neg hs, List.mem_cons] at ho
    rcases ho with rfl | ho
    · cases hc.status
    · exact hother o ho hc.invocation_id
  exact ⟨hs, by rw [hnew, if_pos hs]⟩

/-- The statements that need only the prepared operation. -/
theorem joined_writes {rest : List (Stmt Db)} {o : Operation} {changes : Nat} {ns : List Nat}
    (ho : db.device_bound_operations.find? (PreparedFor p ·) = some o)
    (h : runBatch (consumeChallenge p :: consumeApproval p :: updateBinding p :: updateDevice p ::
      issueLease p :: audit p :: rest) clock changes db = .ok (ns, db')) :
    ∃ challenges authorizations bindings devices leases events,
      (∃ n, db.device_bound_challenges.update (clock 0) (OpenChallenge p (clock 0) ·)
        (challengeSet p.invocationId) = .ok (n, challenges)) ∧
      (∃ n, db.device_bound_authorizations.update (clock 1)
        (fun a => p.purpose = .exchange ∧ Approved p (clock 1) a) (approvalSet p o) =
          .ok (n, authorizations)) ∧
      (∃ n, db.device_bound_bindings.update (clock 2) (ActiveBinding p ·) (bindingSet p o) =
        .ok (n, bindings)) ∧
      (∃ n, db.device_bound_devices.update (clock 3) (ActiveDevice p ·) (deviceSet o) =
        .ok (n, devices)) ∧
      db.device_bound_leases.insert p.lease = .ok leases ∧
      db.device_bound_events.insert (p.event o) = .ok events ∧
      ∃ changes' ms, runBatch rest (fun i => clock (i + 6)) changes' { db with
        device_bound_challenges := challenges
        device_bound_authorizations := authorizations
        device_bound_bindings := bindings
        device_bound_devices := devices
        device_bound_leases := leases
        device_bound_events := events } = .ok (ms, db') := by
  obtain ⟨_, _, _, h5, h, -⟩ := runBatch_cons.mp h
  obtain ⟨challenges, hchallenges, rfl⟩ := stored_eq_ok.mp (joined_ok h5 ho)
  obtain ⟨_, _, _, h6, h, -⟩ := runBatch_cons.mp h
  obtain ⟨authorizations, hauthorizations, rfl⟩ := stored_eq_ok.mp (joined_ok h6 ho)
  obtain ⟨_, _, _, h7, h, -⟩ := runBatch_cons.mp h
  obtain ⟨bindings, hbindings, rfl⟩ := stored_eq_ok.mp (joined_ok h7 ho)
  obtain ⟨_, _, _, h8, h, -⟩ := runBatch_cons.mp h
  obtain ⟨devices, hdevices, rfl⟩ := stored_eq_ok.mp (joined_ok h8 ho)
  obtain ⟨_, _, _, h9, h, -⟩ := runBatch_cons.mp h
  obtain ⟨-, leases, hleases, rfl⟩ := Db.insertLease_eq_ok.mp (inserted_eq_ok.mp (joined_ok h9 ho)).2
  obtain ⟨_, _, _, h10, h, -⟩ := runBatch_cons.mp h
  obtain ⟨-, events, hevents, rfl⟩ := Db.insertEvent_eq_ok.mp (inserted_eq_ok.mp (joined_ok h10 ho)).2
  exact ⟨challenges, authorizations, bindings, devices, leases, events, ⟨_, hchallenges⟩,
    ⟨_, hauthorizations⟩, ⟨_, hbindings⟩, ⟨_, hdevices⟩, hleases, hevents, _, _, h⟩

/-- The last three statements: the operation is complete, and the check row is
gone again. -/
theorem checked_writes {changes : Nat} {ns : List Nat} {t : Table Operation} {now : Int}
    (hi : t.insert (p.operation now) = .ok db.device_bound_operations)
    (h : runBatch [finalize p, assertComplete p, removeCheck p.invocationId] clock changes db =
      .ok (ns, db')) :
    Finalizes db' p (clock 0) (p.operation now) ∧ ∃ operations,
      operations.rows = operationSet (p.operation now) :: t.rows ∧
      db' = { db with device_bound_operations := operations } := by
  obtain ⟨_, _, _, h11, h, -⟩ := runBatch_cons.mp h
  obtain ⟨operations, hoperations, rfl⟩ := stored_eq_ok.mp h11
  obtain ⟨_, _, _, h12, h, -⟩ := runBatch_cons.mp h
  obtain ⟨⟨o, ho, hc⟩, checks, hchecks, rfl⟩ := assertThat_ok h12
  obtain ⟨_, _, _, h13, h, -⟩ := runBatch_cons.mp h
  obtain ⟨checks', hchecks', rfl⟩ := stored_eq_ok.mp h13
  obtain ⟨-, rfl⟩ := runBatch_nil.mp h
  obtain ⟨hfin, hrows⟩ := finalize_ok hi (fun _ hf => hf.invocation_id) hoperations ho hc
  obtain rfl := remove_inserted hchecks hchecks'
  exact ⟨⟨hfin.invocation_id, hfin.prepared, hfin.ahead, hfin.owner, hfin.entitlement, hfin.device,
    hfin.binding, hfin.event, hfin.challenge, hfin.approval⟩, operations, hrows, rfl⟩

/-- A batch that succeeds has done the whole issue. -/
theorem boundLeaseCommit_ok {ns : List Nat}
    (hfresh : ∀ o ∈ db.device_bound_operations, o.invocation_id ≠ p.invocationId)
    (h : runBatch (boundLeaseCommit p) clock 0 db = .ok (ns, db')) :
    CommitEffect p clock db db' := by
  obtain ⟨n, db₁, ms, h1, h, -⟩ := runBatch_cons.mp h
  unfold leaseGuard at h1
  split at h1
  swap
  · obtain ⟨-, rfl⟩ := Prod.mk.inj (Except.ok.inj h1)
    exact absurd h (unguarded_aborts hfresh)
  rename_i hguard
  obtain ⟨-, ops, hops, rfl⟩ := Db.insertOperation_eq_ok.mp (inserted_eq_ok.mp h1).2
  have ho := find_prepared hops
  obtain ⟨_, _, _, h2, h, -⟩ := runBatch_cons.mp h
  obtain ⟨-, entitlements, hentitlements, rfl⟩ :=
    Db.updateEntitlements_eq_ok.mp (joined_ok h2 ho)
  obtain ⟨_, _, _, h3, h, -⟩ := runBatch_cons.mp h
  obtain ⟨devices, hdevices, rfl⟩ := createDevice_ok ho h3
  obtain ⟨_, _, _, h4, h, -⟩ := runBatch_cons.mp h
  obtain ⟨bindings, hbindings, rfl⟩ := createBinding_ok ho h4
  obtain ⟨_, _, _, _, _, _, hchallenges, hauthorizations, ⟨_, hbindings'⟩, ⟨_, hdevices'⟩, hleases,
    hevents, _, _, h⟩ := joined_writes ho h
  obtain ⟨hfin, operations, hrows, rfl⟩ := checked_writes hops h
  exact {
    guard := hguard
    customers := rfl
    operation_fresh := (Table.insert_eq_ok.mp hops).2.2.1
    operations := hrows
    entitlements := ⟨_, hentitlements, rfl⟩
    devices := ⟨_, _, hdevices, hdevices'⟩
    bindings := ⟨_, _, hbindings, hbindings'⟩
    challenges := hchallenges
    authorizations := hauthorizations
    leases := hleases
    events := hevents
    commit_checks := rfl
    final := hfin }

/-! ## The rows after a commit -/

/-- The binding of a commit was active before, or the commit has created
it. -/
theorem CommitEffect.binding_cases (h : CommitEffect p clock db db') :
    (∃ b₀ ∈ db.device_bound_bindings, ActiveBinding p b₀ ∧ ∀ b, b ∈ db'.device_bound_bindings ↔
      (b ∈ db.device_bound_bindings ∧ b ≠ b₀) ∨
        b = bindingSet p (p.operation (clock 0)) b₀) ∨
    ((∃ e ∈ db.entitlements, Owned p p.entitlementRevision true (clock 0) e ∧
        FreshBinding db p (clock 0) e) ∧
      ∀ b, b ∈ db'.device_bound_bindings ↔ b ∈ db.device_bound_bindings ∨
        b = bindingSet p (p.operation (clock 0)) (p.binding (p.operation (clock 0)))) := by
  obtain ⟨e, he, hg⟩ := h.guard
  obtain ⟨t, n, ht, hu⟩ := h.bindings
  have hbind : (∃ b ∈ db.device_bound_bindings, ActiveBinding p b) ∨
      (p.purpose = .exchange ∧ FreshBinding db p (clock 0) e) := by
    rcases hg.subject with ⟨-, -, -, hb⟩ | ⟨hx, -, -, hb | hb⟩
    · exact .inl hb
    · exact .inl hb
    · exact .inr ⟨hx, hb⟩
  rcases hbind with ⟨b₀, hb₀, ha⟩ | ⟨hx, hf⟩
  · left
    have hexists : ∃ b ∈ db.device_bound_bindings, b.id = p.bindingId := ⟨b₀, hb₀, ha.id⟩
    rcases ht with ⟨-, hfree, -⟩ | ⟨-, rfl⟩
    · exact absurd hexists hfree
    exact ⟨b₀, hb₀, ha, fun b => Table.mem_of_update_one hu hb₀ ha
      fun r hr hr' => Table.unique hr hb₀ (.inl (hr'.id.trans ha.id.symm))⟩
  · right
    refine ⟨⟨e, he, hg.owned, hf⟩, fun b => ?_⟩
    rcases ht with ⟨-, -, hi⟩ | ⟨hn, -⟩
    swap
    · exact absurd ⟨hx, hf.id⟩ hn
    have hnew : ActiveBinding p (p.binding (p.operation (clock 0))) :=
      ⟨rfl, rfl, rfl, rfl, hf.generation.symm, hf.revision.symm⟩
    have hold : ∀ r ∈ db.device_bound_bindings, ¬ ActiveBinding p r :=
      fun r hr hr' => hf.id ⟨r, hr, hr'.id⟩
    have hmem := @Table.mem_of_insert _ _ _ (p.binding (p.operation (clock 0))) _ _ hi
    rw [Table.mem_of_update_one hu (hmem.mpr (.inl rfl)) hnew fun r hr hr' =>
      ((Table.mem_of_insert hi).mp hr).resolve_right fun hr => hold r hr hr', Table.mem_of_insert hi]
    constructor
    · rintro (⟨hb, hne⟩ | rfl)
      · exact .inl (hb.resolve_left hne)
      · exact .inr rfl
    · rintro (hb | rfl)
      · exact .inl ⟨.inr hb, fun he => hold b hb (he ▸ hnew)⟩
      · exact .inr rfl

/-- The challenge of a commit was open before, and the commit consumes it and
no other. -/
theorem CommitEffect.challenge_cases (h : CommitEffect p clock db db') :
    ∃ c₀ ∈ db.device_bound_challenges, OpenChallenge p (clock 0) c₀ ∧
      ∀ c, c ∈ db'.device_bound_challenges ↔
        (c ∈ db.device_bound_challenges ∧ c ≠ c₀) ∨ c = challengeSet p.invocationId c₀ := by
  obtain ⟨e, -, hg⟩ := h.guard
  obtain ⟨c₀, hc₀, ho⟩ := hg.challenge
  obtain ⟨n, hu⟩ := h.challenges
  have hone : ∀ r ∈ db.device_bound_challenges, r.id = p.challengeId → r = c₀ :=
    fun r hr hid => Table.unique hr hc₀ (.inl (hid.trans ho.id.symm))
  -- The challenge that the last check finds is consumed, so the update has selected the open one.
  have hsel : OpenChallenge p (clock 4) c₀ := by
    by_contra hns
    obtain ⟨c, hc, hf⟩ := h.final.challenge
    obtain ⟨r, hr, rfl⟩ := (Table.mem_of_update hu).mp hc
    by_cases hr' : OpenChallenge p (clock 4) r
    · exact hns (hone r hr hr'.id ▸ hr')
    · rw [if_neg hr'] at hf
      have hcon := hf.consumed
      rw [hone r hr hf.id, ho.unconsumed] at hcon
      cases hcon
  exact ⟨c₀, hc₀, ho, fun c => Table.mem_of_update_one hu hc₀ hsel fun r hr hr' => hone r hr hr'.id⟩

/-- The approval of an exchange was open before, and the commit consumes it
and no other. -/
theorem CommitEffect.approval_cases (h : CommitEffect p clock db db') (hx : p.purpose = .exchange) :
    ∃ a₀ ∈ db.device_bound_authorizations, Approved p (clock 0) a₀ ∧
      ∀ a, a ∈ db'.device_bound_authorizations ↔
        (a ∈ db.device_bound_authorizations ∧ a ≠ a₀) ∨
          a = approvalSet p (p.operation (clock 0)) a₀ := by
  obtain ⟨e, -, hg⟩ := h.guard
  obtain ⟨a₀, ha₀, ho⟩ : ∃ a ∈ db.device_bound_authorizations, Approved p (clock 0) a := by
    rcases hg.subject with ⟨hr, -⟩ | ⟨-, ha, -⟩
    · rw [hx] at hr; cases hr
    · exact ha
  obtain ⟨n, hu⟩ := h.authorizations
  have hone : ∀ r ∈ db.device_bound_authorizations, r.handle_hash = p.subjectId → r = a₀ :=
    fun r hr hid => Table.unique hr ha₀ (hid.trans ho.handle_hash.symm)
  have hsel : p.purpose = .exchange ∧ Approved p (clock 5) a₀ := by
    by_contra hns
    obtain ⟨a, ha, hf⟩ := h.final.approval.resolve_left (by rw [hx]; decide)
    obtain ⟨r, hr, rfl⟩ := (Table.mem_of_update hu).mp ha
    by_cases hr' : p.purpose = .exchange ∧ Approved p (clock 5) r
    · exact hns (hone r hr hr'.2.handle_hash ▸ hr')
    · rw [if_neg hr'] at hf
      have hst := hf.status
      rw [hone r hr hf.handle_hash, ho.status] at hst
      cases hst
  exact ⟨a₀, ha₀, ho, fun a => Table.mem_of_update_one hu ha₀ hsel
    fun r hr hr' => hone r hr hr'.2.handle_hash⟩

/-- A renewal touches no attempt. -/
theorem CommitEffect.approval_renew (h : CommitEffect p clock db db') (hx : p.purpose ≠ .exchange) :
    db'.device_bound_authorizations = db.device_bound_authorizations := by
  obtain ⟨n, hu⟩ := h.authorizations
  rw [Table.update_none fun a _ ha => hx ha.1] at hu
  exact (Prod.mk.inj (Except.ok.inj hu)).2.symm

/-! ## The whole issue or nothing -/

/-- All the rows of one issue. -/
structure CausalChain (p : Candidate) (db db' : Db) : Prop where
  operation : ∃ o ∈ db'.device_bound_operations, CompleteFor p o ∧ o.customer_id = p.customerId
  lease : db'.device_bound_leases.rows = p.lease :: db.device_bound_leases.rows
  event : ∃ o, db'.device_bound_events.rows = p.event o :: db.device_bound_events.rows
  challenge : ∃ c ∈ db.device_bound_challenges, c.id = p.challengeId ∧
    c.consumed_invocation_id = none ∧ challengeSet p.invocationId c ∈ db'.device_bound_challenges
  approval : p.purpose = .exchange → ∃ a ∈ db.device_bound_authorizations,
    a.handle_hash = p.subjectId ∧ a.status = .approved ∧
    ∃ o, approvalSet p o a ∈ db'.device_bound_authorizations
  binding : ∃ b' ∈ db'.device_bound_bindings, b'.id = p.bindingId ∧ p.acceptUntil ≤ b'.hold_until ∧
    ((∃ b ∈ db.device_bound_bindings, b.id = p.bindingId ∧ b'.revision = b.revision + 1) ∨
      ((∀ b ∈ db.device_bound_bindings, b.id ≠ p.bindingId) ∧ b'.revision = 1))
  trial : ∀ e ∈ db'.entitlements, e.toEntitlementKey = p.key → e.is_trial ≠ 0 →
    e.trial_started_at ≠ none ∧ e.trial_device_key_id ≠ none

theorem CommitEffect.causalChain (h : CommitEffect p clock db db') : CausalChain p db db' where
  operation := by
    refine ⟨operationSet (p.operation (clock 0)), ?_, ⟨rfl, rfl, rfl, rfl, rfl, rfl, rfl, rfl, rfl⟩,
      rfl⟩
    rw [Table.mem_def, h.operations]
    exact List.mem_cons_self
  lease := (Table.insert_eq_ok.mp h.leases).2.2.2
  event := ⟨_, (Table.insert_eq_ok.mp h.events).2.2.2⟩
  challenge := by
    obtain ⟨c, hc, ho, hmem⟩ := h.challenge_cases
    exact ⟨c, hc, ho.id, ho.unconsumed, (hmem _).mpr (.inr rfl)⟩
  approval := fun hx => by
    obtain ⟨a, ha, ho, hmem⟩ := h.approval_cases hx
    exact ⟨a, ha, ho.handle_hash, ho.status, _, (hmem _).mpr (.inr rfl)⟩
  binding := by
    rcases h.binding_cases with ⟨b₀, hb₀, ha, hmem⟩ | ⟨⟨e, -, -, hf⟩, hmem⟩
    · exact ⟨_, (hmem _).mpr (.inr rfl), ha.id, le_max_right _ _, .inl ⟨b₀, hb₀, ha.id, rfl⟩⟩
    · exact ⟨_, (hmem _).mpr (.inr rfl), rfl, le_max_right _ _,
        .inr ⟨fun b hb hid => hf.id ⟨b, hb, hid⟩, rfl⟩⟩
  trial := by
    intro e he hk ht
    obtain ⟨e', he', hf, -⟩ := h.final.entitlement
    obtain rfl : e = e' := Table.unique he he' (hk.trans hf.owned.key.symm)
    rcases hf.owned.trial with h0 | ⟨-, -, -, hh, -⟩
    · exact absurd h0 ht
    rcases hh with ⟨hno, -⟩ | ⟨⟨s, hs, -⟩, k, hk, -⟩
    · cases hno
    · rw [Option.mem_def] at hs hk
      simp [hs, hk]

theorem commitResult_ok (h : CommitEffect p clock db db') :
    commitResult p db' = some (.lease p.responseJson) := by
  rw [commitResult, Table.find?, h.operations]
  simp [operationSet, Candidate.operation]

/-- A commit of a fresh invocation fails and changes nothing, or has its whole
effect and returns its response. -/
theorem commit_cases (p : Candidate) (clock : Nat → Int) (db : Db)
    (hfresh : ∀ o ∈ db.device_bound_operations, o.invocation_id ≠ p.invocationId) :
    (∃ e, commitBoundDeviceLease p clock db = (.error e, db)) ∨
    ∃ db', commitBoundDeviceLease p clock db = (.ok p.responseJson, db') ∧
      CommitEffect p clock db db' := by
  unfold commitBoundDeviceLease
  split
  · exact .inl ⟨_, rfl⟩
  split
  · exact .inl ⟨_, rfl⟩
  rcases transact_cases (boundLeaseCommit p) clock db with ⟨e, -, ht⟩ | ⟨ns, db', hr, ht⟩
  · rw [ht]
    exact .inl ⟨_, rfl⟩
  · have heff := boundLeaseCommit_ok hfresh hr
    rw [ht]
    exact .inr ⟨db', by simp [commitResult_ok heff], heff⟩

/-- A commit of a fresh invocation leaves every table as it was and fails, or
writes the whole issue and returns its response. -/
theorem a_lease_commit_is_whole (p : Candidate) (clock : Nat → Int) (db : Db)
    (hfresh : ∀ o ∈ db.device_bound_operations, o.invocation_id ≠ p.invocationId) :
    (∃ e, commitBoundDeviceLease p clock db = (.error e, db)) ∨
    ∃ db', commitBoundDeviceLease p clock db = (.ok p.responseJson, db') ∧ CausalChain p db db' := by
  rcases commit_cases p clock db hfresh with h | ⟨db', h, heff⟩
  · exact .inl h
  · exact .inr ⟨db', h, heff.causalChain⟩

/-! ## A first exchange -/

def exampleChallenge : Challenge where
  id := "ch"
  purpose := .exchange
  subject_id := "h"
  key_id := "k"
  operation_id := "op"
  nonce_hash := "n"
  created_at := 0
  expires_at := 300

def exampleAttempt : Authorization where
  handle_hash := "h"
  client_id := "app"
  project := "p"
  key_id := "k"
  public_key_spki := "s"
  device_label := "laptop"
  redirect_uri := "r"
  client_state := "st"
  pkce_challenge := "x"
  status := .approved
  revision := 1
  customer_id := some "alice"
  feature := some "f"
  license_fingerprint := some "l"
  code_hash := some "c"
  code_expires_at := some 500
  created_at := 0
  expires_at := 600
  requested_feature := "f"

/-- A customer with one device slot and an approved attempt. -/
def exampleDb : Db where
  customers := ⟨[⟨"alice", .active, 0⟩], by decide, by decide⟩
  entitlements := ⟨[exampleEntitlement], by decide, by decide⟩
  device_bound_challenges := ⟨[exampleChallenge], by decide, by decide⟩
  device_bound_authorizations := ⟨[exampleAttempt], by decide, by decide⟩

def exampleCandidate : Candidate where
  purpose := .exchange
  keyId := "k"
  operationId := "op"
  invocationId := "i"
  requestDigest := "dg"
  customerId := "alice"
  customerRevision := 0
  project := "p"
  feature := "f"
  fingerprint := "l"
  entitlementRevision := 0
  trialStamp := 0
  deviceId := "d"
  deviceRevision := 0
  publicKeySpki := "s"
  deviceLabel := "laptop"
  bindingId := "b"
  bindingRevision := 0
  generation := 1
  challengeId := "ch"
  challengeExpiresAt := 300
  nonceHash := "n"
  subjectId := "h"
  attemptRevision := some 1
  codeHash := some "c"
  pkceChallenge := some "x"
  redirectUri := some "r"
  leaseId := "le"
  issuedAt := 10
  expiresAt := 86410
  acceptUntil := 86530
  token := "t"
  responseJson := ⟨"device_activated", "q", "d", "b", 1, ⟨"p", "f", "l"⟩, "t", 43210, 86410, 86530⟩

/-- The batch of the candidate succeeds, so it writes the whole issue. -/
theorem a_first_exchange_is_whole : ∃ db',
    commitBoundDeviceLease exampleCandidate (fun _ => 10) exampleDb =
      (.ok exampleCandidate.responseJson, db') ∧ CausalChain exampleCandidate exampleDb db' := by
  have hok : (commitBoundDeviceLease exampleCandidate (fun _ => 10) exampleDb).1 =
      .ok exampleCandidate.responseJson := by decide
  have hwhole := a_lease_commit_is_whole exampleCandidate (fun _ => 10) exampleDb (by decide)
  refine hwhole.resolve_left ?_
  rintro ⟨e, he⟩
  rw [he] at hok
  cases hok

end Licensecc
