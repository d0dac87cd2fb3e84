-- The laws of a retirement. Its batch moves one active binding to retiring and
-- leaves the hold of the binding as it is.
import Licensecc.Device.Commit

open Licensecc.Sql

namespace Licensecc

/-! ## The batch -/

/-- The intent of a retirement with the revisions that its reads have seen. -/
structure Retirement where
  customerId : String
  bindingId : String
  operationId : String
  invocationId : String
  digest : String
  expectedRevision : Int
  customerRevision : Int
  deviceRevision : Int
  entitlementRevision : Int
  generation : Int
  actor : String

/-- The device of the binding, and the entitlement and the customer that own
it at the revisions of the intent. -/
@[mk_iff] structure RetireOwned (db : Db) (p : Retirement) (b : Binding) (d : Device) : Prop where
  binding : b.id = p.bindingId
  device : d.id = b.device_id ∧ d.project = b.project ∧ d.revision = p.deviceRevision
  owner : ∃ e ∈ db.entitlements, e.toEntitlementKey = b.toEntitlementKey ∧
    e.authority_revision = p.entitlementRevision ∧
    ∃ c ∈ db.customers, c.id = d.customer_id ∧ c.id = e.customer_id ∧ c.id = p.customerId ∧
      c.status = .active ∧ c.authority_revision = p.customerRevision

instance (db : Db) (p : Retirement) (b : Binding) (d : Device) : Decidable (RetireOwned db p b d) :=
  decidable_of_iff' _ (retireOwned_iff db p b d)

/-- The condition of the first statement on the binding and its device. -/
@[mk_iff] structure RetireGuard (db : Db) (p : Retirement) (b : Binding) (d : Device) : Prop where
  owned : RetireOwned db p b d
  state : b.state = .active
  status : d.status = .active
  revision : b.revision = p.expectedRevision
  revision_room : b.revision < maxSafeInteger
  generation : b.generation = p.generation
  generation_room : b.generation < maxSafeInteger

instance (db : Db) (p : Retirement) (b : Binding) (d : Device) : Decidable (RetireGuard db p b d) :=
  decidable_of_iff' _ (retireGuard_iff db p b d)

def Retirement.operation (p : Retirement) (b : Binding) (d : Device) (now : Int) : Operation where
  key_id := d.key_id
  purpose := .retire
  operation_id := p.operationId
  invocation_id := p.invocationId
  request_digest := p.digest
  customer_id := p.customerId
  binding_id := b.id
  lease_id := none
  response_json := .retire {
    binding_id := b.id, state := .retiring, effective_release_at := max b.hold_until now,
    revision := b.revision + 1, generation := b.generation + 1 }
  committed_at := now
  retain_until := now + 172800

/-- The operation of this invocation. -/
@[mk_iff] structure RetireFresh (p : Retirement) (o : Operation) : Prop where
  invocation_id : o.invocation_id = p.invocationId
  customer_id : o.customer_id = p.customerId
  binding_id : o.binding_id = p.bindingId
  purpose : o.purpose = .retire
  operation_id : o.operation_id = p.operationId
  request_digest : o.request_digest = p.digest
  lease_id : o.lease_id = none

instance (p : Retirement) (o : Operation) : Decidable (RetireFresh p o) :=
  decidable_of_iff' _ (retireFresh_iff p o)

def retireGuard (p : Retirement) : Stmt Db := fun now _ db =>
  match db.device_bound_bindings.find? (·.id = p.bindingId) with
  | none => .ok (0, db)
  | some b =>
    match db.device_bound_devices.find? (·.id = b.device_id) with
    | none => .ok (0, db)
    | some d =>
      if RetireGuard db p b d then inserted (db.insertOperation (p.operation b d now))
      else .ok (0, db)

def Retirement.retires (p : Retirement) (b : Binding) : Prop :=
  b.id = p.bindingId ∧ b.state = .active ∧ b.revision = p.expectedRevision ∧
    b.generation = p.generation

instance (p : Retirement) (b : Binding) : Decidable (p.retires b) :=
  inferInstanceAs (Decidable (_ ∧ _ ∧ _ ∧ _))

/-- A statement that joins the prepared operation of the retirement. -/
def retireJoined (p : Retirement) (f : Operation → Int → Db → Except Abort (Nat × Db)) : Stmt Db :=
  fun now _ db =>
    match db.device_bound_operations.find? (fun o => RetireFresh p o ∧ o.status = .prepared) with
    | some o => f o now db
    | none => .ok (0, db)

def retireBinding (p : Retirement) : Stmt Db :=
  retireJoined p fun o now db =>
    stored (db.device_bound_bindings.update now p.retires (Db.retiredBinding o.committed_at))
      fun t => { db with device_bound_bindings := t }

def Retirement.event (p : Retirement) (o : Operation) : BoundEvent where
  invocation_id := o.invocation_id
  binding_id := o.binding_id
  customer_id := o.customer_id
  event_type := .retire
  actor := p.actor
  occurred_at := o.committed_at

def retireAudit (p : Retirement) : Stmt Db :=
  retireJoined p fun o _ db => inserted (db.insertEvent (p.event o))

def retireComplete (p : Retirement) : Stmt Db := fun now _ db =>
  stored (db.device_bound_operations.update now
    (fun o => RetireFresh p o ∧ o.status = .prepared) operationSet)
    fun t => { db with device_bound_operations := t }

/-- The last check: the binding is retiring, and its operation and its event
say so. -/
def retireDone (p : Retirement) (db : Db) : Prop :=
  ∃ b ∈ db.device_bound_bindings, (b.state = .retiring ∧ b.revision = p.expectedRevision + 1 ∧
    b.generation = p.generation + 1) ∧
  ∃ d ∈ db.device_bound_devices, RetireOwned db p b d ∧
  ∃ o ∈ db.device_bound_operations, (RetireFresh p o ∧ o.status = .complete ∧ o.key_id = d.key_id ∧
    b.updated_at = o.committed_at ∧ o.response_json = .retire {
      binding_id := b.id, state := .retiring,
      effective_release_at := max b.hold_until o.committed_at,
      revision := b.revision, generation := b.generation }) ∧
  ∃ a ∈ db.device_bound_events, a.invocation_id = o.invocation_id ∧ a.binding_id = b.id ∧
    a.customer_id = p.customerId ∧ a.event_type = .retire ∧ a.actor = p.actor ∧
    a.occurred_at = o.committed_at

instance (p : Retirement) (db : Db) : Decidable (retireDone p db) :=
  inferInstanceAs (Decidable (∃ _ ∈ _, (_ ∧ _ ∧ _) ∧ ∃ _ ∈ _, _ ∧ ∃ _ ∈ _, (_ ∧ _ ∧ _ ∧ _ ∧ _) ∧
    ∃ _ ∈ _, _ ∧ _ ∧ _ ∧ _ ∧ _ ∧ _))

/-- `BOUND_RETIRE_SQL` before its last SELECT. -/
def boundRetire (p : Retirement) : List (Stmt Db) :=
  [retireGuard p, retireBinding p, retireAudit p, retireComplete p,
    assertThat p.invocationId fun db _ => retireDone p db, removeCheck p.invocationId]

/-! ## What a retirement does -/

variable {p : Retirement} {db db' : Db} {clock : Nat → Int}

/-- A batch that succeeds has retired one active binding, and it has written
the operation and the event of that. -/
structure RetireEffect (p : Retirement) (clock : Nat → Int) (db db' : Db) : Prop where
  row : ∃ b ∈ db.device_bound_bindings, ∃ d ∈ db.device_bound_devices, RetireGuard db p b d ∧
    db'.device_bound_operations.rows =
      operationSet (p.operation b d (clock 0)) :: db.device_bound_operations.rows ∧
    db.device_bound_events.insert (p.event (p.operation b d (clock 0))) =
      .ok db'.device_bound_events
  bindings : ∃ n, db.device_bound_bindings.update (clock 1) p.retires (Db.retiredBinding (clock 0)) =
    .ok (n, db'.device_bound_bindings)
  others : db' = { db with
    device_bound_bindings := db'.device_bound_bindings
    device_bound_operations := db'.device_bound_operations
    device_bound_events := db'.device_bound_events }

theorem retireJoined_none {f : Operation → Int → Db → Except Abort (Nat × Db)} {now : Int}
    {changes : Nat} (h : ∀ o ∈ db.device_bound_operations, o.invocation_id ≠ p.invocationId) :
    retireJoined p f now changes db = .ok (0, db) := by
  have hn : db.device_bound_operations.find? (fun o => RetireFresh p o ∧ o.status = .prepared) =
      none := Table.find?_none.mpr fun o ho hp => h o ho hp.1.invocation_id
  rw [retireJoined, hn]

theorem retireJoined_ok {f : Operation → Int → Db → Except Abort (Nat × Db)} {o : Operation}
    {now : Int} {changes : Nat} {r : Nat × Db} (h : retireJoined p f now changes db = .ok r)
    (ho : db.device_bound_operations.find? (fun o => RetireFresh p o ∧ o.status = .prepared) =
      some o) : f o now db = .ok r := by
  rwa [retireJoined, ho] at h

/-- The rest of the batch fails when the first statement has inserted no
operation. -/
theorem unretired_aborts {ns : List Nat} {changes : Nat}
    (hfresh : ∀ o ∈ db.device_bound_operations, o.invocation_id ≠ p.invocationId) :
    runBatch ((boundRetire p).drop 1) clock changes db ≠ .ok (ns, db') := by
  intro h
  have hidle : ∀ stmt ∈ ((boundRetire p).drop 1).take 3, ∀ now n,
      stmt now n db = .ok (0, db) := by
    intro stmt hmem now n
    simp only [boundRetire, List.drop_succ_cons, List.drop_zero, List.take_succ_cons,
      List.take_zero, List.mem_cons, List.not_mem_nil, or_false] at hmem
    rcases hmem with rfl | rfl | rfl
    · exact retireJoined_none hfresh
    · exact retireJoined_none hfresh
    · have hu : db.device_bound_operations.update now
          (fun o => RetireFresh p o ∧ o.status = .prepared) operationSet =
            .ok (0, db.device_bound_operations) :=
        Table.update_none fun o ho hf => hfresh o ho hf.1.invocation_id
      rw [retireComplete, hu]
      rfl
  obtain ⟨clock', changes', ms, h⟩ := @runBatch_skip _ _
    [assertThat p.invocationId fun db _ => retireDone p db, _] _ _ _ _ _ hidle h
  obtain ⟨n, db₁, -, h1, -⟩ := runBatch_cons.mp h
  obtain ⟨⟨b, hb, -, d, hd, -, o, ho, ⟨hf, -⟩, -⟩, -⟩ := assertThat_ok h1
  exact hfresh o ho hf.invocation_id

theorem retireGuard_ok {now : Int} {changes n : Nat}
    (h : retireGuard p now changes db = .ok (n, db')) :
    db' = db ∨ ∃ b ∈ db.device_bound_bindings, ∃ d ∈ db.device_bound_devices, RetireGuard db p b d ∧
      ∃ t, db.device_bound_operations.insert (p.operation b d now) = .ok t ∧
        db' = { db with device_bound_operations := t } := by
  unfold retireGuard at h
  split at h
  · exact .inl (Prod.mk.inj (Except.ok.inj h)).2.symm
  rename_i b hb
  split at h
  · exact .inl (Prod.mk.inj (Except.ok.inj h)).2.symm
  rename_i d hd
  split at h
  · rename_i hg
    obtain ⟨-, t, ht, rfl⟩ := Db.insertOperation_eq_ok.mp (inserted_eq_ok.mp h).2
    exact .inr ⟨b, (Table.find?_some hb).1, d, (Table.find?_some hd).1, hg, t, ht, rfl⟩
  · exact .inl (Prod.mk.inj (Except.ok.inj h)).2.symm

theorem boundRetire_ok {ns : List Nat}
    (hfresh : ∀ o ∈ db.device_bound_operations, o.invocation_id ≠ p.invocationId)
    (h : runBatch (boundRetire p) clock 0 db = .ok (ns, db')) : RetireEffect p clock db db' := by
  obtain ⟨_, _, _, h1, hrest, -⟩ := runBatch_cons.mp h
  rcases retireGuard_ok h1 with rfl | ⟨b, hb, d, hd, hg, t, ht, rfl⟩
  · exact absurd hrest (unretired_aborts hfresh)
  have hnew : RetireFresh p (p.operation b d (clock 0)) :=
    ⟨rfl, rfl, hg.owned.binding, rfl, rfl, rfl, rfl⟩
  have ho : t.find? (fun o => RetireFresh p o ∧ o.status = .prepared) =
      some (p.operation b d (clock 0)) := by
    rw [Table.find?, Table.rows_of_insert ht]
    exact List.find?_cons_of_pos (decide_eq_true ⟨hnew, rfl⟩)
  obtain ⟨_, _, _, h2, h, -⟩ := runBatch_cons.mp hrest
  obtain ⟨bindings, hbindings, rfl⟩ := stored_eq_ok.mp (retireJoined_ok h2 ho)
  obtain ⟨_, _, _, h3, h, -⟩ := runBatch_cons.mp h
  obtain ⟨-, events, hevents, rfl⟩ :=
    Db.insertEvent_eq_ok.mp (inserted_eq_ok.mp (retireJoined_ok h3 ho)).2
  obtain ⟨_, _, _, h4, h, -⟩ := runBatch_cons.mp h
  obtain ⟨operations, hoperations, rfl⟩ := stored_eq_ok.mp h4
  obtain ⟨_, _, _, h5, h, -⟩ := runBatch_cons.mp h
  obtain ⟨-, checks, hchecks, rfl⟩ := assertThat_ok h5
  obtain ⟨_, _, _, h6, h, -⟩ := runBatch_cons.mp h
  obtain ⟨checks', hchecks', rfl⟩ := stored_eq_ok.mp h6
  obtain ⟨-, rfl⟩ := runBatch_nil.mp h
  obtain rfl := remove_inserted hchecks hchecks'
  have hrows : operations.rows = operationSet (p.operation b d (clock 0)) ::
      db.device_bound_operations.rows := by
    have hold : ∀ r ∈ db.device_bound_operations.rows, ¬ (RetireFresh p r ∧ r.status = .prepared) :=
      fun r hr hf => hfresh r hr hf.1.invocation_id
    have hmap : db.device_bound_operations.rows.map (fun r =>
        if RetireFresh p r ∧ r.status = .prepared then operationSet r else r) =
        db.device_bound_operations.rows.map id :=
      List.map_congr_left fun r hr => if_neg (hold r hr)
    rw [Table.rows_of_update hoperations, Table.rows_of_insert ht, List.map_cons,
      hmap, List.map_id, if_pos ⟨hnew, rfl⟩]
  exact ⟨⟨b, hb, d, hd, hg, hrows, hevents⟩, ⟨_, hbindings⟩, rfl⟩

end Licensecc
