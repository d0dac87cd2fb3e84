-- The database, and the writes that carry triggers across tables: a change
-- of an entitlement asks for its device slots, raises its authority revision
-- and moves the projection generation.
import Licensecc.Sql.Batch
import Licensecc.Schema.Device

open Licensecc.Sql

namespace Licensecc

structure Db where
  customers : Table Customer := .empty
  entitlements : Table Entitlement := .empty
  generation : Int := 0
  device_bound_devices : Table Device := .empty
  device_bound_bindings : Table Binding := .empty
  device_bound_challenges : Table Challenge := .empty
  device_bound_authorizations : Table Authorization := .empty
  device_bound_operations : Table Operation := .empty
  device_bound_leases : Table Lease := .empty
  device_bound_events : Table BoundEvent := .empty
  device_bound_commit_checks : Table CommitCheck := .empty
  mutation_idempotency : Table IdempotencyRow := .empty

namespace Db

/-! ## Inserts with foreign keys -/

def insertDevice (row : Device) (db : Db) : Except Abort Db := do
  require (∃ c ∈ db.customers, c.id = row.customer_id)
  let device_bound_devices ← db.device_bound_devices.insert row
  return { db with device_bound_devices }

def insertBinding (row : Binding) (db : Db) : Except Abort Db := do
  require ((∃ d ∈ db.device_bound_devices, d.id = row.device_id) ∧
    ∃ e ∈ db.entitlements, e.toEntitlementKey = row.toEntitlementKey)
  let device_bound_bindings ← db.device_bound_bindings.insert row
  return { db with device_bound_bindings }

def insertOperation (row : Operation) (db : Db) : Except Abort Db := do
  require (∃ c ∈ db.customers, c.id = row.customer_id)
  let device_bound_operations ← db.device_bound_operations.insert row
  return { db with device_bound_operations }

def insertLease (row : Lease) (db : Db) : Except Abort Db := do
  require (∃ b ∈ db.device_bound_bindings, b.id = row.binding_id)
  let device_bound_leases ← db.device_bound_leases.insert row
  return { db with device_bound_leases }

def insertEvent (row : BoundEvent) (db : Db) : Except Abort Db := do
  require ((∃ b ∈ db.device_bound_bindings, b.id = row.binding_id) ∧
    ∃ c ∈ db.customers, c.id = row.customer_id)
  let device_bound_events ← db.device_bound_events.insert row
  return { db with device_bound_events }

theorem insertDevice_eq_ok {row : Device} {db db' : Db} :
    db.insertDevice row = .ok db' ↔ (∃ c ∈ db.customers, c.id = row.customer_id) ∧
      ∃ t, db.device_bound_devices.insert row = .ok t ∧
        db' = { db with device_bound_devices := t } := by
  rw [insertDevice, require_bind_eq_ok, store_eq_ok]

theorem insertBinding_eq_ok {row : Binding} {db db' : Db} :
    db.insertBinding row = .ok db' ↔ ((∃ d ∈ db.device_bound_devices, d.id = row.device_id) ∧
      ∃ e ∈ db.entitlements, e.toEntitlementKey = row.toEntitlementKey) ∧
      ∃ t, db.device_bound_bindings.insert row = .ok t ∧
        db' = { db with device_bound_bindings := t } := by
  rw [insertBinding, require_bind_eq_ok, store_eq_ok]

theorem insertOperation_eq_ok {row : Operation} {db db' : Db} :
    db.insertOperation row = .ok db' ↔ (∃ c ∈ db.customers, c.id = row.customer_id) ∧
      ∃ t, db.device_bound_operations.insert row = .ok t ∧
        db' = { db with device_bound_operations := t } := by
  rw [insertOperation, require_bind_eq_ok, store_eq_ok]

theorem insertLease_eq_ok {row : Lease} {db db' : Db} :
    db.insertLease row = .ok db' ↔ (∃ b ∈ db.device_bound_bindings, b.id = row.binding_id) ∧
      ∃ t, db.device_bound_leases.insert row = .ok t ∧
        db' = { db with device_bound_leases := t } := by
  rw [insertLease, require_bind_eq_ok, store_eq_ok]

theorem insertEvent_eq_ok {row : BoundEvent} {db db' : Db} :
    db.insertEvent row = .ok db' ↔ ((∃ b ∈ db.device_bound_bindings, b.id = row.binding_id) ∧
      ∃ c ∈ db.customers, c.id = row.customer_id) ∧
      ∃ t, db.device_bound_events.insert row = .ok t ∧
        db' = { db with device_bound_events := t } := by
  rw [insertEvent, require_bind_eq_ok, store_eq_ok]

/-! ## Device slots -/

/-- The bindings of an entitlement that hold a device slot at a time. -/
def occupied (db : Db) (now : Int) (key : EntitlementKey) : Nat :=
  db.device_bound_bindings.count fun b => b.toEntitlementKey = key ∧ b.boundOccupied now

/-- Time frees slots and takes none. -/
theorem occupied_anti {db : Db} {now later : Int} {key : EntitlementKey} (h : now ≤ later) :
    db.occupied later key ≤ db.occupied now key :=
  Table.count_mono fun _ _ ⟨hk, ho⟩ => ⟨hk, Binding.boundOccupied_anti h ho⟩

/-! ## Writes of entitlements and customers -/

/-- `tr_bound_capacity_decrease` and `tr_bound_owner_change` on one row. The
first one looks only at an update that sets the limit. -/
def capacityInUse (db : Db) (now : Int) (ofCapacity : Bool) (old new : Entitlement) : Prop :=
  (ofCapacity = true ∧ new.max_active_devices < db.occupied now old.toEntitlementKey) ∨
    (new.customer_id ≠ old.customer_id ∧ db.occupied now old.toEntitlementKey ≠ 0)

instance (db : Db) (now : Int) (ofCapacity : Bool) (old new : Entitlement) :
    Decidable (db.capacityInUse now ofCapacity old new) :=
  inferInstanceAs (Decidable (_ ∧ _ ∨ _ ∧ _))

/-- `UPDATE entitlements` with its triggers. The flag says whether
`max_active_devices` is among the columns that the statement sets. -/
def updateEntitlements (now : Int) (ofCapacity : Bool) (sel : Entitlement → Prop)
    [DecidablePred sel] (set : Entitlement → Entitlement) (db : Db) :
    Except Abort (Nat × Db) := do
  if ∃ e ∈ db.entitlements, sel e ∧ db.capacityInUse now ofCapacity e (set e) then
    throw (.raised "capacity_in_use")
  let (n, entitlements) ← db.entitlements.update now sel fun e => e.bumped (set e)
  let bumps := db.entitlements.count fun e => sel e ∧ (set e).authorityOf ≠ e.authorityOf
  return (n, { db with entitlements, generation := db.generation + n + bumps })

/-- What an update of entitlements can do: no trigger has raised, and only the
entitlements and the generation are new. -/
theorem updateEntitlements_eq_ok {now : Int} {ofCapacity : Bool} {sel : Entitlement → Prop}
    [DecidablePred sel] {set : Entitlement → Entitlement} {db db' : Db} {n : Nat} :
    db.updateEntitlements now ofCapacity sel set = .ok (n, db') ↔
      (∀ e ∈ db.entitlements, sel e → ¬ db.capacityInUse now ofCapacity e (set e)) ∧
      ∃ t, db.entitlements.update now sel (fun e => e.bumped (set e)) = .ok (n, t) ∧
        db' = { db with
          entitlements := t,
          generation := db.generation + n +
            db.entitlements.count fun e => sel e ∧ (set e).authorityOf ≠ e.authorityOf } := by
  unfold updateEntitlements
  by_cases h : ∃ e ∈ db.entitlements, sel e ∧ db.capacityInUse now ofCapacity e (set e)
  · rw [if_pos h]
    obtain ⟨e, he, hs, hc⟩ := h
    simp only [throw, throwThe, MonadExceptOf.throw, bind, Except.bind, reduceCtorEq, false_iff]
    exact fun hno => hno.1 e he hs hc
  · rw [if_neg h]
    simp only [bind_eq_ok, pure, Except.pure, Except.ok.injEq, Prod.exists, Prod.mk.injEq]
    constructor
    · rintro ⟨m, t, ht, rfl, rfl⟩
      exact ⟨fun e he hs hc => h ⟨e, he, hs, hc⟩, t, ht, rfl⟩
    · rintro ⟨-, t, ht, rfl⟩
      exact ⟨n, t, ht, rfl, rfl⟩

/-- `INSERT INTO entitlements`, which moves the generation. -/
def insertEntitlement (row : Entitlement) (db : Db) : Except Abort Db := do
  let entitlements ← db.entitlements.insert row
  return { db with entitlements, generation := db.generation + 1 }

theorem insertEntitlement_eq_ok {row : Entitlement} {db db' : Db} :
    db.insertEntitlement row = .ok db' ↔ ∃ t, db.entitlements.insert row = .ok t ∧
      db' = { db with entitlements := t, generation := db.generation + 1 } := by
  rw [insertEntitlement, store_eq_ok]

/-- `tr_bound_customer_revision` after an update of one row. -/
def bumpCustomer (old new : Customer) : Customer :=
  if new.status = old.status then new
  else { new with authority_revision := old.authority_revision + 1 }

/-- `UPDATE customers SET status=?` with its trigger. -/
def updateCustomerStatus (now : Int) (id : String) (status : CustomerStatus) (db : Db) :
    Except Abort (Nat × Db) :=
  stored (db.customers.update now (·.id = id) fun c => bumpCustomer c { c with status })
    fun customers => { db with customers }

/-- The binding that a retirement or a disabled device leaves. -/
def retiredBinding (at_ : Int) (b : Binding) : Binding :=
  { b with
    state := .retiring, generation := b.generation + 1, revision := b.revision + 1,
    updated_at := at_ }

/-- The active bindings of a device that a disable retires. -/
def disables (db : Db) (id : String) (status : DeviceStatus) (b : Binding) : Prop :=
  (∃ d ∈ db.device_bound_devices, d.id = id ∧ d.status ≠ status ∧ b.device_id = d.id) ∧
    b.state = .active ∧ status = .disabled

instance (db : Db) (id : String) (status : DeviceStatus) (b : Binding) :
    Decidable (db.disables id status b) := inferInstanceAs (Decidable ((∃ _ ∈ _, _) ∧ _ ∧ _))

/-- `UPDATE device_bound_devices SET status=?`. The trigger
`tr_bound_device_disable` raises the revision of a device whose status
changes, and it retires the active bindings of a device that is disabled. -/
def updateDeviceStatus (now : Int) (id : String) (status : DeviceStatus) (db : Db) :
    Except Abort (Nat × Db) := do
  let (n, device_bound_devices) ← db.device_bound_devices.update now (·.id = id) fun d =>
    if d.status = status then d else { d with status, revision := d.revision + 1 }
  let (_, device_bound_bindings) ← db.device_bound_bindings.update now (db.disables id status)
    (retiredBinding now)
  return (n, { db with device_bound_devices, device_bound_bindings })

theorem updateDeviceStatus_ok {now : Int} {id : String} {status : DeviceStatus} {db db' : Db}
    {n : Nat} (h : db.updateDeviceStatus now id status = .ok (n, db')) :
    ∃ devices bindings m, db.device_bound_bindings.update now (db.disables id status)
        (retiredBinding now) = .ok (m, bindings) ∧
      db' = { db with device_bound_devices := devices, device_bound_bindings := bindings } := by
  simp only [updateDeviceStatus, bind_eq_ok, Prod.exists, pure, Except.pure, Except.ok.injEq,
    Prod.mk.injEq] at h
  obtain ⟨-, devices, -, m, bindings, hb, -, rfl⟩ := h
  exact ⟨devices, bindings, m, hb, rfl⟩

end Db

end Licensecc
