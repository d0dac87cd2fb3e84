-- What an order does to its grant: the mutation of an intent, the columns that it
-- writes, and the statement that writes them above the floor of the grant.
import Licensecc.Orders.Event
import Licensecc.Grants.Sequence

open Licensecc.Sql

namespace Licensecc.Orders

/-! ## Mutations -/

/-- The later of two ends, where no end is zero. -/
def clampValidUntil (currentPeriodEnd prevValidUntil : Option Int) : Int :=
  let a := currentPeriodEnd.getD 0
  let b := prevValidUntil.getD 0
  if a ≥ b then a else b

/-- The window of a descriptor, where no `valid_from` is undefined. -/
structure Window where
  valid_until : Option Int
  valid_from : Option Int := none

inductive Terminal where
  | no_entitlement
  | revoked

inductive Descriptor where
  | create (window : Window)
  | patch (window : Window) (keepOwner : Bool)
  | transition (status : EntitlementStatus) (eventType : EventType)
  | capacity (capacity : Option Int)
  | none (terminal : Terminal)

/-- `withWindow` of an order on the previous row. -/
def withWindow (order : Order) (prev : Option Entitlement) : Window :=
  let clampedValidUntil := clampValidUntil order.current_period_end (prev.bind (·.valid_until))
  if clampedValidUntil > 0 then
    let validFrom := (prev.bind (·.valid_from)).getD 0
    { valid_until := some clampedValidUntil
      valid_from := if validFrom < clampedValidUntil then some validFrom else none }
  else { valid_until := none }

def mapIntentToMutation (order : Order) (prev : Option Entitlement) : Descriptor :=
  if (prev.any fun e => e.status = .revoked) ∧ order.intent ∉ REVOKE_INTENTS then .none .revoked
  else
    match order.intent, prev with
    | .active, _ => .create (withWindow order prev)
    | _, none => .none .no_entitlement
    | .renewed, some _ => .patch (withWindow order prev) false
    | .canceled_at_period_end, some _ => .patch (withWindow order prev) true
    | .resumed, some _ => .transition .active .reenable
    | .quantity_changed, some _ => .capacity order.quantity
    | .past_due, some _ | .paused, some _ | .payment_failed, some _ =>
      .transition .disabled .disable
    | .fraud_confirmed, some _ | .chargeback, some _ => .transition .revoked .revoke

/-! ## Columns -/

/-- The columns of a window that no row may have the wrong way round. -/
def openStart (validFrom validUntil : Option Int) : Option Int :=
  match validFrom, validUntil with
  | some validFrom, some validUntil => if validFrom ≥ validUntil then none else some validFrom
  | _, _ => validFrom

/-- `createFields` -/
structure CreateFields where
  valid_from : Option Int
  valid_until : Option Int
  notes : String
  customer_id : String
  license_id : Option String
  max_active_devices : Int
  created_at : Int

def createFields (order : Order) (prev : Option Entitlement) (window : Window) (now : Int) :
    CreateFields where
  valid_from := openStart (window.valid_from.or (prev.bind (·.valid_from))) window.valid_until
  valid_until := window.valid_until
  notes := (prev.map (·.notes)).getD ""
  customer_id := order.customer.id
  license_id := order.license_id.or (prev.bind (·.license_id))
  max_active_devices := order.quantity.getD ((prev.map (·.max_active_devices)).getD 1)
  created_at := (prev.map (·.created_at)).getD now

/-- `patchFields` -/
structure PatchFields where
  valid_from : Option Int
  valid_until : Option Int
  notes : String
  license_id : Option String

def patchFields (order : Order) (prev : Entitlement) (window : Window) (keepOwner : Bool) :
    PatchFields where
  valid_from := openStart (window.valid_from.or prev.valid_from) window.valid_until
  valid_until := window.valid_until
  notes := prev.notes
  license_id := if keepOwner then prev.license_id else order.license_id.or prev.license_id

/-! ## Statements -/

/-- The place of an order among those of its subscription. -/
structure Floor where
  epoch : Int
  seq : Int

/-- `FLOOR_PREDICATE_UPDATE`, and `FLOOR_PREDICATE_CONFLICT` of a row that is there. -/
def Floor.Advances (floor : Floor) (e : Entitlement) : Prop :=
  floor.epoch > e.last_applied_order_epoch ∨
    (floor.epoch = e.last_applied_order_epoch ∧ floor.seq > e.last_applied_order_seq)

instance (floor : Floor) : DecidablePred floor.Advances :=
  fun _ => inferInstanceAs (Decidable (_ ∨ _))

/-- What every guarded write of an order sets. -/
def advance (floor : Floor) (now : Int) (s : Store) (e : Entitlement) : Entitlement :=
  { e with
    revocation_seq := bumpSeq s.entitlement_events e
    last_applied_order_epoch := floor.epoch
    last_applied_order_seq := floor.seq
    updated_at := now }

/-- A guarded write of the grant of its owner. -/
def guardedUpdate (key : EntitlementKey) (owner : String) (floor : Floor) (ofCapacity terminal : Bool)
    (now : Int) (set : Entitlement → Entitlement) : Stmt Store := fun time _ s =>
  Store.onDb (s.updateEntitlements time ofCapacity
    (fun e => e.toEntitlementKey = key ∧ e.customer_id = owner ∧
      (terminal = true ∨ e.status ≠ .revoked) ∧ floor.Advances e)
    fun e => advance floor now s (set e)) s

def buildCreateStatement (key : EntitlementKey) (fields : CreateFields) (floor : Floor) (now : Int) :
    Stmt Store := fun time changes s =>
  if ∃ e ∈ s.entitlements, e.toEntitlementKey = key then
    guardedUpdate key fields.customer_id floor true false now (fun e => { e with
      status := .active
      valid_from := fields.valid_from
      valid_until := fields.valid_until
      notes := fields.notes
      license_id := fields.license_id
      max_active_devices := fields.max_active_devices }) time changes s
  else
    Store.onDb (inserted (s.insertEntitlement {
      toEntitlementKey := key
      status := .active
      revocation_seq := createSeq s.entitlement_events key
      valid_from := fields.valid_from
      valid_until := fields.valid_until
      notes := fields.notes
      customer_id := fields.customer_id
      license_id := fields.license_id
      max_active_devices := fields.max_active_devices
      last_applied_order_epoch := floor.epoch
      last_applied_order_seq := floor.seq
      created_at := fields.created_at
      updated_at := now })) s

def buildPatchStatement (key : EntitlementKey) (fields : PatchFields) (owner : String) (floor : Floor)
    (now : Int) : Stmt Store :=
  guardedUpdate key owner floor false false now fun e => { e with
    valid_from := fields.valid_from
    valid_until := fields.valid_until
    notes := fields.notes
    license_id := fields.license_id }

def buildTransitionStatement (key : EntitlementKey) (status : EntitlementStatus) (owner : String)
    (floor : Floor) (now : Int) : Stmt Store :=
  guardedUpdate key owner floor false (status = .revoked) now fun e => { e with status }

/-- `buildCapacityStatement`, which takes a limit that is a safe non-negative integer. -/
def buildCapacityStatement (key : EntitlementKey) (capacity : Option Int) (owner : String)
    (floor : Floor) (now : Int) : Stmt Store :=
  match capacity.filter fun limit => 0 ≤ limit ∧ limit ≤ maxSafeInteger with
  | some limit => guardedUpdate key owner floor true false now fun e =>
      { e with max_active_devices := limit }
  | none => guardedUpdate key owner floor false false now id

/-! ## Applying -/

/-- The key of the grant of an order. -/
def grantKey (order : Order) (fingerprint : String) : EntitlementKey :=
  ⟨order.project, order.feature, fingerprint⟩

/-- The statement of `applyOrderEvent` that writes the grant, for the row that it has read. -/
def writeStatement (order : Order) (fingerprint : String) (prev : Option Entitlement) (now : Int) :
    Option (Stmt Store) :=
  let key := grantKey order fingerprint
  let floor : Floor := ⟨order.order_epoch, order.seq⟩
  -- an order acts only on the grant of its own customer
  if prev.any fun e => e.customer_id ≠ order.customer.id then none
  else
    match mapIntentToMutation order prev, prev with
    | .create window, _ =>
      some (buildCreateStatement key (createFields order prev window now) floor now)
    | .patch window keepOwner, some e =>
      some (buildPatchStatement key (patchFields order e window keepOwner) order.customer.id floor now)
    | .transition status _, _ =>
      some (buildTransitionStatement key status order.customer.id floor now)
    | .capacity capacity, _ =>
      some (buildCapacityStatement key capacity order.customer.id floor now)
    | _, _ => none

/-- The grants after an order is applied to the row that it has read. -/
def applyWrite (order : Order) (fingerprint : String) (now time : Int) (s : Store) :
    Except Abort Store :=
  match writeStatement order fingerprint (s.entitlement (grantKey order fingerprint)) now with
  | none => .ok s
  | some stmt => (stmt time 0 s).map (·.2)

end Licensecc.Orders
