-- The ticks that enqueue webhooks. A tick reads the endpoints once, and then for each
-- source the cursor and the events after it, inserts the deliveries one by one, and
-- moves the cursor. Ticks overlap, and mutators and operators go on at the same time.
import Licensecc.Conc.Schedule
import Licensecc.Conc.World
import Licensecc.Webhook.Delivery
import Licensecc.Webhook.Source
import Mathlib.Logic.Function.Basic

open Licensecc.Codec Licensecc.Sql Licensecc.Conc

namespace Licensecc.Webhook

/-! ## The database -/

structure OutboxDb where
  events : EventSource → RowidTable SourceRow := fun _ => .empty
  endpoints : Table WebhookEndpoint := .empty
  deliveries : Table Delivery := .empty
  webhook_cursor : EventSource → Option Int := fun _ => none

def WEBHOOK_ENQUEUE_BATCH : Nat := 500

def WEBHOOK_EVENT_SOURCES : List EventSource := [.entitlement, .customer, .order]

def loadActiveEndpoints (db : OutboxDb) : List WebhookEndpoint :=
  db.endpoints.rows.filter (·.status = .active)

def readCursor (source : EventSource) (db : OutboxDb) : Int := (db.webhook_cursor source).getD 0

/-- `SOURCE_SELECT`. The ids are small, so `Number` reads them as they are. -/
def selectRows (source : EventSource) (cursor : Int) (db : OutboxDb) : List SourceRow :=
  ((db.events source).above cursor).take WEBHOOK_ENQUEUE_BATCH

/-- A change of the status or of the result of an order event. -/
inductive OrderChange where
  | terminal (status : OrderStatus) (result_json : String)
  | finalize (result_json : String)

/-- The guard of the change. -/
def OrderChange.Selects : OrderChange → OrderSource → Prop
  | terminal .., row => row.status = .accepted
  | finalize _, row => row.status = .processed

instance (change : OrderChange) (row : OrderSource) : Decidable (change.Selects row) := by
  unfold OrderChange.Selects
  split <;> infer_instance

def OrderChange.set : OrderChange → OrderSource → OrderSource
  | terminal status result_json, row => { row with status, result_json }
  | finalize result_json, row => { row with result_json }

/-- The row after a change of an order event. -/
def OrderChange.update (change : OrderChange) (id : Int) (row : SourceRow) : SourceRow :=
  match row.data with
  | .order o => if row.event_id = id ∧ change.Selects o then { row with data := .order (change.set o) }
      else row
  | _ => row

theorem OrderChange.update_id (change : OrderChange) (id : Int) (row : SourceRow) :
    rowid (change.update id row) = rowid row := by
  unfold OrderChange.update
  split
  · split
    · rfl
    · rfl
  · rfl

/-- What a statement of the dispatch leaves of a delivery. -/
def Delivery.queued (d : Delivery) : Int × String × EventSource × Int × String :=
  (d.id, d.endpoint_id, d.event_source, d.event_id, d.payload_json)

/-- A move of a cursor. What its tick has read before is only for the laws. -/
structure Advance where
  source : EventSource
  endpoints : List WebhookEndpoint
  cursor : Int
  maxId : Int

inductive OutboxWrite where
  | event (source : EventSource) (columns : SourceColumns)
  | order (id : Int) (change : OrderChange)
  | endpoints (table : Table WebhookEndpoint)
  | deliveries (table : Table Delivery)
  | enqueue (source : EventSource) (row : SourceRow) (endpoint_id : String) (now : Int)
  | advance (a : Advance)

/-- The ids that the next rows get. -/
structure OutboxIds where
  event : EventSource → Int
  delivery : Int

/-- The row of a new delivery. -/
def newDelivery (reparse : String → Option (List Char)) (id : Int) (source : EventSource)
    (row : SourceRow) (endpoint_id : String) (now : Int) : Delivery where
  id := id
  endpoint_id := endpoint_id
  event_source := source
  event_id := row.event_id
  event_type := row.event_type
  payload_json := buildWebhookPayload reparse source row
  next_attempt_at := now
  created_at := now

/-- `INSERT OR IGNORE`. -/
def insertOrIgnore (row : Delivery) (t : Table Delivery) : Table Delivery :=
  match t.insert row with
  | .ok t' => t'
  | .error _ => t

section
variable (reparse : String → Option (List Char))

/-- The database after a write. A statement of the dispatch keeps what is queued. -/
def OutboxWrite.apply (i : OutboxIds) (db : OutboxDb) : OutboxWrite → OutboxDb
  | event source columns =>
    let row : SourceRow := { toSourceColumns := columns, event_id := i.event source }
    if h : (db.events source).Next row then
      { db with events := Function.update db.events source ((db.events source).append row h) }
    else db
  | order id change =>
    let rows := (db.events EventSource.order).modify (change.update id) (OrderChange.update_id change id)
    { db with events := Function.update db.events EventSource.order rows }
  | endpoints table => { db with endpoints := table }
  | deliveries table =>
    if table.rows.map Delivery.queued = db.deliveries.rows.map Delivery.queued then
      { db with deliveries := table }
    else db
  | enqueue source row endpoint_id now =>
    { db with deliveries :=
        insertOrIgnore (newDelivery reparse i.delivery source row endpoint_id now) db.deliveries }
  | advance a => { db with webhook_cursor := Function.update db.webhook_cursor a.source (some a.maxId) }

/-! ## The system -/

abbrev OutboxEntry := Entry OutboxDb OutboxWrite Unit

/-- The database with a log of its writes, which no program reads. -/
structure OutboxWorld where
  db : OutboxDb
  log : List OutboxEntry

/-- An id is above all ids that were there. -/
structure OutboxIds.Admits (i : OutboxIds) (w : OutboxWorld) : Prop where
  event_above : ∀ source, ∀ r ∈ (w.db.events source).rows, r.event_id < i.event source
  event_pos : ∀ source, 0 < i.event source
  delivery_above : ∀ d ∈ w.db.deliveries.rows, d.id < i.delivery

def execOutbox (i : OutboxIds) (write : OutboxWrite) (w : OutboxWorld) : Unit × OutboxWorld :=
  ((), ⟨write.apply reparse i w.db, ⟨write, (), w.db, write.apply reparse i w.db⟩ :: w.log⟩)

abbrev OutboxProg := Prog OutboxWorld OutboxWrite Unit

/-- The deliveries of one event. The value is whether no insert has thrown. -/
def enqueueRow (source : EventSource) (now : Int) (row : SourceRow) :
    List WebhookEndpoint → OutboxProg Bool
  | [] => pure true
  | endpoint :: rest =>
    if endpoint.wants source row then
      Prog.request (.enqueue source row endpoint.id now) >>= fun
        | none => pure false
        | some _ => enqueueRow source now row rest
    else enqueueRow source now row rest

def enqueueRows (source : EventSource) (now : Int) (endpoints : List WebhookEndpoint) :
    List SourceRow → OutboxProg Bool
  | [] => pure true
  | row :: rest =>
    enqueueRow source now row endpoints >>= fun ok =>
      if ok then enqueueRows source now endpoints rest else pure false

/-- The highest id of the rows and the cursor. -/
def maxId (cursor : Int) : List SourceRow → Int
  | [] => cursor
  | row :: rest => maxId (if cursor < row.event_id then row.event_id else cursor) rest

/-- `enqueueSource`. It has no value when a statement has thrown. -/
def enqueueSource (source : EventSource) (endpoints : List WebhookEndpoint) (now : Int) :
    OutboxProg (Option Nat) :=
  Prog.query (fun w => readCursor source w.db) >>= fun cursor =>
  Prog.query (fun w => selectRows source cursor w.db) >>= fun rows =>
  if rows = [] then pure (some 0)
  else enqueueRows source now endpoints rows >>= fun ok =>
    if !ok then pure none
    else if cursor < maxId cursor rows then
      Prog.request (.advance ⟨source, endpoints, cursor, maxId cursor rows⟩) >>= fun
        | none => pure none
        | some _ => pure (some rows.length)
    else pure (some rows.length)

/-- The passes over one source, with those whose reads throw. -/
def enqueuePasses (source : EventSource) (endpoints : List WebhookEndpoint) (now : Int)
    (throws : Nat → Bool) : Nat → OutboxProg Unit
  | 0 => pure ()
  | n + 1 =>
    if throws n then pure ()
    else enqueueSource source endpoints now >>= fun
      | none => pure ()
      | some scanned => if scanned < WEBHOOK_ENQUEUE_BATCH then pure ()
          else enqueuePasses source endpoints now throws n

def enqueueSources (endpoints : List WebhookEndpoint) (now : Int)
    (throws : EventSource → Nat → Bool) : List EventSource → OutboxProg Unit
  | [] => pure ()
  | source :: rest =>
    enqueuePasses source endpoints now (throws source) 4 >>= fun _ =>
      enqueueSources endpoints now throws rest

def enqueueWebhooks (now : Int) (throws : EventSource → Nat → Bool) : OutboxProg Unit :=
  Prog.query (fun w => loadActiveEndpoints w.db) >>= fun endpoints =>
  if endpoints = [] then pure ()
  else enqueueSources endpoints now throws WEBHOOK_EVENT_SOURCES

/-- A statement of the rest of the service. -/
def OutboxWrite.FromOutside : OutboxWrite → Prop
  | event .. | order .. | endpoints _ | deliveries _ => True
  | enqueue .. | advance _ => False

inductive OutboxRun : OutboxProg Unit → Prop
  | tick (now : Int) (throws : EventSource → Nat → Bool) : OutboxRun (enqueueWebhooks now throws)
  | outside (write : OutboxWrite) : write.FromOutside →
      OutboxRun (Prog.request write >>= fun _ => pure ())

/-- The ticks and the rest of the service, all at once. -/
def outboxSystem : System OutboxWorld OutboxWrite Unit OutboxIds Unit :=
  ⟨execOutbox reparse, OutboxIds.Admits, OutboxRun⟩

end

end Licensecc.Webhook
