-- The dispatch of webhooks: workers that read the due rows, claim them one by one,
-- send them and record what became of them, with every clock, every answer and
-- every failure of the database, beside operators who redrive a delivery or move an
-- endpoint. The log is for the laws only, and no one reads it.
import Licensecc.Conc.Machine
import Licensecc.Webhook.Delivery
import Mathlib.Data.List.Sort
import Mathlib.Logic.Function.Basic

open Licensecc.Sql

namespace Licensecc.Webhook

/-! ## Workers -/

/-- A row of the due SELECT: the delivery with its endpoint's columns of that moment. -/
structure Due extends Scope where
  id : Int
  event_source : EventSource
  payload_json : String
  attempts : Nat
  url : String
  deriving DecidableEq

/-- A claim of a worker. The number names the claim in the log. -/
structure Claim where
  delivery : Due
  attemptNow : Int
  claimUntil : Int
  number : Nat
  deriving DecidableEq

/-- One run of `deliverWebhooks`: the rows that are left, and the row in flight. -/
structure Worker where
  now : Int
  due : List Due
  claim : Option Claim

/-- What a fetch comes to: a response with the text read from its body, or an error. -/
inductive Fetched where
  | response (status : Int) (errorBody : String)
  | threw (message : String)

/-- What the worker writes for a row in flight. -/
inductive Written where
  | nothing
  | outcome (o : Outcome)
  | cancellation

def deliveryWithinEndpointScope (parsers : Parsers) (delivery : Due) : Bool :=
  endpointScopeMatches delivery.toScope delivery.event_source
    (parsers.payloadData delivery.payload_json)

/-- `refuseUnsafeWebhookDelivery`. -/
def refusal (c : Claim) : Outcome where
  deliveryId := c.delivery.id
  claimUntil := c.claimUntil
  now := c.attemptNow
  ok := false
  statusCode := 0
  errorText := WEBHOOK_INVALID_URL
  attempts := c.delivery.attempts + 1
  terminal := true
  retryAt := none

/-- The outcome of a send. -/
def sent (c : Claim) (fetched : Fetched) (clock : Reading) : Outcome :=
  let statusCode := match fetched with
    | .response status _ => status
    | .threw _ => 0
  let ok := match fetched with
    | .response status _ => decide (200 ≤ status ∧ status < 300)
    | .threw _ => false
  let errText := match fetched with
    | .response _ errorBody => if ok then "" else errorBody
    | .threw message => message
  let completedNow := readWebhookClock clock c.attemptNow
  let attempts := c.delivery.attempts + 1
  let terminal := !ok && decide (WEBHOOK_MAX_ATTEMPTS ≤ attempts)
  { deliveryId := c.delivery.id, claimUntil := c.claimUntil, now := completedNow, ok, statusCode,
    errorText := errText, attempts, terminal,
    retryAt := bif ok || terminal then none else some (completedNow + nextBackoff attempts) }

def deliverOne (parsers : Parsers) (c : Claim) (signed : Bool) (fetched : Fetched)
    (clock : Reading) : Written :=
  if safeWebhookUrl parsers c.delivery.url = none then .outcome (refusal c)
  else if !deliveryWithinEndpointScope parsers c.delivery then .cancellation
  else if !signed then .nothing
  else .outcome (sent c fetched clock)

/-! ## The log -/

inductive OutcomeKind where
  | delivered
  | failed
  | retry
  deriving DecidableEq

inductive Event where
  | created (id : Int)
  | claimed (id : Int) (claim : Nat)
  | recorded (id : Int) (claim : Nat) (kind : OutcomeKind)
  | stopped (id : Int) (claim : Nat)
  | canceled (id : Int)
  | redriven (id : Int)
  deriving DecidableEq

def Outcome.kind (o : Outcome) : OutcomeKind :=
  if o.ok then .delivered else if o.terminal then .failed else .retry

/-! ## The system -/

/-- What becomes of a write: it runs, it runs and its answer is lost, or it fails. -/
inductive Io where
  | ran
  | lost
  | failed
  deriving DecidableEq

/-- The database, the workers and the operators, and the log with the newest event
first. -/
structure State where
  deliveries : Table Delivery := .empty
  endpoints : Table Endpoint := .empty
  sequence : Int := 0
  workers : Nat → Option Worker := fun _ => none
  redrives : Nat → Option Int := fun _ => none
  log : List Event := []

namespace State

/-- The active endpoint of a delivery. -/
def endpointOf (s : State) (d : Delivery) : Option Endpoint :=
  s.endpoints.find? fun e => e.id = d.endpoint_id ∧ e.status = .active

def dueRow (d : Delivery) (e : Endpoint) : Due :=
  { e.toScope with
    id := d.id, event_source := d.event_source, payload_json := d.payload_json,
    attempts := d.attempts, url := e.url }

/-- The order of the due SELECT. -/
def Sooner (a b : Delivery) : Prop :=
  a.next_attempt_at < b.next_attempt_at ∨ a.next_attempt_at = b.next_attempt_at ∧ a.id ≤ b.id

instance : DecidableRel Sooner := fun _ _ => inferInstanceAs (Decidable (_ ∨ _ ∧ _))

/-- The due SELECT. -/
def dueRows (s : State) (now : Int) : List Due :=
  let due := s.deliveries.rows.filter fun d =>
    d.status = .pending ∧ d.next_attempt_at ≤ now ∧ s.endpointOf d ≠ none
  ((due.insertionSort Sooner).take WEBHOOK_DELIVER_BATCH).filterMap fun d =>
    (s.endpointOf d).map (dueRow d)

def setWorker (s : State) (w : Nat) (worker : Option Worker) : State :=
  { s with workers := Function.update s.workers w worker }

/-- The state after a statement on the deliveries, when it has matched a row. -/
def commit (s : State) (io : Io) (t : Option (Table Delivery)) (e : Event) : State :=
  match t with
  | none => s
  | some deliveries => if io = .failed then s else { s with deliveries, log := e :: s.log }

/-- One turn of the loop of `deliverWebhooks`, up to the claim. -/
def claim (s : State) (w : Nat) (clock : Reading) (io : Io) : State :=
  match s.workers w with
  | some ⟨now, delivery :: rest, none⟩ =>
    let attemptNow := readWebhookClock clock now
    let claimUntil := attemptNow + WEBHOOK_CLAIM_TTL_SECONDS
    let number := s.log.length
    let idle := s.setWorker w (some ⟨now, rest, none⟩)
    match claimPendingWebhookDelivery s.deliveries delivery.id attemptNow claimUntil with
    | none => idle
    | some deliveries =>
      match io with
      | .failed => idle
      | .lost => { idle with deliveries, log := .claimed delivery.id number :: s.log }
      | .ran => { s.setWorker w (some ⟨now, rest, some ⟨delivery, attemptNow, claimUntil, number⟩⟩) with
          deliveries, log := .claimed delivery.id number :: s.log }
  | _ => s

/-- The rest of the turn: the row in flight is sent and recorded. -/
def deliver (parsers : Parsers) (s : State) (w : Nat) (signed : Bool) (fetched : Fetched)
    (clock : Reading) (io : Io) : State :=
  match s.workers w with
  | some ⟨now, due, some c⟩ =>
    let idle := s.setWorker w (some ⟨now, due, none⟩)
    match deliverOne parsers c signed fetched clock with
    | .nothing => idle
    | .outcome o => idle.commit io (persistWebhookDeliveryOutcome s.deliveries o)
        (.recorded o.deliveryId c.number o.kind)
    | .cancellation => idle.commit io
        (cancelOutOfScopeWebhookDelivery s.deliveries c.delivery.id c.claimUntil)
        (.stopped c.delivery.id c.number)
  | _ => s

/-- The batch of a PATCH of an endpoint. -/
def patchEndpoint (s : State) (endpointId : String) (change : WebhookDestinationChange) : State :=
  match s.endpoints.update 0 (·.id = endpointId) change.set with
  | .error _ => s
  | .ok (_, endpoints) =>
    match s.deliveries.update 0 (Queued s.endpoints endpointId change) cancel with
    | .error _ => s
    | .ok (_, deliveries) => { s with
        deliveries, endpoints,
        log := ((s.deliveries.rows.filter (Queued s.endpoints endpointId change ·)).map
          fun d => .canceled d.id) ++ s.log }

/-- `INSERT OR IGNORE` of a new delivery. -/
def enqueue (s : State) (endpoint_id : String) (source : EventSource) (eventId : Int)
    (event_type payloadJson : String) (now : Int) : State :=
  match s.deliveries.insert
      { id := s.sequence + 1, endpoint_id, event_source := source, event_id := eventId, event_type,
        payload_json := payloadJson, next_attempt_at := now, created_at := now } with
  | .error _ => s
  | .ok deliveries => { s with
      deliveries, sequence := s.sequence + 1, log := .created (s.sequence + 1) :: s.log }

end State

inductive Action where
  | tick (w : Nat) (now : Int)
  | claim (w : Nat) (clock : Reading) (io : Io)
  | deliver (w : Nat) (signed : Bool) (fetched : Fetched) (clock : Reading) (io : Io)
  | stop (w : Nat)
  | redriveRead (k : Nat) (deliveryId : Int)
  | redriveWrite (k : Nat) (now : Int) (io : Io)
  | patch (endpointId : String) (change : WebhookDestinationChange)
  | endpointStatus (endpointId : String) (status : EndpointStatus)
  | endpointInsert (row : Endpoint)
  | enqueue (endpoint_id : String) (source : EventSource) (eventId : Int)
      (event_type payloadJson : String) (now : Int)

/-- The state after an action. An action that cannot be taken changes nothing. A
worker stops at its end or in a crash. -/
def act (parsers : Parsers) : Action → State → State
  | .tick w now, s =>
    if s.workers w = none then s.setWorker w (some ⟨now, s.dueRows now, none⟩) else s
  | .claim w clock io, s => s.claim w clock io
  | .deliver w signed fetched clock io, s => s.deliver parsers w signed fetched clock io
  | .stop w, s => s.setWorker w none
  | .redriveRead k id, s =>
    if ∃ d ∈ s.deliveries, d.id = id ∧ d.status = .failed then
      { s with redrives := Function.update s.redrives k (some id) }
    else s
  | .redriveWrite k now io, s =>
    match s.redrives k with
    | none => s
    | some id => { s with redrives := Function.update s.redrives k none }.commit io
        (redriveDelivery s.deliveries id now) (.redriven id)
  | .patch endpointId change, s => s.patchEndpoint endpointId change
  | .endpointStatus endpointId status, s =>
    match s.endpoints.update 0 (·.id = endpointId) fun e => { e with status } with
    | .error _ => s
    | .ok (_, endpoints) => { s with endpoints }
  | .endpointInsert row, s =>
    match s.endpoints.insert row with
    | .error _ => s
    | .ok endpoints => { s with endpoints }
  | .enqueue endpoint_id source eventId event_type payloadJson now, s =>
    s.enqueue endpoint_id source eventId event_type payloadJson now

end Licensecc.Webhook
