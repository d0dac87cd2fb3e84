-- The outbox of webhook deliveries: its rows, and the statements that claim one,
-- record what became of it, cancel it and put it back.
import Licensecc.Webhook.Endpoint
import Licensecc.Schema.Grants
import Mathlib.Tactic.IntervalCases

open Licensecc.Sql

namespace Licensecc.Webhook

/-! ## Rows -/

inductive DeliveryStatus where
  | pending
  | delivered
  | failed
  | canceled
  deriving DecidableEq

structure Delivery where
  id : Int
  endpoint_id : String
  event_source : EventSource
  event_id : Int
  event_type : String
  payload_json : String
  status : DeliveryStatus := .pending
  attempts : Nat := 0
  last_status : Int := 0
  last_error : String := ""
  next_attempt_at : Int
  created_at : Int
  delivered_at : Option Int := none

/-- The primary key, and `UNIQUE (endpoint_id, event_source, event_id)`. -/
instance : Schema Delivery where
  check _ := True
  clash a b := a.id = b.id ∨
    a.endpoint_id = b.endpoint_id ∧ a.event_source = b.event_source ∧ a.event_id = b.event_id
  clash_symm := by
    intro a b h
    rcases h with h | ⟨h1, h2, h3⟩
    · exact .inl h.symm
    · exact .inr ⟨h1.symm, h2.symm, h3.symm⟩
  decCheck := fun _ => inferInstance
  decClash := fun _ _ => inferInstance

theorem unique_id {t : Table Delivery} {a b : Delivery} (ha : a ∈ t) (hb : b ∈ t)
    (h : a.id = b.id) : a = b := Table.unique ha hb (.inl h)

/-! ## Times -/

def WEBHOOK_CLAIM_TTL_SECONDS : Int := 60
def WEBHOOK_MAX_ATTEMPTS : Nat := 6
def WEBHOOK_DELIVER_BATCH : Nat := 50
def WEBHOOK_ENDPOINT_CHANGED : String := "endpoint_changed"
def WEBHOOK_INVALID_URL : String := "invalid_url"

def BACKOFF_SCHEDULE_SECONDS : List Int := [30, 120, 600, 3600, 21600]

def nextBackoff (attempts : Nat) : Int :=
  let index := if 0 < attempts then attempts - 1 else 0
  BACKOFF_SCHEDULE_SECONDS.getD (min index (BACKOFF_SCHEDULE_SECONDS.length - 1)) 0

theorem nextBackoff_ge (attempts : Nat) : 30 ≤ nextBackoff attempts := by
  have hshort : min (if 0 < attempts then attempts - 1 else 0) 4 ≤ 4 := Nat.min_le_right ..
  unfold nextBackoff
  dsimp only [BACKOFF_SCHEDULE_SECONDS, List.length]
  generalize min (if 0 < attempts then attempts - 1 else 0) 4 = index at hshort
  interval_cases index <;> decide

/-- One reading of a clock, when it does not throw and gives an integer. -/
abbrev Reading := Option Int

def readWebhookClock (clock : Reading) (notBefore : Int) : Int :=
  match clock with
  | some value => if -maxSafeInteger ≤ value ∧ value ≤ maxSafeInteger ∧ notBefore ≤ value then value
      else notBefore
  | none => notBefore

theorem le_readWebhookClock (clock : Reading) (notBefore : Int) :
    notBefore ≤ readWebhookClock clock notBefore := by
  unfold readWebhookClock
  cases clock with
  | none => exact le_rfl
  | some value =>
    dsimp only
    split_ifs with h
    · exact h.2.2
    · exact le_rfl

/-! ## Statements -/

/-- An `UPDATE ... RETURNING` that has matched a row. -/
def updateReturning (sel : Delivery → Prop) [DecidablePred sel] (set : Delivery → Delivery)
    (t : Table Delivery) : Option (Table Delivery) :=
  match t.update 0 sel set with
  | .ok (0, _) => none
  | .ok (_, t') => some t'
  | .error _ => none

/-- The row of a claim. -/
def Claimable (id dueAt : Int) (d : Delivery) : Prop :=
  d.id = id ∧ d.status = .pending ∧ d.next_attempt_at ≤ dueAt

instance (id dueAt : Int) : DecidablePred (Claimable id dueAt) :=
  fun _ => inferInstanceAs (Decidable (_ ∧ _ ∧ _))

def claimPendingWebhookDelivery (t : Table Delivery) (deliveryId dueAt claimUntil : Int) :
    Option (Table Delivery) :=
  updateReturning (Claimable deliveryId dueAt) (fun d => { d with next_attempt_at := claimUntil }) t

structure Outcome where
  deliveryId : Int
  claimUntil : Int
  now : Int
  ok : Bool
  statusCode : Int
  errorText : String
  attempts : Nat
  terminal : Bool
  retryAt : Option Int

/-- The row of an outcome. Only a delivery that the receiver has acknowledged can
overwrite a cancellation. -/
def Outcome.Selects (o : Outcome) (d : Delivery) : Prop :=
  d.id = o.deliveryId ∧ (d.status = .pending ∨ o.ok = true ∧ d.status = .canceled) ∧
    d.next_attempt_at = o.claimUntil

instance (o : Outcome) : DecidablePred o.Selects :=
  fun _ => inferInstanceAs (Decidable (_ ∧ (_ ∨ _ ∧ _) ∧ _))

def Outcome.set (o : Outcome) (d : Delivery) : Delivery :=
  if o.ok then
    { d with
      status := .delivered, attempts := d.attempts + 1, last_status := o.statusCode,
      last_error := "", delivered_at := some o.now }
  else if o.terminal then
    { d with
      status := .failed, attempts := o.attempts, last_status := o.statusCode,
      last_error := o.errorText }
  else
    { d with
      attempts := o.attempts, last_status := o.statusCode, last_error := o.errorText,
      next_attempt_at := o.retryAt.getD 0 }

def persistWebhookDeliveryOutcome (t : Table Delivery) (outcome : Outcome) :
    Option (Table Delivery) :=
  updateReturning outcome.Selects outcome.set t

/-- The row that a worker cancels. -/
def Held (id claimUntil : Int) (d : Delivery) : Prop :=
  d.id = id ∧ d.status = .pending ∧ d.next_attempt_at = claimUntil

instance (id claimUntil : Int) : DecidablePred (Held id claimUntil) :=
  fun _ => inferInstanceAs (Decidable (_ ∧ _ ∧ _))

/-- The set part of a cancellation. -/
def cancel (d : Delivery) : Delivery :=
  { d with status := .canceled, last_error := WEBHOOK_ENDPOINT_CHANGED }

def cancelOutOfScopeWebhookDelivery (t : Table Delivery) (deliveryId claimUntil : Int) :
    Option (Table Delivery) :=
  updateReturning (Held deliveryId claimUntil) cancel t

/-- The UPDATE of `redriveWebhookDelivery`. -/
def redriveDelivery (t : Table Delivery) (deliveryId now : Int) : Option (Table Delivery) :=
  updateReturning (fun d => d.id = deliveryId ∧ d.status = .failed)
    (fun d => { d with status := .pending, attempts := 0, last_error := "", next_attempt_at := now }) t

/-! ## Destination changes -/

/-- The fields of an endpoint that a PATCH names. -/
structure WebhookDestinationChange where
  url : Option String := none
  scope_kind : Option ScopeKind := none
  scope_project : Option (Option String) := none
  scope_customer_id : Option (Option String) := none

/-- Some named field of the endpoint is not the stored one. -/
def WebhookDestinationChange.Moves (change : WebhookDestinationChange) (e : Endpoint) : Prop :=
  (∃ url ∈ change.url, e.url ≠ url) ∨ (∃ kind ∈ change.scope_kind, e.scope_kind ≠ kind) ∨
    (∃ p ∈ change.scope_project, e.scope_project ≠ p) ∨
    ∃ c ∈ change.scope_customer_id, e.scope_customer_id ≠ c

instance (change : WebhookDestinationChange) (e : Endpoint) : Decidable (change.Moves e) :=
  inferInstanceAs (Decidable (_ ∨ _ ∨ _ ∨ _))

def WebhookDestinationChange.set (change : WebhookDestinationChange) (e : Endpoint) : Endpoint :=
  { e with
    url := change.url.getD e.url
    scope_kind := change.scope_kind.getD e.scope_kind
    scope_project := change.scope_project.getD e.scope_project
    scope_customer_id := change.scope_customer_id.getD e.scope_customer_id }

/-- The rows that a PATCH of an endpoint cancels. -/
def Queued (endpoints : Table Endpoint) (endpointId : String) (change : WebhookDestinationChange)
    (d : Delivery) : Prop :=
  d.endpoint_id = endpointId ∧ (d.status = .pending ∨ d.status = .failed) ∧
    ∃ e ∈ endpoints, e.id = endpointId ∧ change.Moves e

instance (endpoints : Table Endpoint) (endpointId : String) (change : WebhookDestinationChange) :
    DecidablePred (Queued endpoints endpointId change) :=
  fun _ => inferInstanceAs (Decidable (_ ∧ (_ ∨ _) ∧ _))

/-! ## What a statement does -/

section
variable {sel : Delivery → Prop} [DecidablePred sel] {set : Delivery → Delivery}
  {t t' : Table Delivery}

/-- A statement that returns a row has selected one, and sets every row that it
selects. -/
theorem of_updateReturning (h : updateReturning sel set t = some t') :
    (∃ d ∈ t, sel d) ∧ t'.rows = t.rows.map fun d => if sel d then set d else d := by
  unfold updateReturning at h
  split at h
  · cases h
  · rename_i n t'' hn hupd
    obtain rfl := Option.some.inj h
    obtain ⟨-, hcount, hrows⟩ := Table.update_eq_ok.mp hupd
    refine ⟨?_, hrows⟩
    by_contra hno
    apply hn
    rw [hcount]
    exact Table.count_eq_zero.mpr fun d hd hs => hno ⟨d, hd, hs⟩
  · cases h

end

end Licensecc.Webhook
