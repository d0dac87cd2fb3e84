-- The events that webhooks report: the rows of the three audit tables, which endpoints
-- want an event, and the payload that tells it.
import Licensecc.Codec.JsNumber
import Licensecc.Schema.Orders
import Licensecc.Sql.Rowid
import Licensecc.Webhook.Endpoint
import Mathlib.Data.List.SplitOn

open Licensecc.Codec Licensecc.Sql

namespace Licensecc.Webhook

/-! ## Rows -/

structure EntitlementSource where
  project : String
  feature : String
  license_fingerprint : String
  status : String
  detail : String
  prev_json : String
  next_json : String
  deriving DecidableEq

structure CustomerSource where
  customer_id : String
  prev_status : String
  next_status : String
  deriving DecidableEq

structure OrderSource where
  order_event_id : String
  subscription_id : String
  project : String
  feature : String
  status : OrderStatus
  result_json : String
  deriving DecidableEq

/-- What the SELECT of a source gives next to the columns that all sources share. -/
inductive SourceData where
  | entitlement (row : EntitlementSource)
  | customer (row : CustomerSource)
  | order (row : OrderSource)
  deriving DecidableEq

structure SourceColumns where
  event_type : String
  occurred_at : Int
  data : SourceData
  deriving DecidableEq

/-- A row of `SOURCE_SELECT`. The id of an order event is its `rowid`. -/
structure SourceRow extends SourceColumns where
  event_id : Int
  deriving DecidableEq

instance : Rowid SourceRow := ⟨SourceRow.event_id⟩

/-- The project and the customer of an event. -/
def SourceData.eventData : SourceData → EventData
  | entitlement row => { project := some row.project }
  | customer row => { customer_id := some row.customer_id }
  | order row => { project := some row.project }

/-! ## Endpoints -/

/-- An endpoint with its filter of event types. -/
structure WebhookEndpoint extends Endpoint where
  event_types : String := ""

instance : Schema WebhookEndpoint where
  check e := e.Valid
  clash a b := a.id = b.id
  clash_symm := Eq.symm
  decCheck := fun _ => inferInstance
  decClash := fun _ _ => inferInstance

/-- `s.trim()`. -/
def trim (s : List Char) : List Char := (s.dropWhile whitespace).rdropWhile whitespace

def eventTypeMatches (filterCsv eventType : String) : Bool :=
  if trim filterCsv.toList = [] then true
  else
    let allow := ((filterCsv.toList.splitOn ',').map trim).filter (· ≠ [])
    if allow = [] then true else allow.contains eventType.toList

/-- The endpoint wants the event: its filter and its scope admit it. -/
def WebhookEndpoint.wants (endpoint : WebhookEndpoint) (source : EventSource) (row : SourceRow) :
    Bool :=
  eventTypeMatches endpoint.event_types row.event_type &&
    endpointScopeMatches endpoint.toScope source row.data.eventData

/-! ## Payloads -/

/-- The text of an object, for the texts of its values. -/
def objectText (fields : List (String × List Char)) : List Char :=
  '{' :: List.intercalate [','] (fields.map fun f => quote f.1.toList ++ ':' :: f.2) ++ ['}']

def EventSource.text : EventSource → String
  | entitlement => "entitlement"
  | customer => "customer"
  | order => "order"

/-- The text of a status. -/
def OrderStatus.text : OrderStatus → String
  | .accepted => "accepted"
  | .processed => "processed"
  | .superseded => "superseded"
  | .rejected => "rejected"

section
variable (reparse : String → Option (List Char))

/-- `parseJsonColumn` as `JSON.stringify` writes it again, for the platform's parser. -/
def parsedColumn (value : String) : List Char :=
  if value = "" then "null".toList else (reparse value).getD "null".toList

def SourceData.fields : SourceData → List (String × List Char)
  | entitlement row => [
      ("project", quote row.project.toList),
      ("feature", quote row.feature.toList),
      ("license_fingerprint", quote row.license_fingerprint.toList),
      ("status", quote row.status.toList),
      ("detail", quote row.detail.toList),
      ("prev", parsedColumn reparse row.prev_json),
      ("next", parsedColumn reparse row.next_json)]
  | customer row => [
      ("customer_id", quote row.customer_id.toList),
      ("prev_status", quote row.prev_status.toList),
      ("next_status", quote row.next_status.toList)]
  | order row => [
      ("order_event_id", quote row.order_event_id.toList),
      ("subscription_id", quote row.subscription_id.toList),
      ("project", quote row.project.toList),
      ("feature", quote row.feature.toList),
      ("status", quote (OrderStatus.text row.status).toList),
      ("result", parsedColumn reparse row.result_json)]

/-- `JSON.stringify(buildWebhookPayload(source, row))`. -/
def buildWebhookPayload (source : EventSource) (row : SourceRow) : String :=
  String.ofList <| objectText [
    ("id", numberText row.event_id),
    ("type", quote row.event_type.toList),
    ("source", quote source.text.toList),
    ("occurred_at", numberText row.occurred_at),
    ("data", objectText (row.data.fields reparse))]

/-- The payload of an order event tells its status. -/
theorem payload_status {reparse : String → Option (List Char)} {type : String} {occurred_at id : Int}
    {o : OrderSource} {status status' : OrderStatus} {result result' : String}
    (h : buildWebhookPayload reparse .order
        ⟨⟨type, occurred_at, .order { o with status := status, result_json := result }⟩, id⟩ =
      buildWebhookPayload reparse .order
        ⟨⟨type, occurred_at, .order { o with status := status', result_json := result' }⟩, id⟩) :
    status = status' := by
  have htext := String.ofList_injective h
  simp only [objectText, SourceData.fields, List.map_cons, List.map_nil,
    List.intercalate_cons_cons, List.intercalate_singleton, List.cons_append, List.append_assoc,
    List.cons.injEq, true_and, List.append_cancel_left_eq, List.nil_append] at htext
  have hquote := (quote_cancel htext).1
  revert hquote
  cases status <;> cases status' <;> decide

end

end Licensecc.Webhook
