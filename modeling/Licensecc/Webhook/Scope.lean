-- The scope of a queued delivery. The dispatch reads the project and the customer from
-- the payload, and they are those of the event, whatever the texts in them are.
import Licensecc.Codec.JsonText
import Licensecc.Webhook.Dispatch
import Licensecc.Webhook.Source

open Licensecc.Codec

namespace Licensecc.Webhook

/-! ## Payloads as values -/

/-- The value of a member. Of two members with one name the last counts. -/
def memberOf (name : String) (members : List (JsText × Json.Tree)) : Option Json.Tree :=
  (members.reverse.find? (·.1 = ofChars name.toList)).map (·.2)

/-- The characters of a member that is a text. A text with a lone surrogate is no text of
the database. -/
def textMember (name : String) (members : List (JsText × Json.Tree)) : Option String :=
  match memberOf name members with
  | some (.string s) => (chars? s).map String.ofList
  | _ => none

/-- What the check at the dispatch reads from a payload. -/
def payloadData (payload_json : String) : EventData :=
  match parseJson payload_json.toList with
  | some (.object members) =>
    match memberOf "data" members with
    | some (.object data) =>
      { project := textMember "project" data, customer_id := textMember "customer_id" data }
    | _ => {}
  | _ => {}

section
variable (restate : Json.Tree → Json.Tree)

/-- `JSON.stringify(JSON.parse(value))`, for what the platform makes of the numbers and of
the order of the members. -/
def reparse (value : String) : Option (List Char) :=
  (parseJson value.toList).map fun v => (restate v).stringify

/-- `parseJsonColumn` -/
def columnTree (value : String) : Json.Tree :=
  if value = "" then .null else ((parseJson value.toList).map restate).getD .null

def textTree (s : String) : Json.Tree := .string (ofChars s.toList)

/-- A number of the database. -/
def numberTree (n : Int) : Json.Tree := .number ⟨numberText n, isNumberToken_numberText n⟩

def SourceData.members : SourceData → List (String × Json.Tree)
  | entitlement row => [
      ("project", textTree row.project),
      ("feature", textTree row.feature),
      ("license_fingerprint", textTree row.license_fingerprint),
      ("status", textTree row.status),
      ("detail", textTree row.detail),
      ("prev", columnTree restate row.prev_json),
      ("next", columnTree restate row.next_json)]
  | customer row => [
      ("customer_id", textTree row.customer_id),
      ("prev_status", textTree row.prev_status),
      ("next_status", textTree row.next_status)]
  | order row => [
      ("order_event_id", textTree row.order_event_id),
      ("subscription_id", textTree row.subscription_id),
      ("project", textTree row.project),
      ("feature", textTree row.feature),
      ("status", textTree (OrderStatus.text row.status)),
      ("result", columnTree restate row.result_json)]

/-- An object with names of the service. -/
def objectTree (fields : List (String × Json.Tree)) : Json.Tree :=
  .object (fields.map fun f => (ofChars f.1.toList, f.2))

def payloadTree (source : EventSource) (row : SourceRow) : Json.Tree :=
  objectTree [
    ("id", numberTree row.event_id),
    ("type", textTree row.event_type),
    ("source", textTree source.text),
    ("occurred_at", numberTree row.occurred_at),
    ("data", objectTree (row.data.members restate))]

variable {restate}

theorem stringify_textTree (s : String) : (textTree s).stringify = quote s.toList := by
  unfold textTree JsonValue.stringify
  exact quoteText_ofChars s.toList

/-- A column of JSON is written as its value is. -/
theorem parsedColumn_reparse (value : String) :
    parsedColumn (reparse restate) value = (columnTree restate value).stringify := by
  unfold parsedColumn columnTree reparse
  split
  · rfl
  · cases parseJson value.toList with
    | none => rfl
    | some v => rfl

theorem stringify_objectTree (fields : List (String × Json.Tree)) :
    (objectTree fields).stringify = objectText (fields.map fun f => (f.1, f.2.stringify)) := by
  have hmember : ∀ f : String × Json.Tree, memberText (ofChars f.1.toList, f.2) =
      quote f.1.toList ++ ':' :: f.2.stringify := by
    intro f
    rw [memberText, quoteText_ofChars]
  unfold objectTree objectText
  cases fields with
  | nil => rfl
  | cons f fields =>
    simp only [List.map_cons, JsonValue.stringify, hmember]
    induction fields generalizing f with
    | nil => simp [membersText]
    | cons g fields ih =>
      have hrest := (List.cons.inj (ih g)).2
      simp only [List.map_cons, membersText, hmember, hrest, List.intercalate_cons_cons]
      simp

theorem fields_reparse (data : SourceData) :
    data.fields (reparse restate) = (data.members restate).map fun f => (f.1, f.2.stringify) := by
  cases data with
  | entitlement row =>
    simp only [SourceData.fields, SourceData.members, List.map_cons, List.map_nil,
      stringify_textTree, parsedColumn_reparse]
  | customer row =>
    simp only [SourceData.fields, SourceData.members, List.map_cons, List.map_nil,
      stringify_textTree]
  | order row =>
    simp only [SourceData.fields, SourceData.members, List.map_cons, List.map_nil,
      stringify_textTree, parsedColumn_reparse]

/-- The payload is the text of a value. -/
theorem buildWebhookPayload_reparse (source : EventSource) (row : SourceRow) :
    buildWebhookPayload (reparse restate) source row =
      String.ofList (payloadTree restate source row).stringify := by
  have hnumber : ∀ n, (numberTree n).stringify = numberText n := by
    intro n
    unfold numberTree
    rw [JsonValue.stringify]
  unfold buildWebhookPayload payloadTree
  rw [stringify_objectTree]
  simp only [List.map_cons, List.map_nil, hnumber, stringify_textTree, stringify_objectTree,
    fields_reparse]

/-! ## What the dispatch reads -/

theorem memberOf_fields (name : String) (fields : List (String × Json.Tree)) :
    memberOf name (fields.map fun f => (ofChars f.1.toList, f.2)) =
      (fields.reverse.find? (·.1 = name)).map (·.2) := by
  have hname : ∀ f : String × Json.Tree, decide (ofChars f.1.toList = ofChars name.toList) =
      decide (f.1 = name) := by
    intro f
    rw [decide_eq_decide]
    constructor
    · intro h
      exact String.toList_injective (ofChars_injective h)
    · intro h
      rw [h]
  unfold memberOf
  rw [← List.map_reverse, List.find?_map]
  simp only [Function.comp_def, hname, Option.map_map]

/-- The dispatch reads the project and the customer of the event. -/
theorem payloadData_payload (source : EventSource) (row : SourceRow) :
    payloadData (buildWebhookPayload (reparse restate) source row) = row.data.eventData := by
  rw [buildWebhookPayload_reparse]
  unfold payloadData
  rw [String.toList_ofList, parseJson_stringify]
  have hdata : memberOf "data" ((([
      ("id", numberTree row.event_id),
      ("type", textTree row.event_type),
      ("source", textTree source.text),
      ("occurred_at", numberTree row.occurred_at),
      ("data", objectTree (row.data.members restate))] : List (String × Json.Tree))).map
        fun f => (ofChars f.1.toList, f.2)) = some (objectTree (row.data.members restate)) := by
    rw [memberOf_fields]
    rfl
  unfold payloadTree objectTree at *
  simp only [hdata]
  cases hrow : row.data with
  | entitlement e =>
    simp only [textMember, memberOf_fields, SourceData.members, SourceData.eventData]
    simp [textTree, chars?_ofChars]
  | customer c =>
    simp only [textMember, memberOf_fields, SourceData.members, SourceData.eventData]
    simp [textTree, chars?_ofChars]
  | order o =>
    simp only [textMember, memberOf_fields, SourceData.members, SourceData.eventData]
    simp [textTree, chars?_ofChars]

end

end Licensecc.Webhook
