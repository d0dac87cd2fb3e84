-- The rules of webhook endpoints: which URL a webhook may be sent to, and which
-- events an endpoint may receive.
import Licensecc.Device.Policy
import Licensecc.Sql.Table

open Licensecc.Sql

namespace Licensecc.Webhook

/-! ## The destination -/

/-- The parts of `new URL(value)` that the rules read. -/
structure Url where
  protocol : String
  username : String
  password : String
  hostname : String
  href : String

/-- The project and the customer that the `data` of a payload names. -/
structure EventData where
  project : Option String := none
  customer_id : Option String := none

/-- What the platform's parsers give: `new URL`, and `JSON.parse` of a payload with
the two fields of its `data`. A payload without data names nothing. -/
structure Parsers where
  newUrl : String → Option Url
  payloadData : String → EventData

def MAX_WEBHOOK_URL_SIZE : Nat := 2048

def INTERNAL_HOST_SUFFIXES : List String := [".localhost", ".local", ".internal", ".home.arpa"]

/-- `\s` of a regular expression. -/
def whitespace (c : Char) : Bool :=
  (9 ≤ c.toNat && c.toNat ≤ 13) || c.toNat = 0x20 || c.toNat = 0xA0 || c.toNat = 0x1680 ||
    (0x2000 ≤ c.toNat && c.toNat ≤ 0x200A) || c.toNat = 0x2028 || c.toNat = 0x2029 ||
    c.toNat = 0x202F || c.toNat = 0x205F || c.toNat = 0x3000 || c.toNat = 0xFEFF

/-- The parts of a text between the dots. -/
def labels : List Char → List (List Char)
  | [] => [[]]
  | c :: cs =>
    match labels cs with
    | [] => [[c]]
    | label :: rest => if c = '.' then [] :: label :: rest else (c :: label) :: rest

/-- `/^\d{1,3}(\.\d{1,3}){3}$/`. -/
def ipv4Literal (host : List Char) : Bool :=
  (labels host).length = 4 &&
    (labels host).all fun label => 1 ≤ label.length && label.length ≤ 3 && label.all Char.isDigit

def publicHostname (host : List Char) : Bool :=
  if ['.'].isSuffixOf host then false
  else if ['['].isPrefixOf host || ipv4Literal host then false
  else if !host.contains '.' then false
  else !INTERNAL_HOST_SUFFIXES.any fun suffix => suffix.toList.isSuffixOf ('.' :: host)

def safeWebhookUrl (parsers : Parsers) (value : String) : Option String :=
  if utf16Length value = 0 ∨ MAX_WEBHOOK_URL_SIZE < utf16Length value then none
  else if value.toList.contains '\x00' || value.toList.any whitespace then none
  else
    match parsers.newUrl value with
    | none => none
    | some parsed =>
      if parsed.protocol ≠ "https:" ∨ parsed.username ≠ "" ∨ parsed.password ≠ "" then none
      else if publicHostname parsed.hostname.toList then some parsed.href
      else none

/-! ## The scope -/

inductive EventSource where
  | entitlement
  | customer
  | order
  deriving DecidableEq

inductive ScopeKind where
  | global
  | project
  | customer
  deriving DecidableEq

structure Scope where
  scope_kind : ScopeKind
  scope_project : Option String := none
  scope_customer_id : Option String := none
  deriving DecidableEq

def endpointScopeMatches (endpoint : Scope) (source : EventSource) (event : EventData) : Bool :=
  match endpoint.scope_kind with
  | .global => true
  | .project => source ≠ .customer &&
      endpoint.scope_project.any (fun p => p ≠ "" && event.project = some p)
  | .customer => source = .customer &&
      endpoint.scope_customer_id.any (fun c => c ≠ "" && event.customer_id = some c)

/-! ## Rows -/

inductive EndpointStatus where
  | active
  | disabled
  deriving DecidableEq

structure Endpoint extends Scope where
  id : String
  url : String
  status : EndpointStatus

/-- The CHECK on the scope of an endpoint. -/
def Scope.Valid (s : Scope) : Prop :=
  match s.scope_kind, s.scope_project, s.scope_customer_id with
  | .global, none, none => True
  | .project, some p, none => p ≠ ""
  | .customer, none, some c => c ≠ ""
  | _, _, _ => False

instance (s : Scope) : Decidable s.Valid := by
  unfold Scope.Valid
  split <;> infer_instance

instance : Schema Endpoint where
  check e := e.Valid
  clash a b := a.id = b.id
  clash_symm := Eq.symm
  decCheck := fun _ => inferInstance
  decClash := fun _ _ => inferInstance

end Licensecc.Webhook
