-- The public form of an entitlement, and the audit row that every write of an
-- entitlement leaves. The id of an entitlement is the text of its key, so
-- two grants never share an id.
import Licensecc.Schema.Grants
import Licensecc.Codec.Base64
import Licensecc.Codec.Json

open Licensecc.Sql Licensecc.Codec

namespace Licensecc

/-! ## Records -/

inductive LicenseMode where
  | trial
  | node_locked
  deriving DecidableEq

/-- A grant is protected, so it is a trial or node-locked. -/
def effectiveLicenseMode (is_trial : Int) : LicenseMode :=
  if is_trial = 1 then .trial else .node_locked

/-- `entitlementId`: the key as JSON, in base64url without padding. -/
def entitlementId (key : EntitlementKey) : List Char :=
  encode64 urlAlphabet <| utf8 <| stringify
    [.string key.project.toList, .string key.feature.toList, .string key.license_fingerprint.toList]

/-- `ENTITLEMENT_COLUMNS` of a row with what `withId` adds. -/
structure EntitlementRecord extends EntitlementKey where
  status : EntitlementStatus
  revocation_seq : Int
  valid_from : Option Int
  valid_until : Option Int
  notes : String
  customer_id : String
  license_id : Option String
  policy_id : Option String
  is_trial : Int
  trial_expiration_basis : Option String
  trial_duration_sec : Int
  trial_one_per_device : Int
  trial_started_at : Option Int
  trial_device_key_id : Option String
  max_active_devices : Int
  lease_seconds : Int
  created_at : Int
  updated_at : Int
  license_mode : LicenseMode
  id : List Char
  deriving DecidableEq

def withId (e : Entitlement) : EntitlementRecord where
  toEntitlementKey := e.toEntitlementKey
  status := e.status
  revocation_seq := e.revocation_seq
  valid_from := e.valid_from
  valid_until := e.valid_until
  notes := e.notes
  customer_id := e.customer_id
  license_id := e.license_id
  policy_id := e.policy_id
  is_trial := e.is_trial
  trial_expiration_basis := e.trial_expiration_basis
  trial_duration_sec := e.trial_duration_sec
  trial_one_per_device := e.trial_one_per_device
  trial_started_at := e.trial_started_at
  trial_device_key_id := e.trial_device_key_id
  max_active_devices := e.max_active_devices
  lease_seconds := e.lease_seconds
  created_at := e.created_at
  updated_at := e.updated_at
  license_mode := effectiveLicenseMode e.is_trial
  id := entitlementId e.toEntitlementKey

theorem entitlementId_injective {a b : EntitlementKey} (h : entitlementId a = entitlementId b) :
    a = b := by
  have htext := stringify_injective (utf8_injective
    (encode64_injective urlAlphabet_nodup (by decide) h))
  simp only [List.cons.injEq, Json.string.injEq, and_true, String.toList_inj] at htext
  exact EntitlementKey.ext htext.1 htext.2.1 htext.2.2

/-! ## Who asks -/

inductive ActorType where
  | access
  | dev
  | sync
  deriving DecidableEq

structure Actor where
  subject : String
  email : String
  actorType : ActorType

/-- `ctx.actor.email || ctx.actor.subject`. -/
def Actor.name (a : Actor) : String := if a.email = "" then a.subject else a.email

inductive MutationSource where
  | admin
  | sync
  deriving DecidableEq

/-- The owner and the revocation sequence that a caller has observed. -/
structure Expectation where
  customer_id : String
  revocation_seq : Int

structure MutationContext where
  requestId : String
  actor : Actor
  ip : String := ""
  idempotencyKey : Option String := none
  source : MutationSource := .admin
  expectedEntitlement : Option Expectation := none

/-! ## Audit rows -/

inductive EventType where
  | create
  | update
  | disable
  | reenable
  | revoke

/-- The fields of an entitlement in the audit row of an order. -/
structure OrderSnapshot extends EntitlementKey where
  status : EntitlementStatus
  revocation_seq : Int
  valid_from : Option Int
  valid_until : Option Int
  max_active_devices : Int
  id : List Char

def orderSnapshot (e : Entitlement) : OrderSnapshot where
  toEntitlementKey := e.toEntitlementKey
  status := e.status
  revocation_seq := e.revocation_seq
  valid_from := e.valid_from
  valid_until := e.valid_until
  max_active_devices := e.max_active_devices
  id := entitlementId e.toEntitlementKey

/-- The document of `next_json`. -/
inductive NextJson where
  | record (r : EntitlementRecord)
  | order (s : OrderSnapshot)

structure EntitlementEvent extends EntitlementKey where
  event_type : EventType
  status : EntitlementStatus
  revocation_seq : Int
  detail : String
  actor : String
  actor_type : ActorType
  source : MutationSource
  request_id : String
  ip : String
  prev_json : Option EntitlementRecord
  next_json : NextJson
  reason : String
  idempotency_key : Option String
  created_at : Int

end Licensecc
