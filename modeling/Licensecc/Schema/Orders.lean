-- The tables of order ingest: the identity and the cursor of a subscription,
-- its events with their results, and the licenses and addresses that an order
-- claims.
import Licensecc.Grants.Record

open Licensecc.Sql

namespace Licensecc

inductive OrderIntent where
  | active
  | renewed
  | past_due
  | paused
  | payment_failed
  | canceled_at_period_end
  | resumed
  | quantity_changed
  | fraud_confirmed
  | chargeback
  deriving DecidableEq

/-- The text of an intent. -/
def OrderIntent.text : OrderIntent → String
  | active => "subscription.active"
  | renewed => "subscription.renewed"
  | past_due => "subscription.past_due"
  | paused => "subscription.paused"
  | payment_failed => "subscription.payment_failed"
  | canceled_at_period_end => "subscription.canceled_at_period_end"
  | resumed => "subscription.resumed"
  | quantity_changed => "quantity.changed"
  | fraud_confirmed => "fraud.confirmed"
  | chargeback => "chargeback"

inductive FingerprintOrigin where
  | derived
  | supplied

/-- The grant that a subscription is about. -/
structure SubscriptionKey where
  subscription_id : String
  project : String
  feature : String
  deriving DecidableEq

/-- A row of `orders`: the identity of a subscription and its cursor. -/
structure OrderIdentity extends SubscriptionKey where
  license_fingerprint : String
  customer_id : Option String := none
  license_id : Option String := none
  last_seq : Int := -1
  order_epoch : Int := 0
  fingerprint_origin : FingerprintOrigin
  created_at : Int
  updated_at : Int

/-- The grant that a fingerprint of a subscription names. -/
def OrderIdentity.grant (o : OrderIdentity) : EntitlementKey :=
  ⟨o.project, o.feature, o.license_fingerprint⟩

instance : Schema OrderIdentity where
  check _ := True
  clash a b := a.toSubscriptionKey = b.toSubscriptionKey ∨ a.grant = b.grant
  clash_symm := Or.imp Eq.symm Eq.symm
  decCheck := fun _ => inferInstance
  decClash := fun _ _ => inferInstance

/-- The body of an answer to an order. -/
structure OrderResult where
  code : String
  license_fingerprint : Option String := none
  fingerprint_origin : Option FingerprintOrigin := none
  entitlement : Option (Option EntitlementRecord) := none

/-- `resultBody(..).ok`. -/
def OrderResult.ok (r : OrderResult) : Bool :=
  ["applied", "superseded", "no_entitlement", "stale_ignored", "cached"].contains r.code

inductive OrderStatus where
  | accepted
  | processed
  | superseded
  | rejected
  deriving DecidableEq

/-- A row of `order_events`. -/
structure OrderEvent extends SubscriptionKey where
  event_id : String
  order_epoch : Int
  seq : Int
  intent : OrderIntent
  key_id : String
  payload_digest : String
  raw_payload : String
  status : OrderStatus
  result_json : Option OrderResult := none
  received_at : Int
  processed_at : Option Int := none

instance : Schema OrderEvent where
  check _ := True
  clash a b := a.event_id = b.event_id
  clash_symm := Eq.symm
  decCheck := fun _ => inferInstance
  decClash := fun _ _ => inferInstance

/-- A row of `licenses`. -/
structure License where
  id : String
  customer_id : Option String
  project : String
  created_at : Int
  updated_at : Int

instance : Schema License where
  check _ := True
  clash a b := a.id = b.id
  clash_symm := Eq.symm
  decCheck := fun _ => inferInstance
  decClash := fun _ _ => inferInstance

inductive AddressSource where
  | customers
  | portal_passwords
  | portal_identities (provider : String)
  deriving DecidableEq

/-- The address column of a row of `customers`, `portal_passwords` or
`portal_identities`, in lower case. -/
structure AccountAddress where
  source : AddressSource
  customer_id : String
  email : String

instance : Schema AccountAddress where
  check _ := True
  clash a b := (a.source = b.source ∧ a.customer_id = b.customer_id) ∨
    (a.source = .customers ∧ b.source = .customers ∧ a.email = b.email ∧ a.email ≠ "") ∨
    (a.source = .portal_passwords ∧ b.source = .portal_passwords ∧ a.email = b.email)
  clash_symm := by
    rintro a b (⟨hs, hc⟩ | ⟨ha, hb, he, hn⟩ | ⟨ha, hb, he⟩)
    · exact .inl ⟨hs.symm, hc.symm⟩
    · exact .inr (.inl ⟨hb, ha, he.symm, he ▸ hn⟩)
    · exact .inr (.inr ⟨hb, ha, he.symm⟩)
  decCheck := fun _ => inferInstance
  decClash := fun _ _ => inferInstance

end Licensecc
