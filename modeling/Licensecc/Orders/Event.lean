-- The order events of `POST /v1/orders`.
import Licensecc.Schema.Store

open Licensecc.Sql

namespace Licensecc.Orders

/-! ## Orders -/

structure OrderCustomer (τ : Type) where
  id : τ
  external_ref : Option τ := none
  name : Option τ := none
  email : Option τ := none

/-- A normalized order over the texts of a type. -/
structure OrderOf (τ : Type) where
  event_id : τ
  subscription_id : τ
  order_epoch : Int := 0
  seq : Int
  intent : OrderIntent
  project : τ
  feature : τ
  license_fingerprint : Option τ := none
  current_period_end : Option Int := none
  /-- `quantity.max_active_devices` -/
  quantity : Option Int := none
  customer : OrderCustomer τ
  license_id : Option τ := none
  occurred_at : Option Int := none

abbrev Order := OrderOf String

def DISABLE_INTENTS : List OrderIntent := [.past_due, .paused, .payment_failed]

def REVOKE_INTENTS : List OrderIntent := [.fraud_confirmed, .chargeback]

def WITHDRAWAL_INTENTS : List OrderIntent :=
  .canceled_at_period_end :: DISABLE_INTENTS ++ REVOKE_INTENTS

end Licensecc.Orders
