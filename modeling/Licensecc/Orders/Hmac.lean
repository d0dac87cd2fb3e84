-- The check of a signed order request: its key, its time and its HMAC over the exact
-- bytes of the body.
import Licensecc.Schema.Grants
import Licensecc.Webhook.Signature

open Licensecc.Codec Licensecc.Webhook

namespace Licensecc.Orders

/-! ## Configuration -/

/-- The bindings that the check reads. The skew is what `Number` makes of its binding, unless
it is missing. -/
structure OrderEnv where
  ORDER_HMAC_SECRETS : Option SecretMap
  ORDER_INGEST_AUDIENCE : Option JsText
  ORDER_MAX_SKEW_SECONDS : Option (Option Int)

def DEFAULT_MAX_SKEW_SECONDS : Int := 300
def MAX_SKEW_CAP_SECONDS : Int := 3600

def clampMaxSkew (rawValue : Option (Option Int)) : Int :=
  match rawValue with
  | some (some parsed) =>
    if parsed ≤ 0 then DEFAULT_MAX_SKEW_SECONDS else min parsed MAX_SKEW_CAP_SECONDS
  | _ => DEFAULT_MAX_SKEW_SECONDS

theorem clampMaxSkew_pos (rawValue : Option (Option Int)) : 0 < clampMaxSkew rawValue := by
  unfold clampMaxSkew
  split
  · split
    · decide
    · have : MAX_SKEW_CAP_SECONDS = 3600 := rfl
      omega
  · decide

/-! ## Requests -/

/-- The headers of a request, and its body. -/
structure OrderRequest where
  keyId : Option JsText
  timestamp : Option JsText
  signature : Option JsText
  body : Bytes

inductive HmacFailure where
  | config_error
  | unknown_key_id
  | stale_timestamp
  | bad_signature

/-- What a signature covers, and the signature. -/
structure SignedRequest where
  timestamp : JsText
  body : Bytes
  signature : Bytes
  deriving DecidableEq

/-- A request that has passed the check. -/
structure Verified where
  keyId : JsText
  request : SignedRequest

def SIGNED_PREFIX : JsText := jsText "POST\n/v1/orders\n".toList

def canonicalOrderSignedText (audience timestamp bodyText : JsText) : JsText :=
  SIGNED_PREFIX ++ audience ++ unit '\n' :: timestamp ++ unit '\n' :: bodyText

/-- The bytes of the framing, and those of the body as they came. -/
def canonicalOrderSignedBytes (audience timestamp : JsText) (bodyBytes : Bytes) : Bytes :=
  encode (canonicalOrderSignedText audience timestamp []) ++ bodyBytes

def canonicalIntTimestamp (headerValue : JsText) : Option Int :=
  (readTime headerValue).filter fun n => 0 ≤ n ∧ n ≤ maxSafeInteger

section
variable (H : Hmac) (atob : JsText → Option Bytes) (env : OrderEnv)

/-- The secret of the key signs the request. -/
def Signs (secretBytes : Bytes) (audience : JsText) (q : SignedRequest) : Prop :=
  H.sign secretBytes (canonicalOrderSignedBytes audience q.timestamp q.body) = q.signature

instance (secretBytes : Bytes) (audience : JsText) (q : SignedRequest) :
    Decidable (Signs H secretBytes audience q) := inferInstanceAs (Decidable (_ = _))

def verifyOrderHmac (request : OrderRequest) (now : Int) : Except HmacFailure Verified :=
  match env.ORDER_HMAC_SECRETS with
  | none => .error .config_error
  | some secretMap =>
  match env.ORDER_INGEST_AUDIENCE.filter (· ≠ []) with
  | none => .error .config_error
  | some audience =>
  match request.keyId.filter (· ≠ []) with
  | none => .error .unknown_key_id
  | some keyId =>
  match lookupSecret secretMap keyId with
  | none => .error .unknown_key_id
  | some secretBytes =>
  match request.timestamp with
  | none => .error .stale_timestamp
  | some timestamp =>
  match canonicalIntTimestamp timestamp with
  | none => .error .stale_timestamp
  | some value =>
  if |now - value| > clampMaxSkew env.ORDER_MAX_SKEW_SECONDS then .error .stale_timestamp
  else
  match (request.signature.filter (· ≠ [])).bind atob with
  | none => .error .bad_signature
  | some signatureBytes =>
  let signed : SignedRequest := ⟨timestamp, request.body, signatureBytes⟩
  if Signs H secretBytes audience signed then .ok ⟨keyId, signed⟩ else .error .bad_signature

/-- The key signs the request. -/
def SignedBy (keyId : JsText) (q : SignedRequest) : Prop :=
  ∃ secretMap audience secretBytes, env.ORDER_HMAC_SECRETS = some secretMap ∧
    env.ORDER_INGEST_AUDIENCE = some audience ∧ lookupSecret secretMap keyId = some secretBytes ∧
    Signs H secretBytes audience q

variable {H atob env} {request : OrderRequest} {now : Int} {v : Verified}

/-- What a request that passes the check has. -/
theorem of_verifyOrderHmac (h : verifyOrderHmac H atob env request now = .ok v) :
    SignedBy H env v.keyId v.request ∧
      ∃ value, canonicalIntTimestamp v.request.timestamp = some value ∧
        |now - value| ≤ clampMaxSkew env.ORDER_MAX_SKEW_SECONDS := by
  unfold verifyOrderHmac at h
  split at h
  · cases h
  rename_i secretMap hmap
  split at h
  · cases h
  rename_i audience haudience
  split at h
  · cases h
  rename_i keyId hkey
  split at h
  · cases h
  rename_i secretBytes hsecret
  split at h
  · cases h
  rename_i timestamp htimestamp
  split at h
  · cases h
  rename_i value hvalue
  split at h
  · cases h
  rename_i hskew
  split at h
  · cases h
  rename_i signatureBytes hsignature
  dsimp only at h
  split at h
  · rename_i hsigns
    obtain rfl := Except.ok.inj h
    refine ⟨⟨secretMap, audience, secretBytes, hmap, ?_, hsecret, hsigns⟩, value, hvalue, by omega⟩
    exact (Option.filter_eq_some_iff.mp haudience).1
  · cases h

end

end Licensecc.Orders
