-- The config tokens of the library: their payload, the checks on their claims
-- and the verifier of their envelope.
import Licensecc.Token.SignedToken

open Licensecc.Codec Licensecc.Protocol

namespace Licensecc.Token

def kEnvelopePrefix : String := "lcccfg1"

def kPurpose : Bytes := bytesOf "licensecc-config-attestation".toList

def kVersion : Bytes := bytesOf "1".toList

def kConfigSignatureVersion : Nat := 9002

def kIssuedAtFutureSkewSeconds : UInt64 := 300

inductive ConfigVerifyFailure where
  | None
  | Envelope
  | Signature
  | Metadata
  | Binding
  | HashMismatch
  | Expired
  | Rollback
  deriving DecidableEq

structure ConfigAttestationClaims where
  purpose : Bytes
  version : Bytes
  algorithm : Bytes
  key_id : Bytes
  project : Bytes
  feature : Bytes
  license_fingerprint : Bytes
  device_hash : Bytes
  config_id : Bytes
  config_seq : UInt64
  config_hash : Bytes
  issued_at : UInt64
  expires_at : UInt64
  deriving DecidableEq

structure ConfigAttestationExpected where
  project : Bytes
  feature : Bytes
  license_fingerprint : Bytes
  device_hash : Bytes
  config_bytes : Bytes
  now_epoch_seconds : UInt64
  min_config_seq : UInt64
  trusted_public_keys : List SignaturePublicKey

/-- What the library has at run time: the clock, the keys that a test has set,
and the keys that the build has embedded. -/
structure Environment where
  now_epoch_seconds : UInt64
  override : List SignaturePublicKey
  config_attestation_public_key_ring : List SignaturePublicKey
  config_attestation_retired_key_ids : List Bytes

def config_signature_policy (env : Environment) (expected : ConfigAttestationExpected) :
    SignatureVerificationPolicy :=
  let trusted :=
    if expected.trusted_public_keys = [] then env.override else expected.trusted_public_keys
  let embedded := trusted = []
  let public_keys := if embedded then env.config_attestation_public_key_ring else trusted
  { license_version := kConfigSignatureVersion
    allowed_algorithms := [LCC_SIGNATURE_ALGORITHM_RSA_PKCS1_SHA256]
    allowed_key_ids := public_keys.map (·.key_id)
    retired_key_ids := if embedded then env.config_attestation_retired_key_ids else []
    public_keys := public_keys
    allow_external_public_key_der := false
    min_public_key_bits := 3072 }

/-! ## The payload -/

/-- The keys of the lines, in their order. -/
def payloadFields : List String := ["purpose", "version", "alg", "key-id", "project", "feature",
  "license-fingerprint", "device-hash", "config-id", "config-seq", "config-hash", "issued-at",
  "expires-at"]

/-- The claims of the values of the lines. -/
def claimsOfValues : List Bytes → Option ConfigAttestationClaims
  | [purpose, version, algorithm, key_id, project, feature, license_fingerprint, device_hash,
      config_id, config_seq, config_hash, issued_at, expires_at] => do
    let config_seq ← parse_uint64 config_seq
    let issued_at ← parse_uint64 issued_at
    let expires_at ← parse_uint64 expires_at
    return ⟨purpose, version, algorithm, key_id, project, feature, license_fingerprint, device_hash,
      config_id, config_seq, config_hash, issued_at, expires_at⟩
  | _ => none

def parse_canonical_payload (payload : Bytes) : Except String ConfigAttestationClaims :=
  if payload = [] ∨ payload.getLast? ≠ some (byte '\n') ∨ byte '\r' ∈ payload then
    .error "config token payload is not canonical"
  else do
    let values ← parse_fields_in_order payload payloadFields "config token" false
    match claimsOfValues values with
    | none => throw "config token integer field malformed"
    | some claims => return claims

/-- The lines of the claims, unless one of them has no line. -/
def configPayload (claims : ConfigAttestationClaims) : Option Bytes := do
  let out ← append_claim_line [] "purpose" claims.purpose
  let out ← append_claim_line out "version" claims.version
  let out ← append_claim_line out "alg" claims.algorithm
  let out ← append_claim_line out "key-id" claims.key_id
  let out ← append_claim_line out "project" claims.project
  let out ← append_claim_line out "feature" claims.feature
  let out ← append_claim_line out "license-fingerprint" claims.license_fingerprint
  let out ← append_claim_line out "device-hash" claims.device_hash
  let out ← append_claim_line out "config-id" claims.config_id
  let out ← append_uint_claim_line out "config-seq" claims.config_seq
  let out ← append_claim_line out "config-hash" claims.config_hash
  let out ← append_uint_claim_line out "issued-at" claims.issued_at
  append_uint_claim_line out "expires-at" claims.expires_at

/-- The empty text says that a claim has no line. -/
def build_canonical_config_payload (claims : ConfigAttestationClaims) : Bytes :=
  (configPayload claims).getD []

def build_config_envelope (payload signature_base64 : Bytes) : Bytes :=
  build_envelope kEnvelopePrefix payload signature_base64

/-! ## The verifier -/

/-- A time of zero stands for the clock. -/
def effectiveNow (env : Environment) (expected : ConfigAttestationExpected) : UInt64 :=
  if expected.now_epoch_seconds = 0 then env.now_epoch_seconds else expected.now_epoch_seconds

def validate_claims (env : Environment) (claims : ConfigAttestationClaims)
    (expected : ConfigAttestationExpected) : Except (ConfigVerifyFailure × String) Unit :=
  let now := effectiveNow env expected
  if claims.purpose ≠ kPurpose ∨ claims.version ≠ kVersion ∨
      claims.algorithm ≠ LCC_SIGNATURE_ALGORITHM_RSA_PKCS1_SHA256 then
    .error (.Metadata, "config token metadata mismatch")
  else if claims.project ≠ expected.project ∨ claims.feature ≠ expected.feature ∨
      claims.license_fingerprint ≠ expected.license_fingerprint ∨
      claims.device_hash ≠ expected.device_hash then
    .error (.Binding, "config token request binding mismatch")
  else if claims.config_hash ≠ bytesOf "sha256:".toList ++ signature_sha256_hex expected.config_bytes
  then .error (.HashMismatch, "config token hash does not match config bytes")
  else if now + kIssuedAtFutureSkewSeconds < claims.issued_at then
    .error (.Expired, "config token issued in the future")
  else if claims.expires_at = 0 then .error (.Expired, "config token has no expiry")
  else if claims.expires_at < claims.issued_at ∨ claims.expires_at < now then
    .error (.Expired, "config token expired")
  else if claims.config_seq < expected.min_config_seq then
    .error (.Rollback, "config token sequence is below the minimum")
  else .ok ()

theorem ite_error_eq_ok {ε α : Type} {c : Prop} [Decidable c] {e : ε} {r : Except ε α} {a : α} :
    (if c then .error e else r) = .ok a ↔ ¬ c ∧ r = .ok a := by
  by_cases h : c
  · simp [h]
  · simp [h]

/-- What the claims of a token that is taken have passed. -/
theorem validate_claims_ok {env : Environment} {claims : ConfigAttestationClaims}
    {expected : ConfigAttestationExpected} : validate_claims env claims expected = .ok () ↔
      (claims.purpose = kPurpose ∧ claims.version = kVersion ∧
        claims.algorithm = LCC_SIGNATURE_ALGORITHM_RSA_PKCS1_SHA256) ∧
      (claims.project = expected.project ∧ claims.feature = expected.feature ∧
        claims.license_fingerprint = expected.license_fingerprint ∧
        claims.device_hash = expected.device_hash) ∧
      claims.config_hash = bytesOf "sha256:".toList ++ signature_sha256_hex expected.config_bytes ∧
      claims.issued_at ≤ effectiveNow env expected + kIssuedAtFutureSkewSeconds ∧
      claims.expires_at ≠ 0 ∧ claims.issued_at ≤ claims.expires_at ∧
      effectiveNow env expected ≤ claims.expires_at ∧
      expected.min_config_seq ≤ claims.config_seq := by
  unfold validate_claims
  simp only [ite_error_eq_ok, not_or, not_not, ne_eq, UInt64.not_lt, and_assoc, and_true]

section
variable (rsaVerify : Bytes → Bytes → Bytes → Bool)

def verify_config_envelope (env : Environment) (token : Bytes)
    (expected : ConfigAttestationExpected) :
    Except (ConfigVerifyFailure × String) ConfigAttestationClaims :=
  match split_envelope token kEnvelopePrefix "config token" with
  | .error error => .error (.Envelope, error)
  | .ok (payload_b64, signature_b64) =>
    let payload := unbase64 payload_b64
    let signature := unbase64 signature_b64
    if payload = [] ∨ signature = [] then
      .error (.Envelope, "config token decoded payload or signature is empty")
    else
      match verify_payload_signature rsaVerify payload signature payload kConfigSignatureVersion
          (config_signature_policy env expected) "config token" with
      | .error error => .error (.Signature, error)
      | .ok () =>
        match parse_canonical_payload payload with
        | .error error => .error (.Envelope, error)
        | .ok claims =>
          match validate_claims env claims expected with
          | .error failure => .error failure
          | .ok () => .ok claims

end

end Licensecc.Token
