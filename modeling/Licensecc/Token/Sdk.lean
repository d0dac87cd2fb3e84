-- The verifier of config tokens in the Python SDK. A string is the list of its
-- characters, and a number has no bound but that of its check.
import Licensecc.Failure
import Licensecc.Codec.Fields
import Licensecc.Protocol.Script
import Licensecc.Token.SignatureVerifier

open Licensecc.Codec Licensecc.Protocol

namespace Licensecc.Token.Sdk

/-! ## Results -/

inductive RejectionCode where
  | ENVELOPE_MALFORMED
  | PREFIX_MISMATCH
  | BASE64_NOT_CANONICAL
  | EMPTY_PAYLOAD_OR_SIGNATURE
  | UNKNOWN_KEY_ID
  | RETIRED_KEY_ID
  | SIGNATURE_INVALID
  | KEY_TOO_WEAK
  | MISSING_SIGNATURE_METADATA
  | PAYLOAD_NOT_CANONICAL
  | FIELD_MISSING
  | FIELD_UNEXPECTED
  | TRAILING_FIELDS
  | INVALID_FIELD_VALUE
  | INTEGER_FIELD_MALFORMED
  | METADATA_MISMATCH
  | BINDING_MISMATCH
  | EXPIRED
  | ROLLBACK_BELOW_FLOOR
  | CONFIG_HASH_MISMATCH
  | NO_EXPIRY

/-- A part of a formatted text: a text, the `repr` of a value, or a number. -/
inductive Detail where
  | text (s : String)
  | repr (value : List Char)
  | number (n : Nat)

/-- How a verification ends when it accepts nothing: with a typed rejection, or with an
exception. -/
inductive Stop where
  | rejected (code : RejectionCode) (detail : List Detail)
  | raised (exception : String)

def reject (code : RejectionCode) (detail : String) : Stop := .rejected code [.text detail]

structure ConfigAttestationClaims where
  purpose : List Char
  version : List Char
  algorithm : List Char
  key_id : List Char
  project : List Char
  feature : List Char
  license_fingerprint : List Char
  device_hash : List Char
  config_id : List Char
  config_seq : Nat
  config_hash : List Char
  issued_at : Nat
  expires_at : Nat

/-! ## base64 -/

def encode_std (data : Bytes) : List Char := btoa data

/-- `base64.b64decode(text, validate=True)`, of a text whose padding was checked. -/
def b64decode (text : List Char) : Option Bytes :=
  (digits64 standardAlphabet (text.rdropWhile (· = '='))).bind octets

/-- The text without its padding, which is at most two signs. -/
def bodyOf (text : List Char) : List Char :=
  if text.reverse.take 2 = ['=', '='] then text.take (text.length - 2)
  else if text.getLast? = some '=' then text.take (text.length - 1)
  else text

def is_canonical_standard_b64 (text : List Char) : Bool :=
  if text = [] ∨ text.contains '\n' ∨ text.contains '\r' ∨ text.length % 4 ≠ 0 then false
  else if (bodyOf text).contains '=' ∨ ¬ (bodyOf text).all standardAlphabet.contains then false
  else
    match b64decode text with
    | none => false
    | some decoded => decoded ≠ [] && encode_std decoded = text

def decode_std_canonical (text : List Char) : Option Bytes :=
  if is_canonical_standard_b64 text = false then none
  else
    match b64decode text with
    | none => none
    | some decoded => if decoded = [] then none else some decoded

/-! ## Public keys -/

def read_len (der : Bytes) (off : Nat) : Option (Nat × Nat) :=
  if der.length ≤ off then none
  else
    let first := (der.getD off 0).toNat
    let off := off + 1
    if first &&& 0x80 = 0 then some (first, off)
    else
      let num := first &&& 0x7f
      if num = 0 ∨ 8 < num ∨ der.length < off + num then none
      else if der.getD off 0 = 0 then none
      else
        let value := beNat ((der.drop off).take num)
        if value ≤ 0x7f then none else some (value, off + num)

def read_integer (der : Bytes) (off : Nat) : Option (Nat × Nat) :=
  if der.length ≤ off ∨ der.getD off 0 ≠ 0x02 then none
  else do
    let (length, off) ← read_len der (off + 1)
    if length = 0 ∨ der.length < off + length then none
    else
      let chunk := (der.drop off).take length
      if (chunk.getD 0 0).toNat &&& 0x80 ≠ 0 then none
      else if 1 < chunk.length ∧ chunk.getD 0 0 = 0 ∧ (chunk.getD 1 0).toNat &&& 0x80 = 0 then none
      else return (beNat chunk, off + length)

/-- The modulus and the exponent, when no step raises a `ValueError`. -/
def parse_pkcs1_rsa_public_key (pkcs1_der : Bytes) : Option (Nat × Nat) :=
  if pkcs1_der = [] ∨ pkcs1_der.getD 0 0 ≠ 0x30 then none
  else do
    let (seq_len, off) ← read_len pkcs1_der 1
    if seq_len ≠ pkcs1_der.length - off then none
    else do
      let (n, off) ← read_integer pkcs1_der off
      let (e, off) ← read_integer pkcs1_der off
      if off ≠ pkcs1_der.length then none else return (n, e)

def rsa_public_key_bits (pkcs1_der : Bytes) : Nat :=
  match parse_pkcs1_rsa_public_key pkcs1_der with
  | none => 0
  | some (n, _) => bitLength n

section
variable (hexdigest : Bytes → List Char)

def key_id_from_pkcs1_der (pkcs1_der : Bytes) : List Char :=
  "sha256:".toList ++ hexdigest pkcs1_der

/-- A key that was built has the id of its DER. -/
structure TrustedPublicKey where
  public_key_der : Bytes
  key_id : List Char
  derived : key_id = key_id_from_pkcs1_der hexdigest public_key_der

/-- `TrustedPublicKey.__post_init__` -/
def TrustedPublicKey.build (public_key_der : Bytes) (key_id : List Char) :
    Except Stop (TrustedPublicKey hexdigest) :=
  if key_id = [] then .ok ⟨public_key_der, _, rfl⟩
  else if h : key_id = key_id_from_pkcs1_der hexdigest public_key_der then
    .ok ⟨public_key_der, key_id, h⟩
  else .error (.raised "ValueError")

end

/-! ## The signed token -/

structure Envelope where
  payload_bytes : Bytes
  signature_bytes : Bytes
  payload_text : List Char

def split_envelope (token : List Char) ( expected_prefix : String) : Except Stop Envelope :=
  match takeLine '.' token with
  | none => .error (reject .ENVELOPE_MALFORMED "missing payload")
  | some (head, rest) =>
    match takeLine '.' rest with
    | none => .error (reject .ENVELOPE_MALFORMED "envelope malformed")
    | some (payload_b64, signature_b64) =>
      if '.' ∈ signature_b64 then .error (reject .ENVELOPE_MALFORMED "envelope malformed")
      else if head ≠ expected_prefix.toList then .error (reject .PREFIX_MISMATCH "prefix mismatch")
      else
        match decode_std_canonical payload_b64, decode_std_canonical signature_b64 with
        | some payload_bytes, some signature_bytes =>
          if payload_bytes = [] ∨ signature_bytes = [] then
            .error (reject .EMPTY_PAYLOAD_OR_SIGNATURE "decoded payload or signature is empty")
          else
            match decodeUtf8 payload_bytes with
            | none => .error (reject .PAYLOAD_NOT_CANONICAL "payload is not valid UTF-8")
            | some payload_text => .ok ⟨payload_bytes, signature_bytes, payload_text⟩
        | _, _ => .error (reject .BASE64_NOT_CANONICAL "base64 is not canonical")

/-- `key=` -/
def keyText (key : String) : List Char := key.toList ++ ['=']

def extract_preverify_field (payload_text : List Char) (key : String) : Option (List Char) :=
  match firstField '\n' (keyText key) payload_text with
  | none => none
  | some value => if value = [] then none else some value

def value_has_line_breaks_or_equals (value : List Char) : Bool :=
  value.contains '\n' || value.contains '\r' || value.contains '='

def fieldRejection : FieldError String → Stop
  | .missing key => reject .FIELD_MISSING ("missing field " ++ key)
  | .expected key => reject .FIELD_UNEXPECTED ("expected field " ++ key)
  | .invalid key => reject .INVALID_FIELD_VALUE ("invalid value for " ++ key)
  | .trailing => reject .TRAILING_FIELDS "has unknown trailing fields"

def parse_fields_in_order (payload_text : List Char) (fields : List String)
    (validate_values : Bool) : Except Stop (List (List Char)) :=
  (parseFields '\n' keyText (fun value => validate_values && value_has_line_breaks_or_equals value)
    fields payload_text).mapError fieldRejection

/-- The digits that `int` takes of a text, by default. -/
def int_max_str_digits : Nat := 4300

/-- `int(value)`, of a text of digits -/
def int (value : List Char) : Except Stop Nat :=
  if int_max_str_digits < value.length then .error (.raised "ValueError")
  else .ok (Nat.ofDigitChars 10 value 0)

def parse_uint64 (value : List Char) : Except Stop (Option Nat) :=
  if value = [] ∨ ¬ value.all (fun c => c.toNat < 128) ∨ ¬ value.all Char.isDigit then .ok none
  else do
    let result ← int value
    return if 0xffffffffffffffff < result then none else some result

section
variable (hexdigest : Bytes → List Char) (rsaVerify : Bytes → Bytes → Bytes → Bool)

def ALG_RSA_PKCS1_SHA256 : List Char := "rsa-pkcs1-sha256".toList

def verify_payload_signature (payload_bytes : Bytes) (payload_text : List Char)
    (signature_bytes : Bytes) (trusted_keys : List (TrustedPublicKey hexdigest))
    (min_public_key_bits : Nat) (retired_key_ids : List (List Char)) : Except Stop Unit :=
  match extract_preverify_field payload_text "alg", extract_preverify_field payload_text "key-id" with
  | some declared_alg, some key_id =>
    if declared_alg ≠ ALG_RSA_PKCS1_SHA256 then
      .error (.rejected .METADATA_MISMATCH [.text "unsupported alg ", .repr declared_alg])
    else if key_id ∈ retired_key_ids then
      .error (.rejected .RETIRED_KEY_ID [.text "key-id ", .repr key_id, .text " is retired"])
    else
      match trusted_keys.find? (·.key_id = key_id) with
      | none => .error (.rejected .UNKNOWN_KEY_ID
          [.text "no trusted key for key-id ", .repr key_id])
      | some selected =>
        let bits := rsa_public_key_bits selected.public_key_der
        if min_public_key_bits ≠ 0 ∧ bits < min_public_key_bits then
          .error (.rejected .KEY_TOO_WEAK [.text "key ", .repr key_id, .text " is ", .number bits,
            .text " bits, below the ", .number min_public_key_bits, .text "-bit floor"])
        else if rsaVerify selected.public_key_der payload_bytes signature_bytes then .ok ()
        else .error (reject .SIGNATURE_INVALID "signature verification failed")
  | _, _ => .error (reject .MISSING_SIGNATURE_METADATA "missing signature metadata")

/-! ## The config token -/

def ENVELOPE_PREFIX : String := "lcccfg1"

def PURPOSE : List Char := "licensecc-config-attestation".toList

def VERSION : List Char := "1".toList

def ISSUED_AT_FUTURE_SKEW_SECONDS : Int := 300

def MIN_PUBLIC_KEY_BITS : Nat := 3072

def fields : List String := ["purpose", "version", "alg", "key-id", "project", "feature",
  "license-fingerprint", "device-hash", "config-id", "config-seq", "config-hash", "issued-at",
  "expires-at"]

structure ConfigAttestationExpected where
  config_bytes : Bytes
  project : List Char
  feature : List Char
  license_fingerprint : List Char
  device_hash : List Char
  min_config_seq : Int
  now : Option Int

/-- The claims of the values of the lines. -/
def claimsOfValues : List (List Char) → Except Stop (Option ConfigAttestationClaims)
  | [purpose, version, algorithm, key_id, project, feature, license_fingerprint, device_hash,
      config_id, config_seq, config_hash, issued_at, expires_at] => do
    let config_seq ← parse_uint64 config_seq
    let issued_at ← parse_uint64 issued_at
    let expires_at ← parse_uint64 expires_at
    match config_seq, issued_at, expires_at with
    | some config_seq, some issued_at, some expires_at =>
      return some ⟨purpose, version, algorithm, key_id, project, feature, license_fingerprint,
        device_hash, config_id, config_seq, config_hash, issued_at, expires_at⟩
    | _, _, _ => return none
  | _ => return none

def parse_canonical_payload (payload_text : List Char) : Except Stop ConfigAttestationClaims :=
  if payload_text = [] ∨ payload_text.getLast? ≠ some '\n' ∨ '\r' ∈ payload_text then
    .error (reject .PAYLOAD_NOT_CANONICAL "payload is not canonical")
  else do
    let values ← parse_fields_in_order payload_text fields false
    match ← claimsOfValues values with
    | none => throw (reject .INTEGER_FIELD_MALFORMED "integer field malformed")
    | some claims => return claims

/-- `clock` is the value of `time.time()`. -/
def validate_claims (clock : Nat) (claims : ConfigAttestationClaims)
    (expected : ConfigAttestationExpected) : Except Stop Unit :=
  let now : Int := expected.now.getD clock
  if claims.purpose ≠ PURPOSE ∨ claims.version ≠ VERSION ∨
      claims.algorithm ≠ ALG_RSA_PKCS1_SHA256 then
    .error (reject .METADATA_MISMATCH "metadata mismatch")
  else if claims.project ≠ expected.project ∨ claims.feature ≠ expected.feature ∨
      claims.license_fingerprint ≠ expected.license_fingerprint ∨
      claims.device_hash ≠ expected.device_hash then
    .error (reject .BINDING_MISMATCH "request binding mismatch")
  else if claims.config_hash ≠ "sha256:".toList ++ hexdigest expected.config_bytes then
    .error (reject .CONFIG_HASH_MISMATCH "hash does not match config bytes")
  else if now + ISSUED_AT_FUTURE_SKEW_SECONDS < claims.issued_at then
    .error (reject .EXPIRED "issued in the future")
  else if claims.expires_at = 0 then .error (reject .NO_EXPIRY "config token has no expiry")
  else if claims.expires_at < claims.issued_at ∨ (claims.expires_at : Int) < now then
    .error (reject .EXPIRED "expired")
  else if (claims.config_seq : Int) < expected.min_config_seq then
    .error (reject .ROLLBACK_BELOW_FLOOR "sequence below the minimum")
  else .ok ()

def verify_config_token (clock : Nat) (token : List Char) (expected : ConfigAttestationExpected)
    (trusted_keys : List (TrustedPublicKey hexdigest)) (retired_key_ids : List (List Char)) :
    Except Stop ConfigAttestationClaims := do
  let envelope ← split_envelope token ENVELOPE_PREFIX
  verify_payload_signature hexdigest rsaVerify envelope.payload_bytes envelope.payload_text
    envelope.signature_bytes trusted_keys MIN_PUBLIC_KEY_BITS retired_key_ids
  let claims ← parse_canonical_payload envelope.payload_text
  validate_claims hexdigest clock claims expected
  return claims

end

end Licensecc.Token.Sdk
