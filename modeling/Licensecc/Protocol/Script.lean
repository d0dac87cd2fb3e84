-- The lease codec of the service, in JavaScript. A text is the list of its
-- characters: a string with half of a surrogate pair is no such list, and
-- `text` refuses it. What is decoded is exactly what was encoded.
import Licensecc.Failure
import Licensecc.Codec.Base64
import Licensecc.Codec.Decimal
import Licensecc.Codec.Lines

open Licensecc.Codec

namespace Licensecc.Protocol

/-! ## base64url -/

/-- `btoa` of the binary string of some bytes. -/
def btoa (bytes : Bytes) : List Char :=
  encode64 standardAlphabet bytes ++ List.replicate ((3 - bytes.length % 3) % 3) '='

/-- `atob`, with the bytes of the binary string that it gives. -/
def atob (data : List Char) : Option Bytes :=
  let data := data.filter (· ∉ ['\t', '\n', '\x0c', '\r', ' '])
  let data :=
    if data.length % 4 ≠ 0 then data
    else if data.reverse.take 2 = ['=', '='] then data.dropLast.dropLast
    else if data.getLast? = some '=' then data.dropLast
    else data
  if data.length % 4 = 1 then none else (digits64 standardAlphabet data).bind octets

def replaceAll (a b : Char) (s : List Char) : List Char := s.map fun c => if c = a then b else c

def encodeBase64url (bytes : Bytes) : List Char :=
  (replaceAll '/' '_' (replaceAll '+' '-' (btoa bytes))).rdropWhile (· = '=')

/-- `[A-Za-z0-9_-]` -/
def base64urlPattern (c : Char) : Bool := c.isAlphanum || c = '_' || c = '-'

/-- The characters of the pattern are one code unit each, so the length is the
number of characters. -/
def decodeBase64url (value : List Char) (maxBytes : Nat) : Except String Bytes := do
  ensure (value.all base64urlPattern ∧ value.length ≤ (maxBytes * 4 + 2) / 3) "invalid_encoding"
  match atob (replaceAll '_' '/' (replaceAll '-' '+' value)) with
  | none => throw "invalid_encoding"
  | some bytes =>
    ensure (bytes.length ≤ maxBytes ∧ encodeBase64url bytes = value) "invalid_encoding"
    return bytes

/-! ## Values -/

/-- `Number.MAX_SAFE_INTEGER` -/
def safeMax : Int := 9007199254740991

def text (value : List Char) : Except String (List Char) := do
  ensure (value.length ≠ 0 ∧ (utf8 value).length ≤ 1024 ∧ decodeUtf8 (utf8 value) = some value)
    "invalid_text"
  return encodeBase64url (utf8 value)

def integer (value : Int) : Except String (List Char) := do
  ensure ((-safeMax ≤ value ∧ value ≤ safeMax) ∧ 0 ≤ value) "invalid_integer"
  return Nat.toDigits 10 value.toNat

/-- A value of the claims. -/
inductive FieldValue where
  | text (value : List Char)
  | integer (value : Int)

def FieldValue.encode : FieldValue → Except String (List Char)
  | .text value => Protocol.text value
  | .integer value => Protocol.integer value

/-! ## Claims -/

def DEVICE_LEASE_FIELDS : List String := ["version", "purpose", "key-id", "issuer", "audience",
  "project", "feature", "license-fingerprint", "binding-id", "device-key-id", "generation",
  "revocation-seq", "lease-id", "operation-id", "issued-at", "renew-after", "expires-at"]

def integers : List String :=
  ["version", "generation", "revocation-seq", "issued-at", "renew-after", "expires-at"]

structure DeviceLeaseClaims where
  version : Int
  purpose : List Char
  key_id : List Char
  issuer : List Char
  audience : List Char
  project : List Char
  feature : List Char
  license_fingerprint : List Char
  binding_id : List Char
  device_key_id : List Char
  generation : Int
  revocation_seq : Int
  lease_id : List Char
  operation_id : List Char
  issued_at : Int
  renew_after : Int
  expires_at : Int

/-- The values in the order of `DEVICE_LEASE_FIELDS`. -/
def DeviceLeaseClaims.values (c : DeviceLeaseClaims) : List FieldValue :=
  [.integer c.version, .text c.purpose, .text c.key_id, .text c.issuer, .text c.audience,
    .text c.project, .text c.feature, .text c.license_fingerprint, .text c.binding_id,
    .text c.device_key_id, .integer c.generation, .integer c.revocation_seq, .text c.lease_id,
    .text c.operation_id, .integer c.issued_at, .integer c.renew_after, .integer c.expires_at]

def DeviceLeaseClaims.ofValues : List FieldValue → Except String DeviceLeaseClaims
  | [.integer version, .text purpose, .text key_id, .text issuer, .text audience, .text project,
      .text feature, .text license_fingerprint, .text binding_id, .text device_key_id,
      .integer generation, .integer revocation_seq, .text lease_id, .text operation_id,
      .integer issued_at, .integer renew_after, .integer expires_at] =>
    .ok ⟨version, purpose, key_id, issuer, audience, project, feature, license_fingerprint,
      binding_id, device_key_id, generation, revocation_seq, lease_id, operation_id, issued_at,
      renew_after, expires_at⟩
  | _ => .error "invalid_fields"

/-- `/^[A-Za-z0-9_.:-]{1,max}$/` -/
def namePattern (max : Nat) (value : List Char) : Bool :=
  value.all (fun c => c.isAlphanum || c = '_' || c = '.' || c = ':' || c = '-') &&
    1 ≤ value.length && value.length ≤ max

/-- `/^[a-f0-9]{64}$/` -/
def hexPattern (value : List Char) : Bool :=
  value.all (fun c => ('a' ≤ c && c ≤ 'f') || c.isDigit) && value.length = 64

/-- `/^sha256:[a-f0-9]{64}$/` -/
def keyPattern (value : List Char) : Bool :=
  value.take 7 = "sha256:".toList && hexPattern (value.drop 7)

/-- The value is the base64url of as many bytes. -/
def identity (value : List Char) (size : Nat) : Except String Unit := do
  let bytes ← decodeBase64url value size
  ensure (bytes.length = size) "invalid_identity"

def validateClaims (c : DeviceLeaseClaims) : Except String Unit := do
  ensure (c.version = 1 ∧ c.purpose = "device-lease".toList) "invalid_purpose"
  ensure (namePattern 127 c.project ∧ namePattern 15 c.feature) "invalid_identity"
  ensure (keyPattern c.key_id ∧ keyPattern c.device_key_id ∧ hexPattern c.license_fingerprint)
    "invalid_identity"
  identity c.binding_id 16
  identity c.lease_id 16
  identity c.operation_id 32
  ensure (1 ≤ c.generation ∧ c.issued_at < c.renew_after ∧ c.renew_after < c.expires_at)
    "invalid_window"
  ensure (c.expires_at - c.issued_at ≤ 86400) "invalid_window"
  let _ ← integer (c.expires_at + 120)

/-! ## Payloads -/

/-- The text of a field with its encoded value. -/
def fieldLine (field : String) (value : List Char) : List Char := field.toList ++ '=' :: value

def encodeDeviceLeasePayload (claims : DeviceLeaseClaims) : Except String Bytes := do
  validateClaims claims
  let values ← claims.values.mapM FieldValue.encode
  let payload := List.intercalate ['\n'] (DEVICE_LEASE_FIELDS.zipWith fieldLine values) ++ ['\n']
  let bytes := utf8 payload
  ensure (bytes.length ≤ 4096) "payload_too_large"
  return bytes

/-- The value of one line. `Number` of a numeral is exact up to the largest safe
integer, and it is no safe integer above. -/
def decodeLine (field : String) (line : List Char) : Except String FieldValue := do
  let fieldPrefix := fieldLine field []
  ensure (fieldPrefix <+: line) "invalid_fields"
  let value := line.drop fieldPrefix.length
  if field ∈ integers then
    ensure (isNumeral value) "invalid_integer"
    let number := Nat.ofDigitChars 10 value 0
    let _ ← integer number
    return .integer number
  else
    let bytes ← decodeBase64url value 1024
    match decodeUtf8 bytes with
    | none => throw "TypeError"
    | some value => return .text value

def decodeDeviceLeasePayload (bytes : Bytes) : Except String DeviceLeaseClaims := do
  ensure (bytes.length ≤ 4096) "invalid_payload"
  match decodeUtf8 bytes with
  | none => throw "invalid_payload"
  | some payload =>
    let lines := payload.splitOn '\n'
    ensure (lines.length = DEVICE_LEASE_FIELDS.length + 1 ∧ lines.getLast? = some [])
      "invalid_fields"
    let values ← (DEVICE_LEASE_FIELDS.zip lines.dropLast).mapM fun l => decodeLine l.1 l.2
    let claims ← DeviceLeaseClaims.ofValues values
    let encoded ← encodeDeviceLeasePayload claims
    ensure (decodeUtf8 encoded = some payload) "invalid_payload"
    return claims

/-! ## Envelopes -/

structure DecodedLease where
  payload : Bytes
  signature : Bytes
  claims : DeviceLeaseClaims

def encodeDeviceLeaseEnvelope (payload signature : Bytes) : Except String (List Char) := do
  let _ ← decodeDeviceLeasePayload payload
  ensure (signature.length = 384) "invalid_signature_size"
  let token := "lccdl1.".toList ++ encodeBase64url payload ++ '.' :: encodeBase64url signature
  ensure (token.length ≤ 8192) "token_too_large"
  return token

def decodeDeviceLeaseEnvelope (token : List Char) : Except String DecodedLease := do
  ensure (token.length ≤ 8192) "invalid_token"
  match token.splitOn '.' with
  | [version, part₁, part₂] =>
    ensure (version = "lccdl1".toList) "invalid_token"
    let payload ← decodeBase64url part₁ 4096
    let signature ← decodeBase64url part₂ 384
    ensure (signature.length = 384) "invalid_signature_size"
    let claims ← decodeDeviceLeasePayload payload
    return ⟨payload, signature, claims⟩
  | _ => throw "invalid_token"

/-! ## What base64url decodes -/

set_option maxRecDepth 20000 in
theorem replaceAll_digit {d : Nat} (h : d < 64) :
    (fun c => if c = '/' then '_' else c)
      ((fun c => if c = '+' then '-' else c) (standardAlphabet.getD d 'A')) =
    urlAlphabet.getD d 'A' := by
  have hall : ∀ d < 64, (fun c => if c = '/' then '_' else c)
      ((fun c => if c = '+' then '-' else c) (standardAlphabet.getD d 'A')) =
      urlAlphabet.getD d 'A' := by decide
  exact hall d h

set_option maxRecDepth 20000 in
theorem replaceAll_url {d : Nat} (h : d < 64) :
    (fun c => if c = '_' then '/' else c)
      ((fun c => if c = '-' then '+' else c) (urlAlphabet.getD d 'A')) =
    standardAlphabet.getD d 'A' := by
  have hall : ∀ d < 64, (fun c => if c = '_' then '/' else c)
      ((fun c => if c = '-' then '+' else c) (urlAlphabet.getD d 'A')) =
      standardAlphabet.getD d 'A' := by decide
  exact hall d h

theorem not_mem_url {bytes : Bytes} {c : Char} (hc : c ∉ urlAlphabet) :
    c ∉ encode64 urlAlphabet bytes := fun h => hc (mem_of_encode64 rfl h)

/-- The encoding is the digits of the bytes in the alphabet of URLs. -/
theorem encodeBase64url_eq (bytes : Bytes) :
    encodeBase64url bytes = encode64 urlAlphabet bytes := by
  unfold encodeBase64url btoa replaceAll
  rw [List.map_append, List.map_append, List.map_replicate, List.map_replicate, List.map_map]
  have hdigits : (encode64 standardAlphabet bytes).map
      ((fun c => if c = '/' then '_' else c) ∘ fun c => if c = '+' then '-' else c) =
      encode64 urlAlphabet bytes := by
    unfold encode64
    rw [List.map_map]
    exact List.map_congr_left fun d hd => replaceAll_digit (sextets_lt bytes d hd)
  rw [hdigits]
  exact rdropWhile_pad (not_mem_url (by decide)) _

theorem encodeBase64url_injective {bs bs' : Bytes} (h : encodeBase64url bs = encodeBase64url bs') :
    bs = bs' := by
  rw [encodeBase64url_eq, encodeBase64url_eq] at h
  exact encode64_injective urlAlphabet_nodup rfl h

theorem length_encodeBase64url (bytes : Bytes) :
    (encodeBase64url bytes).length = (bytes.length * 4 + 2) / 3 := by
  rw [encodeBase64url_eq, length_encode64]

theorem encodeBase64url_pattern (bytes : Bytes) : (encodeBase64url bytes).all base64urlPattern := by
  rw [encodeBase64url_eq, List.all_eq_true]
  intro c hc
  have hall : urlAlphabet.all base64urlPattern = true := by decide
  exact List.all_eq_true.mp hall c (mem_of_encode64 rfl hc)

/-- The digits of some bytes are no white space and no padding, and their number is
not one more than a multiple of four. -/
theorem atob_encode (bytes : Bytes) : atob (encode64 standardAlphabet bytes) = some bytes := by
  have hmem : ∀ c ∈ encode64 standardAlphabet bytes, c ∈ standardAlphabet :=
    fun c hc => mem_of_encode64 rfl hc
  have hspace : (encode64 standardAlphabet bytes).filter
      (· ∉ ['\t', '\n', '\x0c', '\r', ' ']) = encode64 standardAlphabet bytes := by
    rw [List.filter_eq_self]
    intro c hc
    have hall : standardAlphabet.all (· ∉ ['\t', '\n', '\x0c', '\r', ' ']) = true := by decide
    exact List.all_eq_true.mp hall c (hmem c hc)
  have hpad : '=' ∉ encode64 standardAlphabet bytes := by
    intro h
    have hno : '=' ∉ standardAlphabet := by decide
    exact hno (hmem _ h)
  unfold atob
  simp only [hspace]
  have hlast : (encode64 standardAlphabet bytes).getLast? ≠ some '=' := by
    intro h
    exact hpad (List.mem_of_getLast? h)
  have hlast₂ : (encode64 standardAlphabet bytes).reverse.take 2 ≠ ['=', '='] := by
    intro h
    have hin : '=' ∈ (encode64 standardAlphabet bytes).reverse.take 2 := by
      rw [h]
      simp
    exact hpad (List.mem_reverse.mp (List.mem_of_mem_take hin))
  have hlen : (encode64 standardAlphabet bytes).length % 4 ≠ 1 := by
    rw [length_encode64]
    omega
  rw [if_neg hlast₂, if_neg hlast, ite_self, if_neg hlen,
    digits64_encode64 standardAlphabet_nodup rfl, Option.bind_some, octets_sextets]

/-- A value is decoded exactly when it is the encoding of bytes within the bound. -/
theorem decodeBase64url_ok {value : List Char} {maxBytes : Nat} {bytes : Bytes} :
    decodeBase64url value maxBytes = .ok bytes ↔
      encodeBase64url bytes = value ∧ bytes.length ≤ maxBytes := by
  unfold decodeBase64url
  rw [ensure_bind_eq_ok]
  constructor
  · rintro ⟨-, h⟩
    split at h
    · cases h
    · rw [ensure_bind_eq_ok] at h
      obtain ⟨⟨hlen, henc⟩, h⟩ := h
      obtain rfl := Except.ok.inj h
      exact ⟨henc, hlen⟩
  · rintro ⟨rfl, hlen⟩
    have hback : replaceAll '_' '/' (replaceAll '-' '+' (encodeBase64url bytes)) =
        encode64 standardAlphabet bytes := by
      unfold replaceAll
      rw [encodeBase64url_eq, List.map_map]
      unfold encode64
      rw [List.map_map]
      exact List.map_congr_left fun d hd => replaceAll_url (sextets_lt bytes d hd)
    refine ⟨⟨encodeBase64url_pattern bytes, ?_⟩, ?_⟩
    · rw [length_encodeBase64url]
      omega
    · rw [hback, atob_encode]
      dsimp only
      rw [ensure_bind_eq_ok]
      exact ⟨⟨hlen, rfl⟩, rfl⟩

/-! ## What a payload decodes -/

theorem text_ok {value v : List Char} : text value = .ok v ↔
    (value ≠ [] ∧ (utf8 value).length ≤ 1024) ∧ v = encodeBase64url (utf8 value) := by
  unfold text
  rw [ensure_bind_eq_ok, decodeUtf8_utf8]
  constructor
  · rintro ⟨⟨hne, hlen, -⟩, h⟩
    exact ⟨⟨fun h0 => hne (by simp [h0]), hlen⟩, (Except.ok.inj h).symm⟩
  · rintro ⟨⟨hne, hlen⟩, rfl⟩
    exact ⟨⟨fun h0 => hne (List.length_eq_zero_iff.mp h0), hlen, rfl⟩, rfl⟩

theorem integer_ok {value : Int} {v : List Char} : integer value = .ok v ↔
    (0 ≤ value ∧ value ≤ safeMax) ∧ v = Nat.toDigits 10 value.toNat := by
  unfold integer safeMax
  rw [ensure_bind_eq_ok]
  constructor
  · rintro ⟨⟨⟨-, hle⟩, h0⟩, h⟩
    exact ⟨⟨h0, hle⟩, (Except.ok.inj h).symm⟩
  · rintro ⟨⟨h0, hle⟩, rfl⟩
    exact ⟨⟨⟨by omega, hle⟩, h0⟩, rfl⟩

theorem not_mem_encodeBase64url {bytes : Bytes} {c : Char} (hc : c ∉ urlAlphabet) :
    c ∉ encodeBase64url bytes := by
  rw [encodeBase64url_eq]
  exact not_mem_url hc

theorem newline_not_mem_toDigits (n : Nat) : '\n' ∉ Nat.toDigits 10 n := by
  intro h
  have hd := Nat.isDigit_of_mem_toDigits (b := 10) (by omega) (by omega) h
  revert hd
  decide

theorem FieldValue.newline_not_mem {x : FieldValue} {v : List Char} (h : x.encode = .ok v) :
    '\n' ∉ v := by
  cases x with
  | text value =>
    obtain ⟨-, rfl⟩ := text_ok.mp h
    exact not_mem_encodeBase64url (by decide)
  | integer value =>
    obtain ⟨-, rfl⟩ := integer_ok.mp h
    exact newline_not_mem_toDigits _

def FieldValue.isInteger : FieldValue → Bool
  | .text _ => false
  | .integer _ => true

/-- The line of an encoded value is decoded to the value. -/
theorem decodeLine_encode {field : String} {x : FieldValue} {v : List Char}
    (hkind : x.isInteger = decide (field ∈ integers)) (h : x.encode = .ok v) :
    decodeLine field (fieldLine field v) = .ok x := by
  have hstart : fieldLine field [] <+: fieldLine field v := ⟨v, by simp [fieldLine]⟩
  have hdrop : (fieldLine field v).drop (fieldLine field []).length = v := by
    have happend : fieldLine field v = fieldLine field [] ++ v := by simp [fieldLine]
    rw [happend, List.drop_left]
  unfold decodeLine
  rw [ensure_bind_eq_ok]
  refine ⟨hstart, ?_⟩
  rw [hdrop]
  cases x with
  | text value =>
    have hno : field ∉ integers := fun hin => by
      rw [decide_eq_true hin] at hkind
      cases hkind
    obtain ⟨⟨-, hlen⟩, rfl⟩ := text_ok.mp h
    rw [if_neg hno, bind_eq_ok]
    refine ⟨utf8 value, decodeBase64url_ok.mpr ⟨rfl, hlen⟩, ?_⟩
    rw [decodeUtf8_utf8]
    rfl
  | integer value =>
    have hin : field ∈ integers := of_decide_eq_true hkind.symm
    obtain ⟨hsafe, rfl⟩ := integer_ok.mp h
    have hvalue : (((Nat.ofDigitChars 10 (Nat.toDigits 10 value.toNat) 0 : Nat)) : Int) = value := by
      rw [Nat.ofDigitChars_ten_toDigits]
      omega
    rw [if_pos hin, ensure_bind_eq_ok]
    refine ⟨isNumeral_toDigits _, bind_eq_ok.mpr ⟨_, integer_ok.mpr ⟨?_, rfl⟩, ?_⟩⟩
    · rw [hvalue]
      exact hsafe
    · rw [hvalue]
      rfl

/-- The lines of encoded values are decoded to the values. -/
theorem decodeLines_encode {fields : List String} {xs : List FieldValue} {vs : List (List Char)}
    (hkind : List.Forall₂ (fun f (x : FieldValue) => x.isInteger = decide (f ∈ integers)) fields xs)
    (h : List.Forall₂ (fun (x : FieldValue) v => x.encode = .ok v) xs vs) :
    List.Forall₂ (fun l x => decodeLine l.1 l.2 = .ok x)
      (fields.zip (fields.zipWith fieldLine vs)) xs := by
  induction hkind generalizing vs with
  | nil =>
    cases h
    exact .nil
  | cons hk _ ih =>
    cases h with
    | cons hv hvs => exact .cons (decodeLine_encode hk hv) (ih hvs)

theorem DeviceLeaseClaims.kinds (c : DeviceLeaseClaims) :
    List.Forall₂ (fun f (x : FieldValue) => x.isInteger = decide (f ∈ integers))
      DEVICE_LEASE_FIELDS c.values := by
  unfold DEVICE_LEASE_FIELDS DeviceLeaseClaims.values
  simp only [List.forall₂_cons, List.forall₂_nil_left_iff, FieldValue.isInteger, and_true]
  decide

/-- A payload is encoded from claims that are valid, with one line for each
value. -/
theorem encodeDeviceLeasePayload_ok {c : DeviceLeaseClaims} {bytes : Bytes} :
    encodeDeviceLeasePayload c = .ok bytes ↔ validateClaims c = .ok () ∧
      ∃ vs, List.Forall₂ (fun (x : FieldValue) v => x.encode = .ok v) c.values vs ∧
        bytes = utf8 (unlines '\n' (DEVICE_LEASE_FIELDS.zipWith fieldLine vs)) ∧
        bytes.length ≤ 4096 := by
  unfold encodeDeviceLeasePayload
  rw [bind_eq_ok]
  constructor
  · rintro ⟨u, hvalid, h⟩
    obtain ⟨vs, hvs, h⟩ := bind_eq_ok.mp h
    obtain ⟨hlen, h⟩ := ensure_bind_eq_ok.mp h
    rw [mapM_eq_ok] at hvs
    obtain rfl := Except.ok.inj h
    have hne : DEVICE_LEASE_FIELDS.zipWith fieldLine vs ≠ [] := by
      cases hvs
      simp [DEVICE_LEASE_FIELDS]
    rw [intercalate_end hne] at hlen ⊢
    exact ⟨hvalid, vs, hvs, rfl, hlen⟩
  · rintro ⟨hvalid, vs, hvs, rfl, hlen⟩
    refine ⟨(), hvalid, bind_eq_ok.mpr ⟨vs, mapM_eq_ok.mpr hvs, ?_⟩⟩
    have hne : DEVICE_LEASE_FIELDS.zipWith fieldLine vs ≠ [] := by
      cases hvs
      simp [DEVICE_LEASE_FIELDS]
    rw [intercalate_end hne]
    exact ensure_bind_eq_ok.mpr ⟨hlen, rfl⟩

theorem newline_not_mem_lines {fields : List String} {xs : List FieldValue} {vs : List (List Char)}
    (hfields : ∀ f ∈ fields, '\n' ∉ f.toList)
    (h : List.Forall₂ (fun (x : FieldValue) v => x.encode = .ok v) xs vs) :
    ∀ l ∈ fields.zipWith fieldLine vs, '\n' ∉ l := by
  induction h generalizing fields with
  | nil => simp
  | @cons x v xs vs hv _ ih =>
    cases fields with
    | nil => simp
    | cons f fields =>
      intro l hl
      rw [List.zipWith_cons_cons, List.mem_cons] at hl
      rcases hl with rfl | hl
      · have h1 := hfields f List.mem_cons_self
        have h2 := FieldValue.newline_not_mem hv
        unfold fieldLine
        simp [h1, h2]
      · exact ih (fun f hf => hfields f (List.mem_cons_of_mem _ hf)) l hl

theorem newline_not_mem_fields : ∀ f ∈ DEVICE_LEASE_FIELDS, '\n' ∉ f.toList := by
  decide

theorem DeviceLeaseClaims.ofValues_values (c : DeviceLeaseClaims) :
    DeviceLeaseClaims.ofValues c.values = .ok c := rfl

/-- A payload is decoded to exactly the claims that it is encoded from. -/
theorem decodeDeviceLeasePayload_ok {c : DeviceLeaseClaims} {bytes : Bytes} :
    decodeDeviceLeasePayload bytes = .ok c ↔ encodeDeviceLeasePayload c = .ok bytes := by
  unfold decodeDeviceLeasePayload
  rw [ensure_bind_eq_ok]
  constructor
  · rintro ⟨-, h⟩
    split at h
    · cases h
    rename_i payload hpayload
    obtain ⟨-, h⟩ := ensure_bind_eq_ok.mp h
    obtain ⟨values, -, h⟩ := bind_eq_ok.mp h
    obtain ⟨claims, -, h⟩ := bind_eq_ok.mp h
    obtain ⟨encoded, hencoded, h⟩ := bind_eq_ok.mp h
    obtain ⟨hsame, h⟩ := ensure_bind_eq_ok.mp h
    obtain rfl := Except.ok.inj h
    -- The text of the bytes and the text of the encoding are one.
    rw [hencoded, ← decodeUtf8_eq_some.mp hsame, ← decodeUtf8_eq_some.mp hpayload]
  · intro h
    obtain ⟨-, vs, hvs, rfl, hlen⟩ := encodeDeviceLeasePayload_ok.mp h
    refine ⟨hlen, ?_⟩
    rw [decodeUtf8_utf8]
    have hsplit := splitOn_eq_lines.mpr ⟨newline_not_mem_lines newline_not_mem_fields hvs, rfl⟩
    have hcount : (DEVICE_LEASE_FIELDS.zipWith fieldLine vs).length = DEVICE_LEASE_FIELDS.length := by
      have hv := hvs.length_eq
      have hvalues : c.values.length = DEVICE_LEASE_FIELDS.length := rfl
      rw [List.length_zipWith, ← hv, hvalues, Nat.min_self]
    dsimp only
    rw [hsplit, ensure_bind_eq_ok, List.dropLast_concat]
    refine ⟨⟨?_, by simp⟩, ?_⟩
    · rw [List.length_append, hcount]
      rfl
    refine bind_eq_ok.mpr ⟨c.values, mapM_eq_ok.mpr (decodeLines_encode c.kinds hvs), ?_⟩
    refine bind_eq_ok.mpr ⟨c, c.ofValues_values, bind_eq_ok.mpr ⟨_, h, ?_⟩⟩
    rw [decodeUtf8_utf8]
    exact ensure_bind_eq_ok.mpr ⟨rfl, rfl⟩

/-! ## What an envelope decodes -/

/-- The token of a payload and a signature. -/
def envelope (payload signature : Bytes) : List Char :=
  "lccdl1.".toList ++ encodeBase64url payload ++ '.' :: encodeBase64url signature

theorem dot_not_mem (bytes : Bytes) : '.' ∉ encodeBase64url bytes :=
  not_mem_encodeBase64url (by decide)

theorem splitOn_envelope (payload signature : Bytes) : (envelope payload signature).splitOn '.' =
    ["lccdl1".toList, encodeBase64url payload, encodeBase64url signature] := by
  have hversion : "lccdl1.".toList = "lccdl1".toList ++ ['.'] := by decide
  have hjoin : envelope payload signature = List.intercalate ['.']
      ["lccdl1".toList, encodeBase64url payload, encodeBase64url signature] := by
    unfold envelope
    rw [hversion, List.intercalate_cons_cons, List.intercalate_cons_cons,
      List.intercalate_singleton]
    simp only [List.append_assoc, List.cons_append, List.nil_append]
  rw [hjoin]
  refine List.splitOn_intercalate '.' ?_ (List.cons_ne_nil _ _)
  intro l hl
  simp only [List.mem_cons, List.not_mem_nil, or_false] at hl
  rcases hl with rfl | rfl | rfl
  · decide
  · exact dot_not_mem payload
  · exact dot_not_mem signature

/-- A token is decoded exactly when it is the envelope of a payload that is encoded
from claims and of a signature of its size. -/
theorem decodeDeviceLeaseEnvelope_ok {token : List Char} {d : DecodedLease} :
    decodeDeviceLeaseEnvelope token = .ok d ↔ token = envelope d.payload d.signature ∧
      d.signature.length = 384 ∧ encodeDeviceLeasePayload d.claims = .ok d.payload := by
  unfold decodeDeviceLeaseEnvelope
  rw [ensure_bind_eq_ok]
  constructor
  · rintro ⟨-, h⟩
    split at h
    · rename_i version part₁ part₂ hparts
      obtain ⟨rfl, h1⟩ := ensure_bind_eq_ok.mp h
      obtain ⟨payload, hpayload, h⟩ := bind_eq_ok.mp h1
      obtain ⟨signature, hsignature, h⟩ := bind_eq_ok.mp h
      obtain ⟨hsize, h⟩ := ensure_bind_eq_ok.mp h
      obtain ⟨claims, hclaims, h⟩ := bind_eq_ok.mp h
      obtain rfl := Except.ok.inj h
      obtain ⟨rfl, -⟩ := decodeBase64url_ok.mp hpayload
      obtain ⟨rfl, -⟩ := decodeBase64url_ok.mp hsignature
      refine ⟨?_, hsize, decodeDeviceLeasePayload_ok.mp hclaims⟩
      have hjoin : List.intercalate ['.'] (token.splitOn '.') = token :=
        List.intercalate_splitOn '.'
      rw [hparts, ← splitOn_envelope, List.intercalate_splitOn] at hjoin
      exact hjoin.symm
    · cases h
  · rintro ⟨rfl, hsize, hclaims⟩
    obtain ⟨-, vs, -, -, hlen⟩ := encodeDeviceLeasePayload_ok.mp hclaims
    refine ⟨?_, ?_⟩
    · unfold envelope
      simp only [List.length_append, List.length_cons, length_encodeBase64url, hsize]
      have h7 : "lccdl1.".toList.length = 7 := by decide
      omega
    · rw [splitOn_envelope]
      dsimp only
      rw [ensure_bind_eq_ok]
      refine ⟨rfl, bind_eq_ok.mpr ⟨d.payload, decodeBase64url_ok.mpr ⟨rfl, hlen⟩, ?_⟩⟩
      refine bind_eq_ok.mpr ⟨d.signature, decodeBase64url_ok.mpr ⟨rfl, Nat.le_of_eq hsize⟩, ?_⟩
      refine ensure_bind_eq_ok.mpr ⟨hsize, ?_⟩
      exact bind_eq_ok.mpr ⟨d.claims, decodeDeviceLeasePayload_ok.mpr hclaims, rfl⟩

/-- The envelope of a decoded lease is encoded again. -/
theorem encodeDeviceLeaseEnvelope_ok {token : List Char} {payload signature : Bytes} :
    encodeDeviceLeaseEnvelope payload signature = .ok token ↔
      (∃ c, encodeDeviceLeasePayload c = .ok payload) ∧ signature.length = 384 ∧
        token = envelope payload signature := by
  unfold encodeDeviceLeaseEnvelope
  rw [bind_eq_ok]
  constructor
  · rintro ⟨c, hc, h⟩
    obtain ⟨hsize, h⟩ := ensure_bind_eq_ok.mp h
    obtain ⟨-, h⟩ := ensure_bind_eq_ok.mp h
    exact ⟨⟨c, decodeDeviceLeasePayload_ok.mp hc⟩, hsize, (Except.ok.inj h).symm⟩
  · rintro ⟨⟨c, hc⟩, hsize, rfl⟩
    have hd := (decodeDeviceLeaseEnvelope_ok (d := ⟨payload, signature, c⟩)).mpr ⟨rfl, hsize, hc⟩
    have hlen : (envelope payload signature).length ≤ 8192 := by
      unfold decodeDeviceLeaseEnvelope at hd
      exact (ensure_bind_eq_ok.mp hd).1
    exact ⟨c, decodeDeviceLeasePayload_ok.mpr hc,
      ensure_bind_eq_ok.mpr ⟨hsize, ensure_bind_eq_ok.mpr ⟨hlen, rfl⟩⟩⟩

end Licensecc.Protocol
