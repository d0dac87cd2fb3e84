-- The lease decoder of the client, in C++. A string is the list of its bytes.
-- It decodes exactly the bytes that the codec of the service encodes.
import Licensecc.Protocol.Script

open Licensecc.Codec

namespace Licensecc.Protocol

/-! ## base64 -/

/-- A character as an `unsigned char`. -/
def byte (c : Char) : UInt8 := UInt8.ofNat c.toNat

/-- `lo <= ch && ch <= hi` -/
def inRange (lo hi : Char) (ch : UInt8) : Bool := lo.toNat ≤ ch.toNat && ch.toNat ≤ hi.toNat

def kBase64Alphabet : Bytes := bytesOf standardAlphabet

/-- `kBase64Alphabet[n & 0x3f]` -/
def base64Digit (n : Nat) : UInt8 := kBase64Alphabet.getD (n &&& 0x3f) 0

def encode_canonical_base64 : Bytes → Bytes
  | [] => []
  | [a] =>
    let word := a.toNat <<< 16
    [base64Digit (word >>> 18), base64Digit (word >>> 12), byte '=', byte '=']
  | [a, b] =>
    let word := a.toNat <<< 16 ||| b.toNat <<< 8
    [base64Digit (word >>> 18), base64Digit (word >>> 12), base64Digit (word >>> 6), byte '=']
  | a :: b :: c :: rest =>
    let word := a.toNat <<< 16 ||| b.toNat <<< 8 ||| c.toNat
    base64Digit (word >>> 18) :: base64Digit (word >>> 12) :: base64Digit (word >>> 6) ::
      base64Digit word :: encode_canonical_base64 rest

def decode_base64_character (ch : UInt8) : Int :=
  if inRange 'A' 'Z' ch then ch.toNat - 'A'.toNat
  else if inRange 'a' 'z' ch then ch.toNat - 'a'.toNat + 26
  else if inRange '0' '9' ch then ch.toNat - '0'.toNat + 52
  else if ch = byte '+' then 62
  else if ch = byte '/' then 63
  else -1

/-- One turn of the loop of `decode_canonical_base64`. -/
def decodeGroup (last : Bool) (e₀ e₁ e₂ e₃ : UInt8) : Option Bytes :=
  let a := decode_base64_character e₀
  let b := decode_base64_character e₁
  let c := if e₂ = byte '=' then -2 else decode_base64_character e₂
  let d := if e₃ = byte '=' then -2 else decode_base64_character e₃
  if a < 0 ∨ b < 0 ∨ c = -1 ∨ d = -1 ∨ (last = false ∧ (c = -2 ∨ d = -2)) ∨ (c = -2 ∧ d ≠ -2) then
    none
  else
    let word := a.toNat <<< 18 ||| b.toNat <<< 12 ||| (if c < 0 then 0 else c.toNat) <<< 6 |||
      (if d < 0 then 0 else d.toNat)
    some (UInt8.ofNat (word >>> 16) :: ((if 0 ≤ c then [UInt8.ofNat (word >>> 8)] else []) ++
      if 0 ≤ d then [UInt8.ofNat word] else []))

def decodeGroups : Bytes → Option Bytes
  | [] => some []
  | e₀ :: e₁ :: e₂ :: e₃ :: rest => do
    let bytes ← decodeGroup rest.isEmpty e₀ e₁ e₂ e₃
    let more ← decodeGroups rest
    return bytes ++ more
  | _ => none

def decode_canonical_base64 (encoded : Bytes) : Option Bytes :=
  if encoded = [] ∨ encoded.length % 4 ≠ 0 then none
  else do
    let candidate ← decodeGroups encoded
    if encode_canonical_base64 candidate ≠ encoded then none else return candidate

/-! ## base64url -/

def replaceBytes (a b : Char) (s : Bytes) : Bytes := s.map fun c => if c = byte a then byte b else c

def base64url (value : Bytes) : Bytes :=
  (replaceBytes '/' '_' (replaceBytes '+' '-' (encode_canonical_base64 value))).rdropWhile
    (· = byte '=')

def base64urlByte (c : UInt8) : Bool :=
  inRange 'A' 'Z' c || inRange 'a' 'z' c || inRange '0' '9' c || c = byte '-' || c = byte '_'

def decode_base64url (value : Bytes) (maximum_bytes : Nat) : Option Bytes :=
  if 8192 < maximum_bytes ∨ (maximum_bytes * 4 + 2) / 3 < value.length then none
  else if value = [] then some []
  else if ¬ value.all base64urlByte then none
  else do
    let standard := replaceBytes '_' '/' (replaceBytes '-' '+' value)
    let padded := standard ++ List.replicate ((4 - standard.length % 4) % 4) (byte '=')
    let candidate ← decode_canonical_base64 padded
    if maximum_bytes < candidate.length then none else return candidate

/-- The profile has identifiers of 16 bytes and secrets of 32 bytes. -/
def token (value : Bytes) (bytes : Nat) : Bool :=
  (bytes = 16 || bytes = 32) && value.length = (bytes * 8 + 5) / 6 && value.all base64urlByte &&
    let last := value.getLastD 0
    let digit :=
      if inRange 'A' 'Z' last then last.toNat - 'A'.toNat
      else if inRange 'a' 'z' last then last.toNat - 'a'.toNat + 26
      else if inRange '0' '9' last then last.toNat - '0'.toNat + 52
      else if last = byte '-' then 62
      else 63
    let padding_bits := value.length * 6 - bytes * 8
    digit &&& (1 <<< padding_bits - 1) = 0

/-! ## Text -/

def hex_digest (value : Bytes) : Bool :=
  value.length = 64 && value.all fun c => inRange '0' '9' c || inRange 'a' 'f' c

def key_id_valid (value : Bytes) : Bool :=
  value.length = 71 && value.take 7 = bytesOf "sha256:".toList && hex_digest (value.drop 7)

def name (value : Bytes) (maximum : Nat) : Bool :=
  value ≠ [] && value.length ≤ maximum && value.all fun c => inRange 'A' 'Z' c ||
    inRange 'a' 'z' c || inRange '0' '9' c || c = byte '_' || c = byte '.' || c = byte ':' ||
    c = byte '-'

/-- What the first byte of a character says: the bytes that follow, its bits of
the code point, and the least code point. -/
def utf8First (first : Nat) : Option (Nat × Nat × Nat) :=
  if first < 0x80 then some (0, first, 0)
  else if 0xc2 ≤ first ∧ first ≤ 0xdf then some (1, first &&& 0x1f, 0x80)
  else if 0xe0 ≤ first ∧ first ≤ 0xef then some (2, first &&& 0xf, 0x800)
  else if 0xf0 ≤ first ∧ first ≤ 0xf4 then some (3, first &&& 7, 0x10000)
  else none

/-- The code point after the bytes that follow, and the bytes after them. -/
def utf8Follow : Nat → Nat → Bytes → Option (Nat × Bytes)
  | 0, point, rest => some (point, rest)
  | _ + 1, _, [] => none
  | count + 1, point, next :: rest =>
    if next.toNat &&& 0xc0 ≠ 0x80 then none
    else utf8Follow count (point <<< 6 ||| next.toNat &&& 0x3f) rest

/-- One turn of the loop of `utf8_text`: the bytes after a character. -/
def utf8Next : Bytes → Option Bytes
  | [] => none
  | first :: rest => do
    let (count, point, minimum) ← utf8First first.toNat
    let (point, rest) ← utf8Follow count point rest
    if point < minimum ∨ 0x10ffff < point ∨ (0xd800 ≤ point ∧ point ≤ 0xdfff) then none
    else return rest

def utf8Loop : Nat → Bytes → Bool
  | _, [] => true
  | 0, _ :: _ => false
  | n + 1, first :: rest =>
    match utf8Next (first :: rest) with
    | none => false
    | some rest => utf8Loop n rest

def utf8_text (value : Bytes) (maximum : Nat) : Bool :=
  value ≠ [] && value.length ≤ maximum && utf8Loop value.length value

/-- `std::from_chars` fails on a value of more than 64 bits. -/
def safe_integer (text : Bytes) : Option Nat :=
  if text = [] ∨ (1 < text.length ∧ text.head? = some (byte '0')) ∨ ¬ text.all (inRange '0' '9') then
    none
  else
    let value := decimalValue text
    if 2 ^ 64 ≤ value ∨ 9007199254740991 < value then none else some value

/-! ## Leases -/

structure BoundLeaseClaims where
  signer_key_id : Bytes
  issuer : Bytes
  audience : Bytes
  project : Bytes
  feature : Bytes
  license_fingerprint : Bytes
  binding_id : Bytes
  device_key_id : Bytes
  lease_id : Bytes
  operation_id : Bytes
  generation : Nat
  revocation_seq : Nat
  issued_at : Nat
  renew_after : Nat
  expires_at : Nat

def fields : List String := ["version", "purpose", "key-id", "issuer", "audience", "project",
  "feature", "license-fingerprint", "binding-id", "device-key-id", "generation", "revocation-seq",
  "lease-id", "operation-id", "issued-at", "renew-after", "expires-at"]

/-- The values of the lines, and the bytes after them. -/
def readFields : List String → Bytes → Option (List Bytes × Bytes)
  | [], payload => some ([], payload)
  | field :: fields, payload => do
    let fieldPrefix := bytesOf field.toList ++ [byte '=']
    let (line, rest) ← takeLine (byte '\n') payload
    if line.length < fieldPrefix.length ∨ line.take fieldPrefix.length ≠ fieldPrefix then none
    else do
      let (values, rest) ← readFields fields rest
      return (line.drop fieldPrefix.length :: values, rest)

/-- A value of the lines that is a text. -/
def decodeText (value : Bytes) : Option Bytes := do
  let decoded ← decode_base64url value 1024
  if utf8_text decoded 1024 then return decoded else none

/-- The checks on the texts and the numbers of the claims. -/
def claimsValid (purpose : Bytes) (c : BoundLeaseClaims) : Bool :=
  purpose = bytesOf "device-lease".toList && key_id_valid c.signer_key_id &&
    key_id_valid c.device_key_id && name c.project 127 && name c.feature 15 &&
    hex_digest c.license_fingerprint && token c.binding_id 16 && token c.lease_id 16 &&
    token c.operation_id 32 && 1 ≤ c.generation && c.issued_at < c.renew_after &&
    c.renew_after < c.expires_at && c.expires_at - c.issued_at ≤ 86400 &&
    c.expires_at ≤ 9007199254740991 - 120

/-- The claims of the values, in the order of `fields`. -/
def valuesClaims : List Bytes → Option BoundLeaseClaims
  | [version, purpose, key_id, issuer, audience, project, feature, license_fingerprint, binding_id,
      device_key_id, generation, revocation_seq, lease_id, operation_id, issued_at, renew_after,
      expires_at] => do
    let version ← safe_integer version
    if version ≠ 1 then none
    else do
      let generation ← safe_integer generation
      let revocation_seq ← safe_integer revocation_seq
      let issued_at ← safe_integer issued_at
      let renew_after ← safe_integer renew_after
      let expires_at ← safe_integer expires_at
      let purpose ← decodeText purpose
      let signer_key_id ← decodeText key_id
      let issuer ← decodeText issuer
      let audience ← decodeText audience
      let project ← decodeText project
      let feature ← decodeText feature
      let license_fingerprint ← decodeText license_fingerprint
      let binding_id ← decodeText binding_id
      let device_key_id ← decodeText device_key_id
      let lease_id ← decodeText lease_id
      let operation_id ← decodeText operation_id
      let candidate : BoundLeaseClaims := ⟨signer_key_id, issuer, audience, project, feature,
        license_fingerprint, binding_id, device_key_id, lease_id, operation_id, generation,
        revocation_seq, issued_at, renew_after, expires_at⟩
      if claimsValid purpose candidate then return candidate else none
  | _ => none

def payload_claims (bytes : Bytes) : Option BoundLeaseClaims :=
  if bytes = [] ∨ 4096 < bytes.length then none
  else do
    let (values, rest) ← readFields fields bytes
    if rest ≠ [] then none else valuesClaims values

structure ParsedBoundLease where
  claims : BoundLeaseClaims
  payload : Bytes
  signature : Bytes

def decode_bound_lease (token_value : Bytes) : Option ParsedBoundLease :=
  if 8192 < token_value.length ∨ token_value.take 7 ≠ bytesOf "lccdl1.".toList then none
  else
    match takeLine (byte '.') (token_value.drop 7) with
    | none => none
    | some (part₁, part₂) =>
      if byte '.' ∈ part₂ then none
      else do
        let payload ← decode_base64url part₁ 4096
        let signature ← decode_base64url part₂ 384
        if signature.length ≠ 384 then none
        else do
          let claims ← payload_claims payload
          return ⟨claims, payload, signature⟩

/-! ## What base64url decodes -/

theorem word_eq {a b c : Nat} (hb : b < 256) (hc : c < 256) :
    a <<< 16 ||| b <<< 8 ||| c = a * 65536 + b * 256 + c := by
  have hb' : b <<< 8 < 2 ^ 16 := by
    rw [Nat.shiftLeft_eq]
    omega
  have hab : a <<< 16 ||| b <<< 8 = (a <<< 8 + b) <<< 8 := by
    rw [← Nat.shiftLeft_add_eq_or_of_lt hb']
    simp only [Nat.shiftLeft_eq]
    omega
  rw [hab, ← Nat.shiftLeft_add_eq_or_of_lt (show c < 2 ^ 8 from hc)]
  simp only [Nat.shiftLeft_eq]
  omega

set_option maxRecDepth 20000 in
theorem base64Digit_eq (n : Nat) : base64Digit n = byte (standardAlphabet.getD (n % 64) 'A') := by
  have hall : ∀ d < 64, kBase64Alphabet.getD d 0 = byte (standardAlphabet.getD d 'A') := by
    decide
  unfold base64Digit
  rw [show (0x3f : Nat) = 2 ^ 6 - 1 from rfl, Nat.and_two_pow_sub_one_eq_mod]
  exact hall _ (Nat.mod_lt n (by omega))

theorem encode_canonical_base64_eq (bytes : Bytes) :
    encode_canonical_base64 bytes = bytesOf (btoa bytes) := by
  unfold btoa encode64
  induction bytes using by_threes with
  | nil => rfl
  | one a =>
    have := a.toNat_lt
    have h1 : (a.toNat <<< 16) >>> 18 % 64 = a.toNat / 4 := by
      simp only [Nat.shiftLeft_eq, Nat.shiftRight_eq_div_pow]
      omega
    have h2 : (a.toNat <<< 16) >>> 12 % 64 = a.toNat % 4 * 16 := by
      simp only [Nat.shiftLeft_eq, Nat.shiftRight_eq_div_pow]
      omega
    simp only [encode_canonical_base64, base64Digit_eq, h1, h2]
    rfl
  | two a b =>
    have := a.toNat_lt
    have := b.toNat_lt
    have hw := word_eq (a := a.toNat) b.toNat_lt (show 0 < 256 by omega)
    rw [Nat.or_zero] at hw
    have h1 : (a.toNat <<< 16 ||| b.toNat <<< 8) >>> 18 % 64 = a.toNat / 4 := by
      rw [hw, Nat.shiftRight_eq_div_pow]
      omega
    have h2 : (a.toNat <<< 16 ||| b.toNat <<< 8) >>> 12 % 64 =
        a.toNat % 4 * 16 + b.toNat / 16 := by
      rw [hw, Nat.shiftRight_eq_div_pow]
      omega
    have h3 : (a.toNat <<< 16 ||| b.toNat <<< 8) >>> 6 % 64 = b.toNat % 16 * 4 := by
      rw [hw, Nat.shiftRight_eq_div_pow]
      omega
    simp only [encode_canonical_base64, base64Digit_eq, h1, h2, h3]
    rfl
  | three a b c rest ih =>
    have := a.toNat_lt
    have := b.toNat_lt
    have := c.toNat_lt
    have hw := word_eq (a := a.toNat) b.toNat_lt c.toNat_lt
    have h1 : (a.toNat <<< 16 ||| b.toNat <<< 8 ||| c.toNat) >>> 18 % 64 = a.toNat / 4 := by
      rw [hw, Nat.shiftRight_eq_div_pow]
      omega
    have h2 : (a.toNat <<< 16 ||| b.toNat <<< 8 ||| c.toNat) >>> 12 % 64 =
        a.toNat % 4 * 16 + b.toNat / 16 := by
      rw [hw, Nat.shiftRight_eq_div_pow]
      omega
    have h3 : (a.toNat <<< 16 ||| b.toNat <<< 8 ||| c.toNat) >>> 6 % 64 =
        b.toNat % 16 * 4 + c.toNat / 64 := by
      rw [hw, Nat.shiftRight_eq_div_pow]
      omega
    have h4 : (a.toNat <<< 16 ||| b.toNat <<< 8 ||| c.toNat) % 64 = c.toNat % 64 := by
      rw [hw]
      omega
    have hpad : (3 - (a :: b :: c :: rest).length % 3) % 3 = (3 - rest.length % 3) % 3 := by
      simp only [List.length_cons]
      omega
    simp only [encode_canonical_base64, base64Digit_eq, h1, h2, h3, h4, ih, hpad]
    rfl

set_option maxRecDepth 20000 in
theorem replaceBytes_digit {d : Nat} (h : d < 64) :
    (fun c => if c = byte '/' then byte '_' else c)
      ((fun c => if c = byte '+' then byte '-' else c) (byte (standardAlphabet.getD d 'A'))) =
    byte (urlAlphabet.getD d 'A') := by
  have hall : ∀ d < 64, (fun c => if c = byte '/' then byte '_' else c)
      ((fun c => if c = byte '+' then byte '-' else c) (byte (standardAlphabet.getD d 'A'))) =
      byte (urlAlphabet.getD d 'A') := by decide
  exact hall d h

theorem byte_ne_of_mem {c d : Char} (hc : c ∈ urlAlphabet) (hd : d ∉ urlAlphabet)
    (hlt : d.toNat < 128) : byte c ≠ byte d := by
  intro h
  have hlt' := (ascii_of_all (show urlAlphabet.all (fun c => c.toNat < 128) = true by decide)) c hc
  have hn := congrArg UInt8.toNat h
  unfold byte at hn
  rw [UInt8.toNat_ofNat', UInt8.toNat_ofNat', Nat.mod_eq_of_lt (by omega),
    Nat.mod_eq_of_lt (by omega)] at hn
  exact hd (Char.toNat_inj.mp hn ▸ hc)

theorem byte_not_mem {d : Char} (bytes : Bytes) (hd : d ∉ urlAlphabet) (hlt : d.toNat < 128) :
    byte d ∉ bytesOf (encodeBase64url bytes) := by
  intro h
  obtain ⟨c, hc, he⟩ := List.mem_map.mp h
  rw [encodeBase64url_eq] at hc
  exact byte_ne_of_mem (mem_of_encode64 rfl hc) hd hlt he

theorem base64url_eq (bytes : Bytes) : base64url bytes = bytesOf (encodeBase64url bytes) := by
  have hdigits : ((bytesOf (encode64 standardAlphabet bytes)).map
      ((fun c => if c = byte '/' then byte '_' else c) ∘
        fun c => if c = byte '+' then byte '-' else c)) = bytesOf (encodeBase64url bytes) := by
    rw [encodeBase64url_eq]
    unfold bytesOf encode64
    rw [List.map_map, List.map_map, List.map_map]
    exact List.map_congr_left fun d hd => replaceBytes_digit (sextets_lt bytes d hd)
  unfold base64url replaceBytes
  rw [encode_canonical_base64_eq]
  unfold btoa
  rw [bytesOf_append, List.map_append, List.map_append, List.map_map, hdigits]
  have hpad : (bytesOf (List.replicate ((3 - bytes.length % 3) % 3) '=')).map
      ((fun c => if c = byte '/' then byte '_' else c) ∘
        fun c => if c = byte '+' then byte '-' else c) =
      List.replicate ((3 - bytes.length % 3) % 3) (byte '=') := by
    unfold bytesOf
    rw [List.map_replicate, List.map_replicate]
    rfl
  rw [List.map_map, hpad]
  exact rdropWhile_pad (byte_not_mem bytes (by decide) (by decide)) _

/-- The character of a digit. -/
def standardDigit (d : Nat) : UInt8 := byte (standardAlphabet.getD d 'A')

set_option maxRecDepth 20000 in
theorem decode_base64_character_digit {d : Nat} (h : d < 64) :
    decode_base64_character (standardDigit d) = d := by
  have hall : ∀ d < 64, decode_base64_character (standardDigit d) = d := by decide
  exact hall d h

set_option maxRecDepth 20000 in
theorem standardDigit_ne {d : Nat} (h : d < 64) : standardDigit d ≠ byte '=' := by
  have hall : ∀ d < 64, standardDigit d ≠ byte '=' := by decide
  exact hall d h

theorem digits_word_eq {w x y z : Nat} (hx : x < 64) (hy : y < 64) (hz : z < 64) :
    w <<< 18 ||| x <<< 12 ||| y <<< 6 ||| z = w * 262144 + x * 4096 + y * 64 + z := by
  have hx' : x <<< 12 < 2 ^ 18 := by
    rw [Nat.shiftLeft_eq]
    omega
  have hwx : w <<< 18 ||| x <<< 12 = (w <<< 6 + x) <<< 12 := by
    rw [← Nat.shiftLeft_add_eq_or_of_lt hx']
    simp only [Nat.shiftLeft_eq]
    omega
  have hy' : y <<< 6 < 2 ^ 12 := by
    rw [Nat.shiftLeft_eq]
    omega
  have hwxy : (w <<< 6 + x) <<< 12 ||| y <<< 6 = ((w <<< 6 + x) <<< 6 + y) <<< 6 := by
    rw [← Nat.shiftLeft_add_eq_or_of_lt hy']
    simp only [Nat.shiftLeft_eq]
    omega
  rw [hwx, hwxy, ← Nat.shiftLeft_add_eq_or_of_lt (show z < 2 ^ 6 from hz)]
  simp only [Nat.shiftLeft_eq]
  omega

theorem byte_of_word {m n : Nat} (h : m % 256 = n % 256) : UInt8.ofNat m = UInt8.ofNat n := by
  apply UInt8.toNat_inj.mp
  rw [UInt8.toNat_ofNat', UInt8.toNat_ofNat']
  exact h

theorem decodeGroup_four {last : Bool} {w x y z : Nat} (hw : w < 64) (hx : x < 64) (hy : y < 64)
    (hz : z < 64) :
    decodeGroup last (standardDigit w) (standardDigit x) (standardDigit y) (standardDigit z) =
      some [UInt8.ofNat (w * 4 + x / 16), UInt8.ofNat (x % 16 * 16 + y / 4),
        UInt8.ofNat (y % 4 * 64 + z)] := by
  unfold decodeGroup
  simp only [decode_base64_character_digit hw, decode_base64_character_digit hx,
    decode_base64_character_digit hy, decode_base64_character_digit hz,
    if_neg (standardDigit_ne hy), if_neg (standardDigit_ne hz)]
  rw [if_neg (by omega), if_neg (by omega), if_neg (by omega), if_pos (by omega),
    if_pos (by omega)]
  simp only [Int.toNat_natCast, digits_word_eq hx hy hz, Nat.shiftRight_eq_div_pow]
  rw [byte_of_word (n := w * 4 + x / 16) (by omega),
    byte_of_word (m := _ / 2 ^ 8) (n := x % 16 * 16 + y / 4) (by omega),
    byte_of_word (m := _ * 262144 + _ + _ + _) (n := y % 4 * 64 + z) (by omega)]
  rfl

theorem decodeGroup_three {w x y : Nat} (hw : w < 64) (hx : x < 64) (hy : y < 64) :
    decodeGroup true (standardDigit w) (standardDigit x) (standardDigit y) (byte '=') =
      some [UInt8.ofNat (w * 4 + x / 16), UInt8.ofNat (x % 16 * 16 + y / 4)] := by
  unfold decodeGroup
  simp only [decode_base64_character_digit hw, decode_base64_character_digit hx,
    decode_base64_character_digit hy, if_neg (standardDigit_ne hy), if_pos trivial]
  rw [if_neg (by simp), if_neg (by omega), if_pos (by omega), if_pos (by omega),
    if_neg (by omega)]
  simp only [Int.toNat_natCast, digits_word_eq hx hy (show 0 < 64 by omega),
    Nat.shiftRight_eq_div_pow]
  rw [byte_of_word (n := w * 4 + x / 16) (by omega),
    byte_of_word (m := _ / 2 ^ 8) (n := x % 16 * 16 + y / 4) (by omega)]
  rfl

theorem decodeGroup_two {w x : Nat} (hw : w < 64) (hx : x < 64) :
    decodeGroup true (standardDigit w) (standardDigit x) (byte '=') (byte '=') =
      some [UInt8.ofNat (w * 4 + x / 16)] := by
  unfold decodeGroup
  simp only [decode_base64_character_digit hw, decode_base64_character_digit hx, if_pos trivial]
  rw [if_neg (by simp), if_pos (by omega), if_neg (by omega)]
  simp only [Int.toNat_natCast, digits_word_eq hx (show 0 < 64 by omega) (show 0 < 64 by omega),
    Nat.shiftRight_eq_div_pow]
  rw [byte_of_word (n := w * 4 + x / 16) (by omega)]
  rfl

/-- The groups of an encoding are decoded to its bytes. -/
theorem decodeGroups_encode (bytes : Bytes) :
    decodeGroups (encode_canonical_base64 bytes) = some bytes := by
  rw [encode_canonical_base64_eq]
  induction bytes using by_threes with
  | nil => rfl
  | one a =>
    have := a.toNat_lt
    have hg := decodeGroup_two (w := a.toNat / 4) (x := a.toNat % 4 * 16) (by omega) (by omega)
    rw [byte_eq (b := a) (by omega)] at hg
    have henc : bytesOf (btoa [a]) = [standardDigit (a.toNat / 4),
        standardDigit (a.toNat % 4 * 16), byte '=', byte '='] := rfl
    rw [henc, decodeGroups, List.isEmpty_nil, hg]
    rfl
  | two a b =>
    have := a.toNat_lt
    have := b.toNat_lt
    have hg := decodeGroup_three (w := a.toNat / 4) (x := a.toNat % 4 * 16 + b.toNat / 16)
      (y := b.toNat % 16 * 4) (by omega) (by omega) (by omega)
    rw [byte_eq (b := a) (by omega), byte_eq (b := b) (by omega)] at hg
    have henc : bytesOf (btoa [a, b]) = [standardDigit (a.toNat / 4),
        standardDigit (a.toNat % 4 * 16 + b.toNat / 16), standardDigit (b.toNat % 16 * 4),
        byte '='] := rfl
    rw [henc, decodeGroups, List.isEmpty_nil, hg]
    rfl
  | three a b c rest ih =>
    have := a.toNat_lt
    have := b.toNat_lt
    have := c.toNat_lt
    have hg := @decodeGroup_four (bytesOf (btoa rest)).isEmpty (a.toNat / 4)
      (a.toNat % 4 * 16 + b.toNat / 16) (b.toNat % 16 * 4 + c.toNat / 64) (c.toNat % 64) (by omega) (by omega) (by omega) (by omega)
    rw [byte_eq (b := a) (by omega), byte_eq (b := b) (by omega),
      byte_eq (b := c) (by omega)] at hg
    have hpad : (3 - (a :: b :: c :: rest).length % 3) % 3 = (3 - rest.length % 3) % 3 := by
      simp only [List.length_cons]
      omega
    have henc : bytesOf (btoa (a :: b :: c :: rest)) = standardDigit (a.toNat / 4) ::
        standardDigit (a.toNat % 4 * 16 + b.toNat / 16) ::
        standardDigit (b.toNat % 16 * 4 + c.toNat / 64) :: standardDigit (c.toNat % 64) ::
        bytesOf (btoa rest) := by
      unfold btoa
      rw [hpad]
      rfl
    rw [henc, decodeGroups, hg, ih]
    rfl

/-- The padding fills the last group of four. -/
theorem padding_eq (n : Nat) : (4 - (n * 4 + 2) / 3 % 4) % 4 = (3 - n % 3) % 3 ∧
    ((n * 4 + 2) / 3 + (3 - n % 3) % 3) % 4 = 0 := by
  obtain ⟨q, r, hr, rfl⟩ : ∃ q r, r < 3 ∧ n = 3 * q + r :=
    ⟨n / 3, n % 3, Nat.mod_lt n (by omega), by omega⟩
  have hlen : ((3 * q + r) * 4 + 2) / 3 = 4 * q + (4 * r + 2) / 3 := by omega
  have hmod : (3 * q + r) % 3 = r := by omega
  rw [hlen, hmod]
  have hcases : r = 0 ∨ r = 1 ∨ r = 2 := by omega
  rcases hcases with rfl | rfl | rfl <;> omega

/-- The encoding of some bytes is decoded to them. -/
theorem decode_canonical_base64_ok {encoded bytes : Bytes} :
    decode_canonical_base64 encoded = some bytes ↔
      encode_canonical_base64 bytes = encoded ∧ encoded ≠ [] := by
  have hmod : (encode_canonical_base64 bytes).length % 4 = 0 := by
    rw [encode_canonical_base64_eq]
    unfold btoa
    rw [length_bytesOf, List.length_append, length_encode64, List.length_replicate]
    exact (padding_eq bytes.length).2
  unfold decode_canonical_base64
  constructor
  · intro h
    split at h
    · cases h
    rename_i hne
    obtain ⟨candidate, -, h⟩ := Option.bind_eq_some_iff.mp h
    split at h
    · cases h
    rename_i henc
    obtain rfl := Option.some.inj h
    exact ⟨not_not.mp henc, fun h0 => hne (.inl h0)⟩
  · rintro ⟨rfl, hne⟩
    rw [if_neg (by simp [hne, hmod]), decodeGroups_encode]
    simp

set_option maxRecDepth 20000 in
theorem mem_base64urlByte {c : UInt8} (h : base64urlByte c = true) :
    ∃ d ∈ urlAlphabet, c = byte d := by
  have hall : ∀ n < 256, base64urlByte (UInt8.ofNat n) = true →
      urlAlphabet.any (fun d => UInt8.ofNat n = byte d) = true := by decide
  have hc := hall c.toNat c.toNat_lt
  rw [UInt8.ofNat_toNat] at hc
  obtain ⟨d, hd, he⟩ := List.any_eq_true.mp (hc h)
  exact ⟨d, hd, of_decide_eq_true he⟩

theorem base64urlByte_of_mem {d : Char} (h : d ∈ urlAlphabet) : base64urlByte (byte d) = true := by
  have hall : urlAlphabet.all (fun d => base64urlByte (byte d)) = true := by decide
  exact List.all_eq_true.mp hall d h

/-- The standard digits of a value of the alphabet of URLs give the value back. -/
theorem replaceBytes_back {value : Bytes} (h : value.all base64urlByte) :
    replaceBytes '/' '_' (replaceBytes '+' '-' (replaceBytes '_' '/' (replaceBytes '-' '+' value))) =
      value ∧ byte '=' ∉ value := by
  have hchars : urlAlphabet.all (fun d => (fun c => if c = byte '/' then byte '_' else c)
      ((fun c => if c = byte '+' then byte '-' else c)
        ((fun c => if c = byte '_' then byte '/' else c)
          ((fun c => if c = byte '-' then byte '+' else c) (byte d)))) = byte d &&
      byte d ≠ byte '=') = true := by decide
  have hall : ∀ d ∈ urlAlphabet, (fun c => if c = byte '/' then byte '_' else c)
      ((fun c => if c = byte '+' then byte '-' else c)
        ((fun c => if c = byte '_' then byte '/' else c)
          ((fun c => if c = byte '-' then byte '+' else c) (byte d)))) = byte d ∧
      byte d ≠ byte '=' := by
    intro d hd
    have h1 := List.all_eq_true.mp hchars d hd
    rw [Bool.and_eq_true, decide_eq_true_eq, decide_eq_true_eq] at h1
    exact h1
  rw [List.all_eq_true] at h
  constructor
  · unfold replaceBytes
    rw [List.map_map, List.map_map, List.map_map]
    conv => rhs; rw [← List.map_id value]
    refine List.map_congr_left fun c hc => ?_
    obtain ⟨d, hd, rfl⟩ := mem_base64urlByte (h c hc)
    exact (hall d hd).1
  · intro hmem
    obtain ⟨d, hd, he⟩ := mem_base64urlByte (h _ hmem)
    exact (hall d hd).2 he.symm

set_option maxRecDepth 20000 in
/-- A value is decoded exactly when it is the encoding of bytes within the bound. -/
theorem decode_base64url_ok {value bytes : Bytes} {maximum_bytes : Nat} (hm : maximum_bytes ≤ 8192) :
    decode_base64url value maximum_bytes = some bytes ↔
      bytesOf (encodeBase64url bytes) = value ∧ bytes.length ≤ maximum_bytes := by
  unfold decode_base64url
  constructor
  · intro h
    split at h
    · cases h
    split at h
    · rename_i hnil
      obtain rfl := Option.some.inj h
      exact ⟨hnil.symm, Nat.zero_le _⟩
    split at h
    · cases h
    rename_i hall
    rw [not_not] at hall
    obtain ⟨candidate, hc, h⟩ := Option.bind_eq_some_iff.mp h
    split at h
    · cases h
    rename_i hlen
    obtain rfl := Option.some.inj h
    obtain ⟨hback, hpad⟩ := replaceBytes_back hall
    refine ⟨?_, by omega⟩
    rw [← base64url_eq]
    unfold base64url
    rw [(decode_canonical_base64_ok.mp hc).1]
    have happend : ∀ a b : Char, ∀ s t : Bytes,
        replaceBytes a b (s ++ t) = replaceBytes a b s ++ replaceBytes a b t :=
      fun a b s t => List.map_append
    have hpads : ∀ k, replaceBytes '/' '_' (replaceBytes '+' '-' (List.replicate k (byte '='))) =
        List.replicate k (byte '=') := by
      intro k
      unfold replaceBytes
      rw [List.map_replicate, List.map_replicate]
      rfl
    rw [happend, happend, hback, hpads]
    exact rdropWhile_pad hpad _
  · rintro ⟨rfl, hlen⟩
    have hsize := length_encodeBase64url bytes
    rw [if_neg (by rw [length_bytesOf, hsize]; omega)]
    by_cases hnil : bytes = []
    · subst hnil
      rfl
    have hpos := List.length_pos_iff.mpr hnil
    have hne : bytesOf (encodeBase64url bytes) ≠ [] := by
      intro h0
      have := congrArg List.length h0
      rw [length_bytesOf, hsize, List.length_nil] at this
      omega
    have hall : (bytesOf (encodeBase64url bytes)).all base64urlByte := by
      rw [List.all_eq_true]
      intro c hc
      obtain ⟨d, hd, rfl⟩ := List.mem_map.mp hc
      rw [encodeBase64url_eq] at hd
      exact base64urlByte_of_mem (mem_of_encode64 rfl hd)
    have hstandard : replaceBytes '_' '/' (replaceBytes '-' '+' (bytesOf (encodeBase64url bytes))) =
        bytesOf (encode64 standardAlphabet bytes) := by
      have hdigit : ∀ d < 64, (fun c => if c = byte '_' then byte '/' else c)
          ((fun c => if c = byte '-' then byte '+' else c) (byte (urlAlphabet.getD d 'A'))) =
          byte (standardAlphabet.getD d 'A') := by decide
      rw [encodeBase64url_eq]
      unfold replaceBytes bytesOf encode64
      rw [List.map_map, List.map_map, List.map_map, List.map_map]
      exact List.map_congr_left fun d hd => hdigit d (sextets_lt bytes d hd)
    have hpadded : bytesOf (encode64 standardAlphabet bytes) ++ List.replicate
        ((4 - (bytesOf (encode64 standardAlphabet bytes)).length % 4) % 4) (byte '=') =
        encode_canonical_base64 bytes := by
      rw [encode_canonical_base64_eq, length_bytesOf, length_encode64]
      unfold btoa
      rw [bytesOf_append]
      rw [(padding_eq bytes.length).1]
      unfold bytesOf
      rw [List.map_replicate]
      rfl
    have hencoded : encode_canonical_base64 bytes ≠ [] := by
      intro h0
      have h1 := decodeGroups_encode bytes
      rw [h0] at h1
      exact hnil (Option.some.inj h1).symm
    rw [if_neg hne, if_neg (not_not.mpr hall)]
    simp only [hstandard, hpadded, decode_canonical_base64_ok.mpr ⟨rfl, hencoded⟩]
    simp [hlen]

/-! ## What is a text -/

set_option maxRecDepth 20000 in
theorem mark_iff {b : UInt8} : b.toNat &&& 0xc0 = 0x80 ↔ b.toNat / 64 = 2 := by
  have hall : ∀ n < 256, (n &&& 0xc0 = 0x80 ↔ n / 64 = 2) := by decide
  exact hall _ b.toNat_lt

theorem utf8Follow_cons {count point : Nat} {b : UInt8} {rest : Bytes} {r : Nat × Bytes} :
    utf8Follow (count + 1) point (b :: rest) = some r ↔
      b.toNat / 64 = 2 ∧ utf8Follow count (point * 64 + b.toNat % 64) rest = some r := by
  have hbits : point <<< 6 ||| b.toNat &&& 0x3f = point * 64 + b.toNat % 64 := by
    rw [show (0x3f : Nat) = 2 ^ 6 - 1 from rfl, Nat.and_two_pow_sub_one_eq_mod,
      ← Nat.shiftLeft_add_eq_or_of_lt (Nat.mod_lt _ (by omega)), Nat.shiftLeft_eq]
  have hstep : utf8Follow (count + 1) point (b :: rest) = if b.toNat &&& 0xc0 ≠ 0x80 then none
      else utf8Follow count (point <<< 6 ||| b.toNat &&& 0x3f) rest := rfl
  rw [hstep, hbits, ← mark_iff]
  by_cases h : b.toNat &&& 0xc0 = 0x80
  · simp [h]
  · simp [h]

theorem utf8First_eq {first : UInt8} {count point minimum : Nat} :
    utf8First first.toNat = some (count, point, minimum) ↔
      (first.toNat < 0x80 ∧ count = 0 ∧ point = first.toNat ∧ minimum = 0) ∨
      ((0xc2 ≤ first.toNat ∧ first.toNat ≤ 0xdf) ∧ count = 1 ∧ point = first.toNat % 32 ∧
        minimum = 0x80) ∨
      ((0xe0 ≤ first.toNat ∧ first.toNat ≤ 0xef) ∧ count = 2 ∧ point = first.toNat % 16 ∧
        minimum = 0x800) ∨
      ((0xf0 ≤ first.toNat ∧ first.toNat ≤ 0xf4) ∧ count = 3 ∧ point = first.toNat % 8 ∧
        minimum = 0x10000) := by
  unfold utf8First
  rw [show (0x1f : Nat) = 2 ^ 5 - 1 from rfl, show (0xf : Nat) = 2 ^ 4 - 1 from rfl,
    show (7 : Nat) = 2 ^ 3 - 1 from rfl, Nat.and_two_pow_sub_one_eq_mod,
    Nat.and_two_pow_sub_one_eq_mod, Nat.and_two_pow_sub_one_eq_mod]
  split
  · simp only [Option.some.injEq, Prod.mk.injEq]
    omega
  split
  · simp only [Option.some.injEq, Prod.mk.injEq]
    omega
  split
  · simp only [Option.some.injEq, Prod.mk.injEq]
    omega
  split
  · simp only [Option.some.injEq, Prod.mk.injEq]
    omega
  · simp only [reduceCtorEq, false_iff]
    omega

theorem utf8Next_cons {first : UInt8} {rest r : Bytes} :
    utf8Next (first :: rest) = some r ↔ ∃ count point minimum point',
      utf8First first.toNat = some (count, point, minimum) ∧
      utf8Follow count point rest = some (point', r) ∧
      minimum ≤ point' ∧ point' ≤ 0x10ffff ∧ ¬ (0xd800 ≤ point' ∧ point' ≤ 0xdfff) := by
  unfold utf8Next
  simp only [bind, Option.bind_eq_some_iff, Prod.exists, pure]
  constructor
  · rintro ⟨count, point, minimum, h1, point', r', h2, h3⟩
    split at h3
    · cases h3
    rename_i hrange
    obtain rfl := Option.some.inj h3
    exact ⟨count, point, minimum, point', h1, h2, by omega, by omega, by omega⟩
  · rintro ⟨count, point, minimum, point', h1, h2, h3, h4, h5⟩
    refine ⟨count, point, minimum, h1, point', r, h2, ?_⟩
    rw [if_neg (by omega)]

/-- The code point of a character. -/
theorem char_of_point {p : Nat} (h1 : p ≤ 0x10ffff) (h2 : ¬ (0xd800 ≤ p ∧ p ≤ 0xdfff)) :
    ∃ c : Char, c.val.toNat = p := by
  have hv : p.isValidChar := by
    unfold Nat.isValidChar
    omega
  exact ⟨Char.ofNatAux p hv, rfl⟩

theorem char_point (c : Char) : c.val.toNat ≤ 0x10ffff ∧ ¬ (0xd800 ≤ c.val.toNat ∧
    c.val.toNat ≤ 0xdfff) := by
  have hv := c.valid
  unfold UInt32.isValidChar Nat.isValidChar at hv
  omega

/-- A character ends where the bytes of its encoding end. -/
theorem utf8Next_ok {bs rest : Bytes} :
    utf8Next bs = some rest ↔ ∃ c, bs = String.utf8EncodeChar c ++ rest := by
  constructor
  · intro h
    cases bs with
    | nil => cases h
    | cons first bs =>
      obtain ⟨count, point, minimum, p, h1, h2, h3, h4, h5⟩ := utf8Next_cons.mp h
      obtain ⟨c, hc⟩ := char_of_point h4 h5
      refine ⟨c, ?_⟩
      have := first.toNat_lt
      unfold String.utf8EncodeChar
      simp only [hc]
      rcases utf8First_eq.mp h1 with ⟨hf, rfl, rfl, rfl⟩ | ⟨hf, rfl, rfl, rfl⟩ |
        ⟨hf, rfl, rfl, rfl⟩ | ⟨hf, rfl, rfl, rfl⟩
      · obtain ⟨rfl, rfl⟩ := Prod.mk.inj (Option.some.inj h2)
        rw [if_pos (by omega), UInt8.ofNat_toNat]
        rfl
      · cases bs with
        | nil => cases h2
        | cons b bs =>
          obtain ⟨hb, h2⟩ := utf8Follow_cons.mp h2
          obtain ⟨rfl, rfl⟩ := Prod.mk.inj (Option.some.inj h2)
          rw [if_neg (by omega), if_pos (by omega), byte_eq (b := first) (by omega),
            byte_eq (b := b) (by omega)]
          rfl
      · cases bs with
        | nil => cases h2
        | cons b bs =>
          obtain ⟨hb, h2⟩ := utf8Follow_cons.mp h2
          cases bs with
          | nil => cases h2
          | cons b' bs =>
            obtain ⟨hb', h2⟩ := utf8Follow_cons.mp h2
            obtain ⟨rfl, rfl⟩ := Prod.mk.inj (Option.some.inj h2)
            rw [if_neg (by omega), if_neg (by omega), if_pos (by omega),
              byte_eq (b := first) (by omega), byte_eq (b := b) (by omega),
              byte_eq (b := b') (by omega)]
            rfl
      · cases bs with
        | nil => cases h2
        | cons b bs =>
          obtain ⟨hb, h2⟩ := utf8Follow_cons.mp h2
          cases bs with
          | nil => cases h2
          | cons b' bs =>
            obtain ⟨hb', h2⟩ := utf8Follow_cons.mp h2
            cases bs with
            | nil => cases h2
            | cons b'' bs =>
              obtain ⟨hb'', h2⟩ := utf8Follow_cons.mp h2
              obtain ⟨rfl, rfl⟩ := Prod.mk.inj (Option.some.inj h2)
              rw [if_neg (by omega), if_neg (by omega), if_neg (by omega),
                byte_eq (b := first) (by omega), byte_eq (b := b) (by omega),
                byte_eq (b := b') (by omega), byte_eq (b := b'') (by omega)]
              rfl
  · rintro ⟨c, rfl⟩
    obtain ⟨h1, h2⟩ := char_point c
    have hmod : ∀ n < 256, (UInt8.ofNat n).toNat = n := fun n hn => by
      rw [UInt8.toNat_ofNat', Nat.mod_eq_of_lt hn]
    unfold String.utf8EncodeChar
    simp only
    split
    · refine utf8Next_cons.mpr ⟨0, c.val.toNat, 0, c.val.toNat, ?_, rfl, by omega, h1, h2⟩
      rw [utf8First_eq, hmod _ (by omega)]
      omega
    split
    · refine utf8Next_cons.mpr ⟨1, c.val.toNat / 64, 0x80, c.val.toNat, ?_, ?_, by omega, h1, h2⟩
      · rw [utf8First_eq, hmod _ (by omega)]
        omega
      · refine utf8Follow_cons.mpr ⟨by rw [hmod _ (by omega)]; omega, ?_⟩
        rw [hmod _ (by omega), show c.val.toNat / 64 * 64 + (c.val.toNat % 0x40 + 0x80) % 64 =
          c.val.toNat by omega]
        rfl
    split
    · refine utf8Next_cons.mpr ⟨2, c.val.toNat / 4096, 0x800, c.val.toNat, ?_, ?_, by omega, h1, h2⟩
      · rw [utf8First_eq, hmod _ (by omega)]
        omega
      · refine utf8Follow_cons.mpr ⟨by rw [hmod _ (by omega)]; omega, ?_⟩
        refine utf8Follow_cons.mpr ⟨by rw [hmod _ (by omega)]; omega, ?_⟩
        rw [hmod _ (by omega), hmod _ (by omega), show (c.val.toNat / 4096 * 64 +
          (c.val.toNat / 64 % 0x40 + 0x80) % 64) * 64 + (c.val.toNat % 0x40 + 0x80) % 64 =
          c.val.toNat by omega]
        rfl
    · refine utf8Next_cons.mpr
        ⟨3, c.val.toNat / 262144, 0x10000, c.val.toNat, ?_, ?_, by omega, h1, h2⟩
      · rw [utf8First_eq, hmod _ (by omega)]
        omega
      · refine utf8Follow_cons.mpr ⟨by rw [hmod _ (by omega)]; omega, ?_⟩
        refine utf8Follow_cons.mpr ⟨by rw [hmod _ (by omega)]; omega, ?_⟩
        refine utf8Follow_cons.mpr ⟨by rw [hmod _ (by omega)]; omega, ?_⟩
        rw [hmod _ (by omega), hmod _ (by omega), hmod _ (by omega), show ((c.val.toNat / 262144 * 64 +
          (c.val.toNat / 4096 % 0x40 + 0x80) % 64) * 64 + (c.val.toNat / 64 % 0x40 + 0x80) % 64) * 64 +
          (c.val.toNat % 0x40 + 0x80) % 64 = c.val.toNat by omega]
        rfl

theorem utf8Loop_ok {n : Nat} {bs : Bytes} (hn : bs.length ≤ n) :
    utf8Loop n bs = true ↔ ∃ s, utf8 s = bs := by
  induction n generalizing bs with
  | zero =>
    obtain rfl := List.length_eq_zero_iff.mp (Nat.le_zero.mp hn)
    exact ⟨fun _ => ⟨[], rfl⟩, fun _ => rfl⟩
  | succ n ih =>
    cases bs with
    | nil => exact ⟨fun _ => ⟨[], rfl⟩, fun _ => rfl⟩
    | cons b bs =>
      unfold utf8Loop
      constructor
      · intro h
        split at h
        · cases h
        rename_i rest hrest
        obtain ⟨c, hc⟩ := utf8Next_ok.mp hrest
        have hlen : rest.length ≤ n := by
          have h1 := congrArg List.length hc
          rw [List.length_append, String.length_utf8EncodeChar] at h1
          have := c.utf8Size_pos
          omega
        obtain ⟨s, rfl⟩ := (ih hlen).mp h
        exact ⟨c :: s, hc.symm⟩
      · rintro ⟨s, hs⟩
        cases s with
        | nil => cases hs
        | cons c s =>
          rw [utf8_cons] at hs
          have hlen : (utf8 s).length ≤ n := by
            have h1 := congrArg List.length hs
            rw [List.length_append, String.length_utf8EncodeChar] at h1
            have := c.utf8Size_pos
            omega
          rw [utf8Next_ok.mpr ⟨c, hs.symm⟩]
          exact (ih hlen).mpr ⟨s, rfl⟩

/-- A text is the encoding of some characters, not empty and within the bound. -/
theorem utf8_text_ok {value : Bytes} {maximum : Nat} : utf8_text value maximum = true ↔
    value ≠ [] ∧ value.length ≤ maximum ∧ ∃ s, utf8 s = value := by
  unfold utf8_text
  rw [Bool.and_eq_true, Bool.and_eq_true, utf8Loop_ok (Nat.le_refl _)]
  simp [and_assoc]

end Licensecc.Protocol
