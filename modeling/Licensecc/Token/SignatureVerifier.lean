-- The policy of the signature verifier: which keys and which requests it takes.
-- The check of the signature itself is the one of the crypto library.
import Licensecc.Token.Base64

open Licensecc.Codec Licensecc.Protocol

namespace Licensecc.Token

def LCC_SIGNATURE_ALGORITHM_RSA_PKCS1_SHA256 : Bytes := bytesOf "rsa-pkcs1-sha256".toList

/-! ## SHA-256 -/

/-- A sum of `uint32_t`. -/
def add32 (a b : Nat) : Nat := (a + b) % 2 ^ 32

/-- `~value` -/
def not32 (value : Nat) : Nat := value ^^^ 0xffffffff

def signature_sha256_rotr (value bits : Nat) : Nat :=
  value >>> bits ||| value <<< (32 - bits) % 2 ^ 32

def sha256K : List Nat := [
  0x428a2f98, 0x71374491, 0xb5c0fbcf, 0xe9b5dba5, 0x3956c25b, 0x59f111f1, 0x923f82a4,
  0xab1c5ed5, 0xd807aa98, 0x12835b01, 0x243185be, 0x550c7dc3, 0x72be5d74, 0x80deb1fe,
  0x9bdc06a7, 0xc19bf174, 0xe49b69c1, 0xefbe4786, 0x0fc19dc6, 0x240ca1cc, 0x2de92c6f,
  0x4a7484aa, 0x5cb0a9dc, 0x76f988da, 0x983e5152, 0xa831c66d, 0xb00327c8, 0xbf597fc7,
  0xc6e00bf3, 0xd5a79147, 0x06ca6351, 0x14292967, 0x27b70a85, 0x2e1b2138, 0x4d2c6dfc,
  0x53380d13, 0x650a7354, 0x766a0abb, 0x81c2c92e, 0x92722c85, 0xa2bfe8a1, 0xa81a664b,
  0xc24b8b70, 0xc76c51a3, 0xd192e819, 0xd6990624, 0xf40e3585, 0x106aa070, 0x19a4c116,
  0x1e376c08, 0x2748774c, 0x34b0bcb5, 0x391c0cb3, 0x4ed8aa4a, 0x5b9cca4f, 0x682e6ff3,
  0x748f82ee, 0x78a5636f, 0x84c87814, 0x8cc70208, 0x90befffa, 0xa4506ceb, 0xbef9a3f7,
  0xc67178f2]

def sha256H : List Nat := [0x6a09e667, 0xbb67ae85, 0x3c6ef372, 0xa54ff53a,
  0x510e527f, 0x9b05688c, 0x1f83d9ab, 0x5be0cd19]

/-- The bytes of a number, the high one first. -/
def bigEndian (count n : Nat) : Bytes :=
  (List.range count).map fun i => UInt8.ofNat (n >>> (8 * (count - 1 - i)) &&& 0xff)

/-- The message with its padding and its length. -/
def sha256Message (data : Bytes) : Bytes :=
  data ++ [0x80] ++ List.replicate ((119 - data.length % 64) % 64) 0 ++
    bigEndian 8 (data.length * 8 % 2 ^ 64)

/-- The next word of `w`, after the words that are there, the last one first. -/
def sha256Word (words : List Nat) : Nat :=
  let w := fun back => words.getD (back - 1) 0
  let s0 := signature_sha256_rotr (w 15) 7 ^^^ signature_sha256_rotr (w 15) 18 ^^^ w 15 >>> 3
  let s1 := signature_sha256_rotr (w 2) 17 ^^^ signature_sha256_rotr (w 2) 19 ^^^ w 2 >>> 10
  add32 (add32 (add32 (w 16) s0) (w 7)) s1

/-- The first words of a block, the last one first. -/
def sha256Words : Nat → Bytes → List Nat → List Nat
  | n + 1, a :: b :: c :: d :: rest, words => sha256Words n rest
    ((a.toNat <<< 24 ||| b.toNat <<< 16 ||| c.toNat <<< 8 ||| d.toNat) :: words)
  | _, _, words => words

def sha256Schedule : Nat → List Nat → List Nat
  | 0, words => words
  | n + 1, words => sha256Schedule n (sha256Word words :: words)

/-- One turn of the loop of a block. -/
def sha256Round (s : List Nat) (kw : Nat × Nat) : List Nat :=
  match s with
  | [a, b, c, d, e, f, g, hh] =>
    let s1 := signature_sha256_rotr e 6 ^^^ signature_sha256_rotr e 11 ^^^ signature_sha256_rotr e 25
    let ch := (e &&& f) ^^^ (not32 e &&& g)
    let temp1 := add32 (add32 (add32 (add32 hh s1) ch) kw.1) kw.2
    let s0 := signature_sha256_rotr a 2 ^^^ signature_sha256_rotr a 13 ^^^ signature_sha256_rotr a 22
    let maj := (a &&& b) ^^^ (a &&& c) ^^^ (b &&& c)
    let temp2 := add32 s0 maj
    [add32 temp1 temp2, a, b, c, add32 d temp1, e, f, g]
  | s => s

/-- The state after some blocks of the message. -/
def sha256Blocks : Nat → Bytes → List Nat → List Nat
  | 0, _, h => h
  | n + 1, message, h =>
    let w := (sha256Schedule 48 (sha256Words 16 message [])).reverse
    sha256Blocks n (message.drop 64) (h.zipWith add32 ((sha256K.zip w).foldl sha256Round h))

/-- `std::hex`, of a digit -/
def hexDigit (n : Nat) : UInt8 := UInt8.ofNat (if n < 10 then 48 + n else 87 + n)

/-- `std::setw(8) << word`, in base 16 and filled with zeros. -/
def hexWord (word : Nat) : Bytes := (bigEndian 4 word).flatMap fun b =>
  [hexDigit (b.toNat >>> 4), hexDigit (b.toNat &&& 0xf)]

def signature_sha256_hex (data : Bytes) : Bytes :=
  let message := sha256Message data
  (sha256Blocks (message.length / 64) message sha256H).flatMap hexWord

def public_key_id_from_der (public_key_der : Bytes) : Bytes :=
  bytesOf "sha256:".toList ++ signature_sha256_hex public_key_der

/-! ## Public keys -/

structure SignaturePublicKey where
  key_id : Bytes
  public_key_der : Bytes
  bits : Nat

/-- `(result << 8U) | byte` over some bytes. -/
def beNat (bytes : Bytes) : Nat := bytes.foldl (fun result b => result <<< 8 ||| b.toNat) 0

/-- A length, and the offset after it. A `size_t` has eight bytes. -/
def signature_read_der_length (der : Bytes) (offset : Nat) : Option (Nat × Nat) :=
  if der.length ≤ offset then none
  else
    let first := (der.getD offset 0).toNat
    let offset := offset + 1
    if first &&& 0x80 = 0 then some (first, offset)
    else
      let length_bytes := first &&& 0x7f
      if length_bytes = 0 ∨ 8 < length_bytes ∨ der.length - offset < length_bytes ∨
          der.getD offset 0 = 0 then none
      else
        let result := beNat ((der.drop offset).take length_bytes)
        if result ≤ 127 then none else some (result, offset + length_bytes)

/-- Where the value of an integer starts, its length, and the offset after it. -/
def signature_read_der_integer_value (der : Bytes) (offset : Nat) : Option (Nat × Nat × Nat) :=
  if der.length ≤ offset ∨ der.getD offset 0 ≠ 0x02 then none
  else do
    let (encoded_length, offset) ← signature_read_der_length der (offset + 1)
    if encoded_length = 0 ∨ der.length - offset < encoded_length then none
    else if der.getD offset 0 = 0 then
      if encoded_length = 1 ∨ (der.getD (offset + 1) 0).toNat &&& 0x80 = 0 then none
      else return (offset + 1, encoded_length - 1, offset + encoded_length)
    else if (der.getD offset 0).toNat &&& 0x80 ≠ 0 then none
    else return (offset, encoded_length, offset + encoded_length)

/-- The value without its leading zeros. -/
def skipZeros (der : Bytes) : Nat → Nat → Nat × Nat
  | start, 0 => (start, 0)
  | start, length + 1 =>
    if der.getD start 0 = 0 then skipZeros der (start + 1) length else (start, length + 1)

/-- The number of bits of a number. -/
def bitLength (n : Nat) : Nat := if n = 0 then 0 else n.log2 + 1

/-- The count is an `unsigned int`. -/
def signature_bit_length_from_big_endian (der : Bytes) (value_start value_length : Nat) : Nat :=
  match skipZeros der value_start value_length with
  | (_, 0) => 0
  | (value_start, value_length + 1) =>
    (value_length * 8 + bitLength (der.getD value_start 0).toNat) % 2 ^ 32

/-- The exponent is odd and not one. -/
def exponentAllowed (der : Bytes) (exponent_start exponent_length : Nat) : Bool :=
  match skipZeros der exponent_start exponent_length with
  | (_, 0) => false
  | (exponent_start, exponent_length + 1) =>
    let exponent_lsb := (der.getD (exponent_start + exponent_length) 0).toNat
    exponent_lsb &&& 1 ≠ 0 && !(exponent_length + 1 = 1 && exponent_lsb < 3)

/-- The places and lengths of the modulus and of the exponent of a key. -/
def readPkcs1 (der : Bytes) : Option ((Nat × Nat) × (Nat × Nat)) :=
  if der.length ≤ 0 ∨ der.getD 0 0 ≠ 0x30 then none
  else do
    let (sequence_length, offset) ← signature_read_der_length der 1
    if sequence_length ≠ der.length - offset then none
    else do
      let (modulus_start, modulus_length, offset) ← signature_read_der_integer_value der offset
      let (exponent_start, exponent_length, offset) ← signature_read_der_integer_value der offset
      if offset ≠ der.length then none
      else return ((modulus_start, modulus_length), (exponent_start, exponent_length))

def rsa_public_key_bits_from_pkcs1_der (public_key_der : Bytes) : Nat :=
  match readPkcs1 public_key_der with
  | none => 0
  | some (modulus, exponent) =>
    if exponentAllowed public_key_der exponent.1 exponent.2 then
      signature_bit_length_from_big_endian public_key_der modulus.1 modulus.2
    else 0

def is_pkcs1_rsa_public_key_der (der : Bytes) : Bool := (readPkcs1 der).isSome

def signature_public_key_record_allowed (public_key : SignaturePublicKey)
    (min_public_key_bits : Nat) : Bool :=
  if public_key.key_id = [] ∨ public_key.public_key_der = [] then false
  else if public_key.key_id ≠ public_key_id_from_der public_key.public_key_der then false
  else
    let derived_bits := rsa_public_key_bits_from_pkcs1_der public_key.public_key_der
    if derived_bits = 0 then false
    else if public_key.bits ≠ 0 ∧ public_key.bits ≠ derived_bits then false
    else min_public_key_bits = 0 || min_public_key_bits ≤ derived_bits

/-! ## The policy -/

structure SignatureVerificationPolicy where
  license_version : Nat
  allowed_algorithms : List Bytes
  allowed_key_ids : List Bytes
  retired_key_ids : List Bytes
  public_keys : List SignaturePublicKey
  allow_external_public_key_der : Bool
  min_public_key_bits : Nat

structure SignatureVerificationRequest where
  payload : Bytes
  signature : Bytes
  public_key_der : Bytes
  declared_algorithm : Bytes
  key_id : Bytes
  license_version : Nat
  policy : SignatureVerificationPolicy

/-- `signature_contains_duplicate_strings` and
`signature_contains_duplicate_public_key_ids` -/
def containsDuplicate : List Bytes → Bool
  | [] => false
  | value :: values => values.contains value || containsDuplicate values

def signature_public_key_ring_allowed (policy : SignatureVerificationPolicy) : Bool :=
  !containsDuplicate (policy.public_keys.map (·.key_id)) &&
    policy.public_keys.all (signature_public_key_record_allowed · policy.min_public_key_bits)

def signature_select_public_key_der (request : SignatureVerificationRequest) : Option Bytes :=
  if request.public_key_der ≠ [] then some request.public_key_der
  else
    match request.policy.public_keys.find? (·.key_id = request.key_id) with
    | none => none
    | some public_key => if public_key.public_key_der = [] then none else some public_key.public_key_der

def signature_request_allowed (request : SignatureVerificationRequest) : Bool :=
  let policy := request.policy
  if request.license_version ≠ policy.license_version ∨ request.signature = [] then false
  else if containsDuplicate policy.allowed_algorithms ∨ containsDuplicate policy.allowed_key_ids ∨
      containsDuplicate policy.retired_key_ids ∨ ¬ signature_public_key_ring_allowed policy then false
  else if request.declared_algorithm ≠ LCC_SIGNATURE_ALGORITHM_RSA_PKCS1_SHA256 then false
  else if request.declared_algorithm ∉ policy.allowed_algorithms then false
  else if request.key_id ∈ policy.retired_key_ids then false
  else if request.key_id ∉ policy.allowed_key_ids then false
  else if request.public_key_der ≠ [] ∧ (policy.allow_external_public_key_der = false ∨
      request.key_id ≠ public_key_id_from_der request.public_key_der) then false
  else
    match signature_select_public_key_der request with
    | none => false
    | some selected_public_key_der =>
      !(0 < policy.min_public_key_bits &&
        rsa_public_key_bits_from_pkcs1_der selected_public_key_der < policy.min_public_key_bits)

section
variable (rsaVerify : Bytes → Bytes → Bytes → Bool)

/-- What the crypto library says of the payload and the signature under a key. -/
def verify_signature_bytes (payload signature public_key_der : Bytes) : Bool :=
  public_key_der ≠ [] && is_pkcs1_rsa_public_key_der public_key_der &&
    rsaVerify public_key_der payload signature

def verify_signature (request : SignatureVerificationRequest) : Bool :=
  if signature_request_allowed request = false then false
  else
    match signature_select_public_key_der request with
    | none => false
    | some selected_public_key_der =>
      verify_signature_bytes rsaVerify request.payload request.signature selected_public_key_der

/-- A signature that is accepted is one of a key of the policy over the payload. -/
theorem verify_signature_covers {request : SignatureVerificationRequest}
    (hexternal : request.public_key_der = []) (h : verify_signature rsaVerify request = true) :
    request.key_id ∉ request.policy.retired_key_ids ∧
      ∃ public_key ∈ request.policy.public_keys, public_key.key_id = request.key_id ∧
        rsaVerify public_key.public_key_der request.payload request.signature = true := by
  unfold verify_signature at h
  split at h
  · cases h
  rename_i hallowed
  rw [Bool.not_eq_false] at hallowed
  split at h
  · cases h
  rename_i der hder
  have hretired : request.key_id ∉ request.policy.retired_key_ids := by
    intro hmem
    unfold signature_request_allowed at hallowed
    simp [hmem] at hallowed
  refine ⟨hretired, ?_⟩
  unfold signature_select_public_key_der at hder
  simp only [hexternal, ne_eq, not_true_eq_false, if_false] at hder
  split at hder
  · cases hder
  rename_i public_key hfind
  split at hder
  · cases hder
  obtain rfl := Option.some.inj hder
  have hid : public_key.key_id = request.key_id := by simpa using List.find?_some hfind
  refine ⟨public_key, List.mem_of_find?_eq_some hfind, hid, ?_⟩
  unfold verify_signature_bytes at h
  simp only [Bool.and_eq_true] at h
  exact h.2

end

end Licensecc.Token
