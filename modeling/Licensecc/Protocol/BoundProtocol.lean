-- The signing inputs of the client, in C++. They have the bytes that the service
-- gives for the same values, so no two of them have the same bytes.
import Licensecc.Protocol.Checks
import Licensecc.Protocol.Signing

open Licensecc.Codec

namespace Licensecc.Protocol

/-! ## Bodies -/

structure BoundExchangeInput where
  attempt_handle : Bytes
  code : Bytes
  code_verifier : Bytes
  redirect_uri : Bytes
  operation_id : Bytes

structure BoundRenewInput where
  binding_id : Bytes
  generation : Nat
  operation_id : Bytes

/-- The inputs that the templates are used at. -/
inductive BoundInput where
  | exchange (input : BoundExchangeInput)
  | renew (input : BoundRenewInput)

def valid_operation : BoundInput → Bool
  | .exchange input => token input.attempt_handle 32 && token input.code 32 &&
      token input.code_verifier 32 && token input.operation_id 32 &&
      utf8_text input.redirect_uri 1024
  | .renew input => token input.binding_id 16 && token input.operation_id 32 &&
      1 ≤ input.generation && input.generation ≤ 9007199254740991

/-- A digit of the alphabet of `append_url64`. -/
def url64Digit (n : Nat) : UInt8 := (bytesOf urlAlphabet).getD (n &&& 63) 0

/-- The inner loop of `append_url64`: the digits of the bits, and the bits that are left. -/
def url64Drain (accumulator : Nat) : Nat → Bytes × Nat
  | bits + 6 =>
    let r := url64Drain accumulator bits
    (url64Digit (accumulator >>> bits) :: r.1, r.2)
  | bits => ([], bits)

/-- The accumulator of `append_url64`, of 32 bits, with one more byte. -/
def url64Push (accumulator : Nat) (b : UInt8) : Nat := (accumulator <<< 8) % 2 ^ 32 ||| b.toNat

/-- The outer loop of `append_url64`. -/
def url64Loop : Bytes → Nat → Nat → Bytes
  | [], accumulator, bits =>
    if bits ≠ 0 then [url64Digit ((accumulator <<< (6 - bits)) % 2 ^ 32)] else []
  | b :: bytes, accumulator, bits =>
    let r := url64Drain (url64Push accumulator b) (bits + 8)
    r.1 ++ url64Loop bytes (url64Push accumulator b) r.2

/-- What `append_url64` appends. -/
def append_url64 (bytes : Bytes) : Bytes := url64Loop bytes 0 0

/-- What `std::to_chars` writes. -/
def decimal (n : Nat) : Bytes := bytesOf (Nat.toDigits 10 n)

/-- The loop of `semantic_body` from an index on. -/
def semanticFields (generation : Option Nat) : Nat → List Bytes → Bytes
  | _, [] => []
  | index, field :: fields =>
    (if index ≠ 0 then [byte ','] else []) ++ byte '\"' :: append_url64 field ++ [byte '\"'] ++
      (match generation with
        | some n => if index + 1 = 1 then byte ',' :: decimal n else []
        | none => []) ++
      semanticFields generation (index + 1) fields

def semantic_body (fields : List Bytes) (generation : Option Nat) : Option Bytes :=
  if fields.all (utf8_text · 1024) then
    some (byte '[' :: semanticFields generation 0 fields ++ [byte ']'])
  else none

def bound_operation_body_v1 (input : BoundInput) : Option Bytes :=
  if valid_operation input then
    match input with
    | .exchange input => semantic_body [input.attempt_handle, input.code, input.code_verifier,
        input.redirect_uri, input.operation_id] none
    | .renew input => semantic_body [input.binding_id, input.operation_id] (some input.generation)
  else none

/-! ## Digests, proofs and comparisons -/

def operation_digest_input (input : BoundInput) (key_id : Bytes) (purpose : String) :
    Option Bytes :=
  if key_id_valid key_id then do
    let semantic ← bound_operation_body_v1 input
    return bytesOf "lcc-device-operation-v1\n".toList ++ append_url64 (bytesOf purpose.toList) ++
      [byte '\n'] ++ append_url64 key_id ++ [byte '\n'] ++ append_url64 semantic ++ [byte '\n']
  else none

def bound_operation_digest_input_v1 (input : BoundInput) (key_id : Bytes) : Option Bytes :=
  match input with
  | .exchange _ => operation_digest_input input key_id "exchange"
  | .renew _ => operation_digest_input input key_id "renew"

/-- What `append_fields` appends. -/
def append_fields : List Bytes → Option Bytes
  | [] => some []
  | field :: fields =>
    if utf8_text field 1024 then
      let encoded := base64url field
      if encoded = [] then none
      else do
        let payload ← append_fields fields
        return encoded ++ byte '\n' :: payload
    else none

structure BoundProofInput where
  audience : Bytes
  path : Bytes
  operation_id : Bytes
  body_sha256 : Bytes
  challenge_id : Bytes
  nonce : Bytes
  expires_at : Nat

def bound_proof_input_v2 (input : BoundProofInput) (key_id : Bytes) : Option Bytes :=
  if !key_id_valid key_id || !hex_digest input.body_sha256 || !token input.operation_id 32 ||
      !token input.challenge_id 16 || !token input.nonce 32 ||
      9007199254740991 < input.expires_at ||
      (input.path ≠ bytesOf "/v2/device-authorizations/exchange".toList &&
        input.path ≠ bytesOf "/v2/device-leases/renew".toList) then none
  else do
    let method := bytesOf "POST".toList
    let payload ← append_fields [input.audience, method, input.path, key_id, input.operation_id,
      input.body_sha256, input.challenge_id, input.nonce]
    return bytesOf "lcc-device-proof-v2\n".toList ++ payload ++ decimal input.expires_at ++
      [byte '\n']

structure EnrollmentComparisonInput where
  attempt_handle : Bytes
  client_id : Bytes
  project : Bytes
  redirect_uri : Bytes
  state : Bytes
  code_challenge : Bytes
  requested_feature : Bytes

def enrollment_comparison_input (input : EnrollmentComparisonInput) (key_id : Bytes) :
    Option Bytes :=
  if !key_id_valid key_id || !name input.client_id 127 || !name input.project 127 ||
      !name input.requested_feature 15 || !token input.attempt_handle 32 ||
      !token input.state 32 || !token input.code_challenge 32 then none
  else do
    let payload ← append_fields [input.attempt_handle, input.client_id, input.project, key_id,
      input.redirect_uri, input.state, input.code_challenge, input.requested_feature]
    return bytesOf "lcc-device-enrollment-comparison-v2\n".toList ++ payload

/-! ## Requests -/

/-- What the client signs or shows. -/
inductive BoundRequest where
  | operationBody (input : BoundInput)
  | operationDigest (input : BoundInput) (key_id : Bytes)
  | proof (input : BoundProofInput) (key_id : Bytes)
  | comparison (input : EnrollmentComparisonInput) (key_id : Bytes)

def BoundRequest.encode : BoundRequest → Option Bytes
  | .operationBody input => bound_operation_body_v1 input
  | .operationDigest input key_id => bound_operation_digest_input_v1 input key_id
  | .proof input key_id => bound_proof_input_v2 input key_id
  | .comparison input key_id => enrollment_comparison_input input key_id

/-- The client has the bytes of the texts of a body. -/
def OperationBody.Same : OperationBody → BoundInput → Prop
  | .exchange attempt_handle code code_verifier redirect_uri operation_id, .exchange input =>
    input.attempt_handle = utf8 attempt_handle ∧ input.code = utf8 code ∧
      input.code_verifier = utf8 code_verifier ∧ input.redirect_uri = utf8 redirect_uri ∧
      input.operation_id = utf8 operation_id
  | .renew binding_id generation operation_id, .renew input =>
    input.binding_id = utf8 binding_id ∧ (input.generation : Int) = generation ∧
      input.operation_id = utf8 operation_id
  | _, _ => False

def DeviceProof.Same (v : DeviceProof) (x : BoundProofInput) (key_id : Bytes) : Prop :=
  x.audience = utf8 v.audience ∧ v.method = "POST".toList ∧ x.path = utf8 v.path ∧
    key_id = utf8 v.key_id ∧ x.operation_id = utf8 v.operation_id ∧
    x.body_sha256 = utf8 v.body_sha256 ∧ x.challenge_id = utf8 v.challenge_id ∧
    x.nonce = utf8 v.nonce ∧ (x.expires_at : Int) = v.expires_at

def DeviceComparison.Same (v : DeviceComparison) (x : EnrollmentComparisonInput)
    (key_id : Bytes) : Prop :=
  x.attempt_handle = utf8 v.attempt_handle ∧ x.client_id = utf8 v.client_id ∧
    x.project = utf8 v.project ∧ key_id = utf8 v.key_id ∧ x.redirect_uri = utf8 v.redirect_uri ∧
    x.state = utf8 v.state ∧ x.code_challenge = utf8 v.code_challenge ∧
    x.requested_feature = utf8 v.requested_feature

/-- A request of the service has the values of a request of the client. -/
def SigningRequest.Same : SigningRequest → BoundRequest → Prop
  | .operationBody purpose body, .operationBody input => purpose = body.purpose ∧ body.Same input
  | .operationDigest purpose keyId body, .operationDigest input key_id =>
    purpose = body.purpose ∧ key_id = utf8 keyId ∧ body.Same input
  | .proof v, .proof x key_id => v.Same x key_id
  | .comparison v, .comparison x key_id => v.Same x key_id
  | _, _ => False

/-! ## base64url without an alphabet of its own -/

set_option maxRecDepth 20000 in
theorem url64Digit_eq (n : Nat) : url64Digit n = byte (urlAlphabet.getD (n % 64) 'A') := by
  have hall : ∀ d < 64, (bytesOf urlAlphabet).getD d 0 = byte (urlAlphabet.getD d 'A') := by
    decide
  unfold url64Digit
  rw [show (63 : Nat) = 2 ^ 6 - 1 from rfl, Nat.and_two_pow_sub_one_eq_mod]
  exact hall _ (Nat.mod_lt n (by omega))

/-- The accumulator keeps the last three bytes and takes one more. -/
theorem url64Push_eq (n : Nat) (b : UInt8) : url64Push n b = n % 2 ^ 24 * 256 + b.toNat := by
  have hshift : (n <<< 8) % 2 ^ 32 = (n % 2 ^ 24) <<< 8 := by
    simp only [Nat.shiftLeft_eq]
    omega
  unfold url64Push
  rw [hshift, ← Nat.shiftLeft_add_eq_or_of_lt (show b.toNat < 2 ^ 8 from b.toNat_lt),
    Nat.shiftLeft_eq]

theorem url64Loop_first (b : UInt8) (bytes : Bytes) (n : Nat) : url64Loop (b :: bytes) n 0 =
    url64Digit (url64Push n b >>> 2) :: url64Loop bytes (url64Push n b) 2 := rfl

theorem url64Loop_second (b : UInt8) (bytes : Bytes) (n : Nat) : url64Loop (b :: bytes) n 2 =
    url64Digit (url64Push n b >>> 4) :: url64Loop bytes (url64Push n b) 4 := rfl

theorem url64Loop_third (b : UInt8) (bytes : Bytes) (n : Nat) : url64Loop (b :: bytes) n 4 =
    url64Digit (url64Push n b >>> 6) :: url64Digit (url64Push n b >>> 0) ::
      url64Loop bytes (url64Push n b) 0 := rfl

/-- Three bytes give four digits and leave no bits. -/
theorem url64Loop_eq (bytes : Bytes) (n : Nat) :
    url64Loop bytes n 0 = urlDigits (sextets bytes) := by
  have hdigit : ∀ {m d}, m % 64 = d → url64Digit m = byte (urlAlphabet.getD d 'A') := by
    intro m d h
    rw [url64Digit_eq, h]
  have hfirst : ∀ n (a : UInt8), (url64Push n a >>> 2) % 64 = a.toNat / 4 := by
    intro n a
    have := a.toNat_lt
    rw [url64Push_eq, Nat.shiftRight_eq_div_pow]
    omega
  have hsecond : ∀ n (a b : UInt8), (url64Push (url64Push n a) b >>> 4) % 64 =
      a.toNat % 4 * 16 + b.toNat / 16 := by
    intro n a b
    have := b.toNat_lt
    rw [url64Push_eq, url64Push_eq, Nat.shiftRight_eq_div_pow]
    omega
  induction bytes using by_threes generalizing n with
  | nil => rfl
  | one a =>
    have hlast : (url64Push n a <<< 4) % 2 ^ 32 % 64 = a.toNat % 4 * 16 := by
      rw [url64Push_eq, Nat.shiftLeft_eq]
      omega
    rw [url64Loop_first, hdigit (hfirst n a)]
    exact congrArg (_ :: [·]) (hdigit hlast)
  | two a b =>
    have hlast : (url64Push (url64Push n a) b <<< 2) % 2 ^ 32 % 64 = b.toNat % 16 * 4 := by
      rw [url64Push_eq, Nat.shiftLeft_eq]
      omega
    rw [url64Loop_first, url64Loop_second, hdigit (hfirst n a), hdigit (hsecond n a b)]
    exact congrArg (_ :: _ :: [·]) (hdigit hlast)
  | three a b c rest ih =>
    have hthird : (url64Push (url64Push (url64Push n a) b) c >>> 6) % 64 =
        b.toNat % 16 * 4 + c.toNat / 64 := by
      have := c.toNat_lt
      rw [url64Push_eq, url64Push_eq, Nat.shiftRight_eq_div_pow]
      omega
    have hfourth : (url64Push (url64Push (url64Push n a) b) c >>> 0) % 64 = c.toNat % 64 := by
      rw [url64Push_eq, Nat.shiftRight_zero]
      omega
    rw [url64Loop_first, url64Loop_second, url64Loop_third, hdigit (hfirst n a),
      hdigit (hsecond n a b), hdigit hthird, hdigit hfourth, ih]
    rfl

theorem append_url64_eq (bytes : Bytes) : append_url64 bytes = bytesOf (encodeBase64url bytes) := by
  unfold append_url64
  rw [url64Loop_eq, bytesOf_encodeBase64url]

/-! ## Values that the client accepts -/

/-- A token is the text of its bytes. -/
theorem exists_identity {v : Bytes} {size : Nat} (hsize : size = 16 ∨ size = 32)
    (h : token v size = true) : ∃ s, v = utf8 s ∧ identity s size = .ok () := by
  obtain ⟨bytes, rfl, hlen⟩ := (token_ok hsize).mp h
  refine ⟨encodeBase64url bytes, (utf8_encodeBase64url bytes).symm, ?_⟩
  exact identity_ok.mpr ⟨bytes, rfl, hlen⟩

theorem identity_text {s : List Char} {size : Nat} (hsize : size = 16 ∨ size = 32)
    (h : identity s size = .ok ()) : text s = .ok (encodeBase64url (utf8 s)) := by
  obtain ⟨bytes, rfl, hlen⟩ := identity_ok.mp h
  refine text_ok.mpr ⟨⟨?_, ?_⟩, rfl⟩
  · intro h0
    have := congrArg List.length h0
    rw [length_encodeBase64url, List.length_nil] at this
    omega
  · rw [utf8_encodeBase64url, length_bytesOf, length_encodeBase64url]
    omega

theorem exists_text {v : Bytes} (h : utf8_text v 1024 = true) :
    ∃ s, v = utf8 s ∧ text s = .ok (encodeBase64url v) := by
  obtain ⟨hne, hlen, s, rfl⟩ := utf8_text_ok.mp h
  exact ⟨s, rfl, text_ok.mpr ⟨⟨fun h0 => hne (utf8_eq_nil.mpr h0), hlen⟩, rfl⟩⟩

theorem utf8_text_iff {s : List Char} :
    utf8_text (utf8 s) 1024 = true ↔ text s = .ok (encodeBase64url (utf8 s)) := by
  rw [utf8_text_ok, text_ok]
  have hne : utf8 s ≠ [] ↔ s ≠ [] := not_congr utf8_eq_nil
  rw [hne]
  exact ⟨fun ⟨h1, h2, _⟩ => ⟨⟨h1, h2⟩, rfl⟩, fun ⟨⟨h1, h2⟩, _⟩ => ⟨h1, h2, s, rfl⟩⟩

theorem utf8_cons_ascii {c : Char} (hc : c.toNat < 128) (s : List Char) :
    utf8 (c :: s) = byte c :: utf8 s := by
  rw [utf8_cons, utf8EncodeChar_ascii hc]
  rfl

theorem utf8_line {c : Char} (hc : c.toNat < 128) (l s : List Char) :
    utf8 (l ++ c :: s) = utf8 l ++ byte c :: utf8 s := by
  rw [utf8_append, utf8_cons_ascii hc]

theorem key_text {s : List Char} (h : keyPattern s = true) :
    text s = .ok (encodeBase64url (utf8 s)) := by
  have hlen : (utf8 s).length = 71 := by
    rw [← key_id_valid_utf8] at h
    unfold key_id_valid at h
    simp only [Bool.and_eq_true, decide_eq_true_eq] at h
    exact h.1.1
  refine text_ok.mpr ⟨⟨?_, by omega⟩, rfl⟩
  rintro rfl
  simp [utf8] at hlen

theorem ascii_text {s : List Char} (h : Ascii s) (hne : s ≠ []) (hlen : s.length ≤ 1024) :
    text s = .ok (encodeBase64url (bytesOf s)) := by
  rw [← utf8_ascii h]
  refine text_ok.mpr ⟨⟨hne, ?_⟩, rfl⟩
  rw [utf8_ascii h, length_bytesOf]
  exact hlen

/-! ## Bodies agree -/

/-- The quoted base64url of some bytes. -/
def quoted (v : Bytes) : Bytes := byte '\"' :: append_url64 v ++ [byte '\"']

theorem utf8_quote (v : Bytes) : utf8 (quote (encodeBase64url v)) = quoted v := by
  have hplain : ∀ c ∈ encodeBase64url v, c ≠ '\"' ∧ c ≠ '\\' ∧ 32 ≤ c.toNat := by
    intro c hc
    have hall : urlAlphabet.all (fun d => d ≠ '\"' && d ≠ '\\' && 32 ≤ d.toNat) = true := by
      decide
    rw [encodeBase64url_eq] at hc
    have h1 := List.all_eq_true.mp hall c (mem_of_encode64 rfl hc)
    simp only [Bool.and_eq_true, decide_eq_true_eq] at h1
    exact ⟨h1.1.1, h1.1.2, h1.2⟩
  rw [quote_plain hplain, List.cons_append, utf8_cons_ascii (by decide), utf8_line (by decide),
    utf8_encodeBase64url, ← append_url64_eq]
  rfl

theorem utf8_arrayRest (l : List Json) : utf8 (arrayRest l) =
    l.flatMap (fun x => byte ',' :: utf8 x.stringify) ++ [byte ']'] := by
  induction l with
  | nil => rfl
  | cons x l ih =>
    have hstep : arrayRest (x :: l) = ',' :: (x.stringify ++ arrayRest l) := by simp [arrayRest]
    rw [hstep, utf8_cons_ascii (by decide), utf8_append, ih]
    simp

theorem utf8_stringify (x : Json) (l : List Json) : utf8 (stringify (x :: l)) =
    byte '[' :: (utf8 x.stringify ++ (l.flatMap (fun x => byte ',' :: utf8 x.stringify) ++
      [byte ']'])) := by
  rw [stringify_cons, utf8_cons_ascii (by decide), utf8_append, utf8_arrayRest]

/-- After the first field no generation is inserted. -/
theorem semanticFields_eq (generation : Option Nat) {index : Nat} (h : 1 ≤ index)
    (fs : List Bytes) : semanticFields generation index fs =
      fs.flatMap fun v => byte ',' :: quoted v := by
  induction fs generalizing index with
  | nil => rfl
  | cons f fs ih =>
    have hno : (match generation with
        | some n => if index + 1 = 1 then byte ',' :: decimal n else []
        | none => []) = [] := by
      cases generation with
      | none => rfl
      | some n => exact if_neg (by omega)
    unfold semanticFields
    rw [hno, if_pos (by omega), ih (by omega)]
    simp [quoted]

/-- The body of an operation has the bytes that the service gives. -/
theorem same_body {body : OperationBody} {input : BoundInput} {bytes : Bytes}
    (hsame : body.Same input) (h : bound_operation_body_v1 input = some bytes) :
    deviceOperationBody body.purpose body = .ok bytes := by
  unfold bound_operation_body_v1 at h
  split at h
  swap
  · cases h
  rename_i hvalid
  cases body with
  | exchange attempt_handle code code_verifier redirect_uri operation_id =>
    cases input with
    | renew => exact absurd hsame id
    | exchange input =>
      obtain ⟨h1, h2, h3, h4, h5⟩ := hsame
      dsimp only at h
      rw [h1, h2, h3, h4, h5] at h
      unfold semantic_body at h
      split at h
      swap
      · cases h
      rename_i hall
      simp only [List.all_cons, List.all_nil, Bool.and_true, Bool.and_eq_true, utf8_text_iff] at hall
      obtain ⟨t1, t2, t3, t4, t5⟩ := hall
      refine deviceOperationBody_ok.mpr ⟨rfl, [.string _, .string _, .string _, .string _,
        .string _], .cons (operationValue_text.mpr ⟨_, t1, rfl⟩) (.cons
        (operationValue_text.mpr ⟨_, t2, rfl⟩) (.cons (operationValue_text.mpr ⟨_, t3, rfl⟩) (.cons
        (operationValue_text.mpr ⟨_, t4, rfl⟩) (.cons (operationValue_text.mpr ⟨_, t5, rfl⟩)
        .nil)))), ?_⟩
      rw [← Option.some.inj h, utf8_stringify]
      unfold semanticFields
      rw [semanticFields_eq none (Nat.le_refl 1)]
      simp only [List.flatMap_cons, List.flatMap_nil, Json.stringify, utf8_quote]
      simp [quoted]
  | renew binding_id generation operation_id =>
    cases input with
    | exchange => exact absurd hsame id
    | renew input =>
      obtain ⟨h1, rfl, h3⟩ := hsame
      unfold valid_operation at hvalid
      simp only [Bool.and_eq_true, decide_eq_true_eq] at hvalid
      have hone : (1 : Int) ≤ input.generation := by omega
      have hsafe : (input.generation : Int) ≤ safeMax := by
        unfold safeMax
        omega
      dsimp only at h
      rw [h1, h3] at h
      unfold semantic_body at h
      split at h
      swap
      · cases h
      rename_i hall
      simp only [List.all_cons, List.all_nil, Bool.and_true, Bool.and_eq_true, utf8_text_iff] at hall
      obtain ⟨t1, t3⟩ := hall
      refine deviceOperationBody_ok.mpr ⟨rfl, [.string _, .integer _, .string _],
        .cons (operationValue_text.mpr ⟨_, t1, rfl⟩) (.cons
        (operationValue_integer.mpr ⟨⟨hone, hsafe⟩, rfl⟩) (.cons
        (operationValue_text.mpr ⟨_, t3, rfl⟩) .nil)), ?_⟩
      rw [← Option.some.inj h, utf8_stringify]
      unfold semanticFields
      rw [semanticFields_eq _ (Nat.le_refl 1)]
      have hdecimal : utf8 (Json.integer (input.generation : Int).toNat).stringify =
          decimal input.generation := by
        rw [Int.toNat_natCast]
        exact utf8_ascii (ascii_toDigits _)
      simp only [List.flatMap_cons, List.flatMap_nil, hdecimal]
      simp only [Json.stringify, utf8_quote]
      simp [quoted]

/-- The client accepts values of the service only. -/
theorem exists_body {input : BoundInput} (h : valid_operation input = true) :
    ∃ body : OperationBody, body.Same input := by
  unfold valid_operation at h
  cases input with
  | exchange input =>
    simp only [Bool.and_eq_true] at h
    obtain ⟨⟨⟨⟨h1, h2⟩, h3⟩, h4⟩, h5⟩ := h
    obtain ⟨s₁, hs₁, -⟩ := exists_identity (.inr rfl) h1
    obtain ⟨s₂, hs₂, -⟩ := exists_identity (.inr rfl) h2
    obtain ⟨s₃, hs₃, -⟩ := exists_identity (.inr rfl) h3
    obtain ⟨s₄, hs₄, -⟩ := exists_identity (.inr rfl) h4
    obtain ⟨s₅, hs₅, -⟩ := exists_text h5
    exact ⟨.exchange s₁ s₂ s₃ s₅ s₄, hs₁, hs₂, hs₃, hs₅, hs₄⟩
  | renew input =>
    simp only [Bool.and_eq_true] at h
    obtain ⟨⟨⟨h1, h2⟩, -⟩, -⟩ := h
    obtain ⟨s₁, hs₁, -⟩ := exists_identity (.inl rfl) h1
    obtain ⟨s₂, hs₂, -⟩ := exists_identity (.inr rfl) h2
    exact ⟨.renew s₁ input.generation s₂, hs₁, rfl, hs₂⟩

theorem valid_of_body {input : BoundInput} {bytes : Bytes}
    (h : bound_operation_body_v1 input = some bytes) : valid_operation input = true := by
  unfold bound_operation_body_v1 at h
  split at h
  · assumption
  · cases h

/-! ## Lines agree -/

theorem utf8_linesText (header : String) (ls : List (List Char)) : utf8 (linesText header ls) =
    utf8 header.toList ++ byte '\n' :: utf8 (unlines '\n' ls) := by
  unfold linesText
  rw [unlines_cons, utf8_line (by decide)]

theorem utf8_unlines_cons (l : List Char) (ls : List (List Char)) :
    utf8 (unlines '\n' (l :: ls)) = utf8 l ++ byte '\n' :: utf8 (unlines '\n' ls) := by
  rw [unlines_cons, utf8_line (by decide)]

theorem purpose_text (body : OperationBody) :
    text body.purpose = .ok (encodeBase64url (bytesOf body.purpose)) := by
  have hcases : body.purpose = "exchange".toList ∨ body.purpose = "renew".toList := by
    cases body with
    | exchange => exact .inl rfl
    | renew => exact .inr rfl
  rcases hcases with h | h
  · rw [h]
    exact ascii_text (ascii_of_all (by decide)) (by decide) (by decide)
  · rw [h]
    exact ascii_text (ascii_of_all (by decide)) (by decide) (by decide)

theorem same_digest {body : OperationBody} {input : BoundInput} {keyId : List Char} {bytes : Bytes}
    (hsame : body.Same input)
    (h : bound_operation_digest_input_v1 input (utf8 keyId) = some bytes) :
    deviceOperationDigestInput body.purpose keyId body = .ok bytes := by
  have hpurpose : ∃ p : String, p.toList = body.purpose ∧
      operation_digest_input input (utf8 keyId) p = some bytes := by
    unfold bound_operation_digest_input_v1 at h
    cases body with
    | exchange =>
      cases input with
      | renew => exact absurd hsame id
      | exchange => exact ⟨_, rfl, h⟩
    | renew =>
      cases input with
      | exchange => exact absurd hsame id
      | renew => exact ⟨_, rfl, h⟩
  obtain ⟨p, hp, h⟩ := hpurpose
  unfold operation_digest_input at h
  rw [hp] at h
  split at h
  swap
  · cases h
  rename_i hkey
  rw [key_id_valid_utf8] at hkey
  obtain ⟨semantic, hsemantic, hbytes⟩ := Option.bind_eq_some_iff.mp h
  refine deviceOperationDigestInput_ok.mpr ⟨hkey, semantic, _, _, same_body hsame hsemantic,
    purpose_text body, key_text hkey, ?_⟩
  have hheader : bytesOf "lcc-device-operation-v1\n".toList =
      utf8 "lcc-device-operation-v1".toList ++ [byte '\n'] := by decide
  rw [← Option.some.inj hbytes, utf8_linesText, utf8_unlines_cons, utf8_unlines_cons,
    utf8_unlines_cons, hheader]
  simp only [append_url64_eq, utf8_encodeBase64url]
  simp [unlines, utf8]

/-- The fields that are appended are texts, and give their lines. -/
theorem append_fields_ok {ss : List (List Char)} {payload : Bytes}
    (h : append_fields (ss.map utf8) = some payload) :
    (∀ s ∈ ss, text s = .ok (encodeBase64url (utf8 s))) ∧
      payload = utf8 (unlines '\n' (ss.map fun s => encodeBase64url (utf8 s))) := by
  induction ss generalizing payload with
  | nil =>
    obtain rfl := Option.some.inj h
    exact ⟨by simp, rfl⟩
  | cons s ss ih =>
    rw [List.map_cons] at h
    unfold append_fields at h
    split at h
    swap
    · cases h
    rename_i htext
    dsimp only at h
    split at h
    · cases h
    obtain ⟨rest, hrest, h⟩ := Option.bind_eq_some_iff.mp h
    obtain ⟨htexts, rfl⟩ := ih hrest
    refine ⟨?_, ?_⟩
    · intro t ht
      rcases List.mem_cons.mp ht with rfl | ht
      · exact utf8_text_iff.mp htext
      · exact htexts t ht
    · rw [← Option.some.inj h, List.map_cons, utf8_unlines_cons, utf8_encodeBase64url,
        ← base64url_eq]

theorem same_proof {v : DeviceProof} {x : BoundProofInput} {key_id bytes : Bytes}
    (hsame : v.Same x key_id) (h : bound_proof_input_v2 x key_id = some bytes) :
    deviceProofSigningInput v = .ok bytes := by
  obtain ⟨h1, hmethod, h3, rfl, h5, h6, h7, h8, h9⟩ := hsame
  have hpath : ∀ t : String, Ascii t.toList → (x.path = bytesOf t.toList ↔ v.path = t.toList) := by
    intro t ht
    rw [h3, ← utf8_ascii ht]
    exact ⟨fun h => utf8_injective h, congrArg utf8⟩
  have hexchange := hpath "/v2/device-authorizations/exchange" (ascii_of_all (by decide))
  have hrenew := hpath "/v2/device-leases/renew" (ascii_of_all (by decide))
  unfold bound_proof_input_v2 at h
  split at h
  · cases h
  rename_i hchecks
  simp only [Bool.or_eq_true, Bool.and_eq_true, Bool.not_eq_true', decide_eq_true_eq, not_or,
    not_and, not_not, Bool.not_eq_false, not_lt, ne_eq] at hchecks
  obtain ⟨⟨⟨⟨⟨⟨hkey, hhex⟩, -⟩, -⟩, -⟩, hsafe⟩, hpaths⟩ := hchecks
  obtain ⟨payload, hpayload, h⟩ := Option.bind_eq_some_iff.mp h
  rw [h1, h3, h5, h6, h7, h8, ← utf8_ascii (show Ascii "POST".toList from ascii_of_all (by decide)),
    ← hmethod] at hpayload
  obtain ⟨htexts, rfl⟩ := @append_fields_ok [v.audience, v.method, v.path, v.key_id,
    v.operation_id, v.body_sha256, v.challenge_id, v.nonce] _ hpayload
  rw [h6, hex_digest_utf8] at hhex
  rw [key_id_valid_utf8] at hkey
  have hexpires : integer v.expires_at = .ok (Nat.toDigits 10 x.expires_at) := by
    refine integer_ok.mpr ⟨?_, ?_⟩
    · unfold safeMax
      omega
    · rw [← h9, Int.toNat_natCast]
  refine deviceProofSigningInput_ok.mpr ⟨⟨hmethod, ?_, hkey, hhex⟩, [_, _, _, _, _, _, _, _, _],
    .cons (htexts _ (by simp)) (.cons (htexts _ (by simp)) (.cons (htexts _ (by simp))
    (.cons (htexts _ (by simp)) (.cons (htexts _ (by simp)) (.cons (htexts _ (by simp))
    (.cons (htexts _ (by simp)) (.cons (htexts _ (by simp)) (.cons hexpires .nil)))))))), ?_⟩
  · by_cases he : v.path = "/v2/device-authorizations/exchange".toList
    · rw [he]
      exact List.mem_cons_self
    · rw [hrenew.mp (hpaths fun hx => he (hexchange.mp hx))]
      exact List.mem_cons_of_mem _ List.mem_cons_self
  · have hheader : bytesOf "lcc-device-proof-v2\n".toList =
        utf8 "lcc-device-proof-v2".toList ++ [byte '\n'] := by decide
    rw [← Option.some.inj h, hheader, utf8_linesText]
    simp only [List.map_cons, List.map_nil, utf8_unlines_cons, utf8_ascii (ascii_toDigits _)]
    simp [decimal, unlines, utf8]

theorem same_comparison {v : DeviceComparison} {x : EnrollmentComparisonInput}
    {key_id bytes : Bytes} (hsame : v.Same x key_id)
    (h : enrollment_comparison_input x key_id = some bytes) :
    deviceEnrollmentComparisonInput v = .ok bytes := by
  obtain ⟨h1, h2, h3, rfl, h5, h6, h7, h8⟩ := hsame
  unfold enrollment_comparison_input at h
  rw [h1, h2, h3, h5, h6, h7, h8] at h
  split at h
  · cases h
  rename_i hchecks
  simp only [Bool.or_eq_true, Bool.not_eq_true', not_or, Bool.not_eq_false, key_id_valid_utf8,
    name_utf8, token_utf8 (.inr rfl)] at hchecks
  obtain ⟨⟨⟨⟨⟨⟨hkey, hclient⟩, hproject⟩, hfeature⟩, hhandle⟩, hstate⟩, hcode⟩ := hchecks
  obtain ⟨payload, hpayload, h⟩ := Option.bind_eq_some_iff.mp h
  obtain ⟨htexts, rfl⟩ := @append_fields_ok [v.attempt_handle, v.client_id, v.project,
    v.key_id, v.redirect_uri, v.state, v.code_challenge, v.requested_feature] _ hpayload
  refine deviceEnrollmentComparisonInput_ok.mpr ⟨hfeature, ⟨hclient, hproject⟩, hhandle, hstate,
    hcode, hkey, [_, _, _, _, _, _, _, _], .cons (htexts _ (by simp)) (.cons (htexts _ (by simp))
    (.cons (htexts _ (by simp)) (.cons (htexts _ (by simp)) (.cons (htexts _ (by simp))
    (.cons (htexts _ (by simp)) (.cons (htexts _ (by simp)) (.cons (htexts _ (by simp))
    .nil))))))), ?_⟩
  have hheader : bytesOf "lcc-device-enrollment-comparison-v2\n".toList =
      utf8 "lcc-device-enrollment-comparison-v2".toList ++ [byte '\n'] := by decide
  rw [← Option.some.inj h, hheader, utf8_linesText]
  simp

/-! ## The two sides agree -/

theorem same_encode {v : SigningRequest} {x : BoundRequest} {bytes : Bytes} (hsame : v.Same x)
    (h : x.encode = some bytes) : v.encode = .ok bytes := by
  cases x with
  | operationBody input =>
    cases v with
    | operationBody purpose body =>
      obtain ⟨rfl, hsame⟩ := hsame
      exact same_body hsame h
    | operationDigest => exact absurd hsame id
    | proof => exact absurd hsame id
    | comparison => exact absurd hsame id
  | operationDigest input key_id =>
    cases v with
    | operationDigest purpose keyId body =>
      obtain ⟨rfl, rfl, hsame⟩ := hsame
      exact same_digest hsame h
    | operationBody => exact absurd hsame id
    | proof => exact absurd hsame id
    | comparison => exact absurd hsame id
  | proof input key_id =>
    cases v with
    | proof v => exact same_proof hsame h
    | operationBody => exact absurd hsame id
    | operationDigest => exact absurd hsame id
    | comparison => exact absurd hsame id
  | comparison input key_id =>
    cases v with
    | comparison v => exact same_comparison hsame h
    | operationBody => exact absurd hsame id
    | operationDigest => exact absurd hsame id
    | proof => exact absurd hsame id

theorem exists_key {v : Bytes} (h : key_id_valid v = true) : ∃ s, v = utf8 s := by
  unfold key_id_valid at h
  rw [hex_digest_eq] at h
  simp only [Bool.and_eq_true, decide_eq_true_eq, List.all_eq_true] at h
  obtain ⟨⟨-, hstart⟩, -, hhex⟩ := h
  refine ⟨binary v, (utf8_binary ?_).symm⟩
  intro b hb
  rw [← List.take_append_drop 7 v, List.mem_append, hstart] at hb
  rcases hb with hb | hb
  · have hall : (bytesOf "sha256:".toList).all (fun d => d.toNat < 128) = true := by decide
    exact of_decide_eq_true (List.all_eq_true.mp hall b hb)
  · exact hexCode_lt _ (hhex b hb)

theorem append_fields_texts {fs : List Bytes} {payload : Bytes}
    (h : append_fields fs = some payload) : ∀ f ∈ fs, ∃ s, f = utf8 s := by
  induction fs generalizing payload with
  | nil => simp
  | cons f fs ih =>
    unfold append_fields at h
    split at h
    swap
    · cases h
    rename_i htext
    dsimp only at h
    split at h
    · cases h
    obtain ⟨rest, hrest, -⟩ := Option.bind_eq_some_iff.mp h
    intro g hg
    rcases List.mem_cons.mp hg with rfl | hg
    · obtain ⟨s, hs, -⟩ := exists_text htext
      exact ⟨s, hs⟩
    · exact ih hrest g hg

/-- The client encodes values of the service only. -/
theorem exists_same {x : BoundRequest} {bytes : Bytes} (h : x.encode = some bytes) :
    ∃ v : SigningRequest, v.Same x := by
  cases x with
  | operationBody input =>
    obtain ⟨body, hbody⟩ := exists_body (valid_of_body h)
    exact ⟨.operationBody body.purpose body, rfl, hbody⟩
  | operationDigest input key_id =>
    have hdigest : ∃ purpose, operation_digest_input input key_id purpose = some bytes := by
      cases input with
      | exchange => exact ⟨_, h⟩
      | renew => exact ⟨_, h⟩
    obtain ⟨purpose, hdigest⟩ := hdigest
    unfold operation_digest_input at hdigest
    split at hdigest
    swap
    · cases hdigest
    rename_i hkey
    obtain ⟨keyId, rfl⟩ := exists_key hkey
    obtain ⟨semantic, hsemantic, -⟩ := Option.bind_eq_some_iff.mp hdigest
    obtain ⟨body, hbody⟩ := exists_body (valid_of_body hsemantic)
    exact ⟨.operationDigest body.purpose keyId body, rfl, rfl, hbody⟩
  | proof input key_id =>
    unfold BoundRequest.encode bound_proof_input_v2 at h
    dsimp only at h
    split at h
    · cases h
    obtain ⟨payload, hpayload, -⟩ := Option.bind_eq_some_iff.mp h
    have htexts := append_fields_texts hpayload
    obtain ⟨audience, h1⟩ := htexts input.audience (by simp)
    obtain ⟨path, h2⟩ := htexts input.path (by simp)
    obtain ⟨key, h3⟩ := htexts key_id (by simp)
    obtain ⟨operation_id, h4⟩ := htexts input.operation_id (by simp)
    obtain ⟨body_sha256, h5⟩ := htexts input.body_sha256 (by simp)
    obtain ⟨challenge_id, h6⟩ := htexts input.challenge_id (by simp)
    obtain ⟨nonce, h7⟩ := htexts input.nonce (by simp)
    exact ⟨.proof ⟨audience, "POST".toList, path, key, operation_id, body_sha256, challenge_id,
      nonce, input.expires_at⟩, h1, rfl, h2, h3, h4, h5, h6, h7, rfl⟩
  | comparison input key_id =>
    unfold BoundRequest.encode enrollment_comparison_input at h
    dsimp only at h
    split at h
    · cases h
    obtain ⟨payload, hpayload, -⟩ := Option.bind_eq_some_iff.mp h
    have htexts := append_fields_texts hpayload
    obtain ⟨attempt_handle, h1⟩ := htexts input.attempt_handle (by simp)
    obtain ⟨client_id, h2⟩ := htexts input.client_id (by simp)
    obtain ⟨project, h3⟩ := htexts input.project (by simp)
    obtain ⟨key, h4⟩ := htexts key_id (by simp)
    obtain ⟨redirect_uri, h5⟩ := htexts input.redirect_uri (by simp)
    obtain ⟨state, h6⟩ := htexts input.state (by simp)
    obtain ⟨code_challenge, h7⟩ := htexts input.code_challenge (by simp)
    obtain ⟨requested_feature, h8⟩ := htexts input.requested_feature (by simp)
    exact ⟨.comparison ⟨attempt_handle, client_id, project, key, redirect_uri, state,
      code_challenge, requested_feature⟩, h1, h2, h3, h4, h5, h6, h7, h8⟩

theorem OperationBody.same_unique {body : OperationBody} {x y : BoundInput} (hx : body.Same x)
    (hy : body.Same y) : x = y := by
  cases body with
  | exchange =>
    cases x with
    | renew => exact absurd hx id
    | exchange x =>
      cases y with
      | renew => exact absurd hy id
      | exchange y =>
        obtain ⟨h1, h2, h3, h4, h5⟩ := hx
        obtain ⟨h1', h2', h3', h4', h5'⟩ := hy
        cases x
        cases y
        simp_all
  | renew =>
    cases x with
    | exchange => exact absurd hx id
    | renew x =>
      cases y with
      | exchange => exact absurd hy id
      | renew y =>
        obtain ⟨h1, h2, h3⟩ := hx
        obtain ⟨h1', h2', h3'⟩ := hy
        have hn : x.generation = y.generation := by omega
        cases x
        cases y
        simp_all

/-- A request of the service has the values of one request of the client. -/
theorem SigningRequest.same_unique {v : SigningRequest} {x y : BoundRequest} (hx : v.Same x)
    (hy : v.Same y) : x = y := by
  cases v with
  | operationBody purpose body =>
    cases x <;> first | exact absurd hx id | skip
    cases y <;> first | exact absurd hy id | skip
    rw [OperationBody.same_unique hx.2 hy.2]
  | operationDigest purpose keyId body =>
    cases x <;> first | exact absurd hx id | skip
    cases y <;> first | exact absurd hy id | skip
    rw [OperationBody.same_unique hx.2.2 hy.2.2, hx.2.1, hy.2.1]
  | proof v =>
    cases x <;> first | exact absurd hx id | skip
    cases y <;> first | exact absurd hy id | skip
    rename_i x k y l
    obtain ⟨h1, -, h2, h3, h4, h5, h6, h7, h8⟩ := hx
    obtain ⟨h1', -, h2', h3', h4', h5', h6', h7', h8'⟩ := hy
    have hn : x.expires_at = y.expires_at := by omega
    cases x
    cases y
    simp_all
  | comparison v =>
    cases x <;> first | exact absurd hx id | skip
    cases y <;> first | exact absurd hy id | skip
    rename_i x k y l
    obtain ⟨h1, h2, h3, h4, h5, h6, h7, h8⟩ := hx
    obtain ⟨h1', h2', h3', h4', h5', h6', h7', h8'⟩ := hy
    cases x
    cases y
    simp_all

/-- What the client signs has the bytes that the service gives for the same values,
and on each side no two requests have the same bytes, whatever their purposes. -/
theorem the_signing_inputs_agree :
    (∀ (x : BoundRequest) bytes, x.encode = some bytes →
      (∃ v : SigningRequest, v.Same x) ∧ ∀ v : SigningRequest, v.Same x → v.encode = .ok bytes) ∧
    (∀ (v w : SigningRequest) bytes, v.encode = .ok bytes → w.encode = .ok bytes → v = w) ∧
    (∀ (x y : BoundRequest) bytes, x.encode = some bytes → y.encode = some bytes → x = y) := by
  refine ⟨fun x bytes h => ⟨exists_same h, fun v hv => same_encode hv h⟩,
    fun v w bytes hv hw => SigningRequest.encode_injective hv hw, ?_⟩
  intro x y bytes hx hy
  obtain ⟨v, hv⟩ := exists_same hx
  obtain ⟨w, hw⟩ := exists_same hy
  obtain rfl := SigningRequest.encode_injective (same_encode hv hx) (same_encode hw hy)
  exact SigningRequest.same_unique hv hw

end Licensecc.Protocol
