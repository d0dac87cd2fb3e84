-- The signing inputs of the service, in JavaScript: the body of an operation, its
-- digest input, the proof input and the comparison input of an enrollment. Two
-- different requests never have the same bytes.
import Licensecc.Codec.Json
import Licensecc.Protocol.Script

open Licensecc.Codec

namespace Licensecc.Protocol

/-! ## Operations -/

/-- The body of an operation, with the fields of its purpose. -/
inductive OperationBody where
  | exchange (attempt_handle code code_verifier redirect_uri operation_id : List Char)
  | renew (binding_id : List Char) (generation : Int) (operation_id : List Char)

/-- The purpose whose fields a body has. -/
def OperationBody.purpose : OperationBody → List Char
  | .exchange .. => "exchange".toList
  | .renew .. => "renew".toList

def DEVICE_OPERATION_FIELDS (purpose : List Char) : Option (List String) :=
  if purpose = "exchange".toList then
    some ["attempt_handle", "code", "code_verifier", "redirect_uri", "operation_id"]
  else if purpose = "renew".toList then some ["binding_id", "generation", "operation_id"]
  else none

/-- The fields of a body with their values. -/
def OperationBody.entries : OperationBody → List (String × FieldValue)
  | .exchange attempt_handle code code_verifier redirect_uri operation_id =>
    [("attempt_handle", .text attempt_handle), ("code", .text code),
      ("code_verifier", .text code_verifier), ("redirect_uri", .text redirect_uri),
      ("operation_id", .text operation_id)]
  | .renew binding_id generation operation_id =>
    [("binding_id", .text binding_id), ("generation", .integer generation),
      ("operation_id", .text operation_id)]

/-- An element of the array of a body. -/
def operationValue : FieldValue → Except String Json
  | .text value => do return .string (← text value)
  | .integer generation => do
    let _ ← integer generation
    ensure (1 ≤ generation) "invalid_generation"
    return .integer generation.toNat

def deviceOperationBody (purpose : List Char) (body : OperationBody) : Except String Bytes :=
  match DEVICE_OPERATION_FIELDS purpose with
  | none => throw "invalid_purpose"
  | some fields => do
    ensure (body.entries.map Prod.fst = fields) "invalid_fields"
    let values ← body.entries.mapM fun e => operationValue e.2
    return utf8 (stringify values)

def deviceOperationDigestInput (purpose keyId : List Char) (body : OperationBody) :
    Except String Bytes := do
  ensure (keyPattern keyId) "invalid_identity"
  let semantic ← deviceOperationBody purpose body
  let purpose ← text purpose
  let keyId ← text keyId
  return utf8 (List.intercalate ['\n']
    ["lcc-device-operation-v1".toList, purpose, keyId, encodeBase64url semantic, []])

/-! ## Proofs and comparisons -/

structure DeviceProof where
  audience : List Char
  method : List Char
  path : List Char
  key_id : List Char
  operation_id : List Char
  body_sha256 : List Char
  challenge_id : List Char
  nonce : List Char
  expires_at : Int

/-- The values in the order of the fields. -/
def DeviceProof.values (input : DeviceProof) : List FieldValue :=
  [.text input.audience, .text input.method, .text input.path, .text input.key_id,
    .text input.operation_id, .text input.body_sha256, .text input.challenge_id, .text input.nonce,
    .integer input.expires_at]

def deviceProofSigningInput (input : DeviceProof) : Except String Bytes := do
  ensure (input.method = "POST".toList ∧
    input.path ∈ ["/v2/device-authorizations/exchange".toList, "/v2/device-leases/renew".toList] ∧
    keyPattern input.key_id ∧ hexPattern input.body_sha256) "invalid_intent"
  let encoded ← input.values.mapM FieldValue.encode
  return utf8 (List.intercalate ['\n'] ("lcc-device-proof-v2".toList :: (encoded ++ [[]])))

structure DeviceComparison where
  attempt_handle : List Char
  client_id : List Char
  project : List Char
  key_id : List Char
  redirect_uri : List Char
  state : List Char
  code_challenge : List Char
  requested_feature : List Char

/-- The values in the order of `DEVICE_COMPARISON_FIELDS`. -/
def DeviceComparison.values (input : DeviceComparison) : List FieldValue :=
  [.text input.attempt_handle, .text input.client_id, .text input.project, .text input.key_id,
    .text input.redirect_uri, .text input.state, .text input.code_challenge,
    .text input.requested_feature]

def deviceEnrollmentComparisonInput (input : DeviceComparison) : Except String Bytes := do
  ensure (namePattern 15 input.requested_feature) "invalid_identity"
  ensure (namePattern 127 input.client_id ∧ namePattern 127 input.project) "invalid_identity"
  identity input.attempt_handle 32
  identity input.state 32
  identity input.code_challenge 32
  ensure (keyPattern input.key_id) "invalid_identity"
  let encoded ← input.values.mapM FieldValue.encode
  return utf8 ("lcc-device-enrollment-comparison-v2\n".toList ++
    List.intercalate ['\n'] encoded ++ ['\n'])

/-! ## Requests -/

/-- What a device signs, or what a person compares. -/
inductive SigningRequest where
  | operationBody (purpose : List Char) (body : OperationBody)
  | operationDigest (purpose keyId : List Char) (body : OperationBody)
  | proof (input : DeviceProof)
  | comparison (input : DeviceComparison)

def SigningRequest.encode : SigningRequest → Except String Bytes
  | .operationBody purpose body => deviceOperationBody purpose body
  | .operationDigest purpose keyId body => deviceOperationDigestInput purpose keyId body
  | .proof input => deviceProofSigningInput input
  | .comparison input => deviceEnrollmentComparisonInput input

/-! ## What a body is -/

/-- The values of a body in the order of its fields. -/
def OperationBody.values (body : OperationBody) : List FieldValue := body.entries.map Prod.snd

theorem DEVICE_OPERATION_FIELDS_ok {purpose : List Char} {body : OperationBody} :
    DEVICE_OPERATION_FIELDS purpose = some (body.entries.map Prod.fst) ↔ purpose = body.purpose := by
  unfold DEVICE_OPERATION_FIELDS
  cases body with
  | exchange =>
    change _ = some ["attempt_handle", "code", "code_verifier", "redirect_uri", "operation_id"] ↔
      purpose = "exchange".toList
    split_ifs with h1 h2
    · exact ⟨fun _ => h1, fun _ => rfl⟩
    · exact ⟨fun h => absurd h (by decide), fun h => absurd h h1⟩
    · exact ⟨fun h => absurd h (by decide), fun h => absurd h h1⟩
  | renew =>
    change _ = some ["binding_id", "generation", "operation_id"] ↔ purpose = "renew".toList
    split_ifs with h1 h2
    · subst h1
      exact ⟨fun h => absurd h (by decide), fun h => absurd h (by decide)⟩
    · exact ⟨fun _ => h2, fun _ => rfl⟩
    · exact ⟨fun h => absurd h (by decide), fun h => absurd h h2⟩

theorem deviceOperationBody_ok {purpose : List Char} {body : OperationBody} {bytes : Bytes} :
    deviceOperationBody purpose body = .ok bytes ↔ purpose = body.purpose ∧
      ∃ values, List.Forall₂ (fun x j => operationValue x = .ok j) body.values values ∧
        bytes = utf8 (stringify values) := by
  unfold deviceOperationBody OperationBody.values
  rw [← DEVICE_OPERATION_FIELDS_ok]
  cases DEVICE_OPERATION_FIELDS purpose with
  | none =>
    constructor
    · intro h
      cases h
    · rintro ⟨h, -⟩
      cases h
  | some fields =>
    dsimp only
    rw [ensure_bind_eq_ok, bind_eq_ok, Option.some.injEq, @eq_comm _ fields]
    simp only [mapM_eq_ok, List.forall₂_map_left_iff]
    refine and_congr_right fun _ => exists_congr fun values => and_congr_right fun _ => ?_
    exact ⟨fun h => (Except.ok.inj h).symm, fun h => congrArg _ h.symm⟩

theorem text_injective {s t v : List Char} (hs : text s = .ok v) (ht : text t = .ok v) : s = t := by
  obtain ⟨-, rfl⟩ := text_ok.mp hs
  obtain ⟨-, he⟩ := text_ok.mp ht
  exact utf8_injective (encodeBase64url_injective he)

theorem toDigits_nonneg_injective {m n : Int} (hm : 0 ≤ m) (hn : 0 ≤ n)
    (h : Nat.toDigits 10 m.toNat = Nat.toDigits 10 n.toNat) : m = n := by
  have := toDigits_injective h
  omega

theorem operationValue_text {s : List Char} {j : Json} : operationValue (.text s) = .ok j ↔
    ∃ v, text s = .ok v ∧ j = .string v := by
  unfold operationValue
  exact store_eq_ok

theorem operationValue_integer {n : Int} {j : Json} : operationValue (.integer n) = .ok j ↔
    (1 ≤ n ∧ n ≤ safeMax) ∧ j = .integer n.toNat := by
  unfold operationValue
  rw [bind_eq_ok]
  simp only [integer_ok, ensure_bind_eq_ok]
  constructor
  · rintro ⟨v, ⟨⟨-, hle⟩, -⟩, hone, h⟩
    exact ⟨⟨hone, hle⟩, (Except.ok.inj h).symm⟩
  · rintro ⟨⟨hone, hle⟩, rfl⟩
    exact ⟨_, ⟨⟨by omega, hle⟩, rfl⟩, hone, rfl⟩

theorem operationValue_injective :
    Relator.LeftUnique fun x j => operationValue x = .ok j := by
  intro x y j hx hy
  cases x with
  | text s =>
    obtain ⟨v, hv, rfl⟩ := operationValue_text.mp hx
    cases y with
    | text t =>
      obtain ⟨w, hw, he⟩ := operationValue_text.mp hy
      cases he
      rw [text_injective hv hw]
    | integer n =>
      obtain ⟨-, he⟩ := operationValue_integer.mp hy
      cases he
  | integer m =>
    obtain ⟨hm, rfl⟩ := operationValue_integer.mp hx
    cases y with
    | text t =>
      obtain ⟨w, -, he⟩ := operationValue_text.mp hy
      cases he
    | integer n =>
      obtain ⟨hn, he⟩ := operationValue_integer.mp hy
      have := Json.integer.inj he
      congr 1
      omega

theorem OperationBody.values_injective {body body' : OperationBody}
    (h : body.values = body'.values) : body = body' := by
  unfold OperationBody.values OperationBody.entries at h
  cases body with
  | exchange =>
    cases body' with
    | exchange => simpa using h
    | renew => simp at h
  | renew =>
    cases body' with
    | exchange => simp at h
    | renew => simpa using h

theorem deviceOperationBody_injective {p p' : List Char} {body body' : OperationBody}
    {bytes : Bytes} (h : deviceOperationBody p body = .ok bytes)
    (h' : deviceOperationBody p' body' = .ok bytes) : p = p' ∧ body = body' := by
  obtain ⟨rfl, values, hvalues, rfl⟩ := deviceOperationBody_ok.mp h
  obtain ⟨rfl, values', hvalues', he⟩ := deviceOperationBody_ok.mp h'
  obtain rfl := stringify_injective (utf8_injective he)
  obtain rfl := OperationBody.values_injective (operationValue_injective.forall₂ hvalues hvalues')
  exact ⟨rfl, rfl⟩

/-! ## What the lines are -/

/-- The text of a request in lines, the first of which names what is signed. -/
def linesText (header : String) (ls : List (List Char)) : List Char :=
  unlines '\n' (header.toList :: ls)

theorem newline_not_mem_text {s v : List Char} (h : text s = .ok v) : '\n' ∉ v :=
  FieldValue.newline_not_mem (x := .text s) h

theorem newline_not_mem_values {xs : List FieldValue} {vs : List (List Char)}
    (h : List.Forall₂ (fun (x : FieldValue) v => x.encode = .ok v) xs vs) : ∀ v ∈ vs, '\n' ∉ v := by
  intro v hv
  obtain ⟨x, hx⟩ := exists_left_of_mem h hv
  exact FieldValue.newline_not_mem hx

theorem deviceOperationDigestInput_ok {purpose keyId : List Char} {body : OperationBody}
    {bytes : Bytes} : deviceOperationDigestInput purpose keyId body = .ok bytes ↔
      keyPattern keyId = true ∧ ∃ semantic p k, deviceOperationBody purpose body = .ok semantic ∧
        text purpose = .ok p ∧ text keyId = .ok k ∧
        bytes = utf8 (linesText "lcc-device-operation-v1" [p, k, encodeBase64url semantic]) := by
  have hlines : ∀ p k s : List Char, List.intercalate ['\n']
      ["lcc-device-operation-v1".toList, p, k, s, []] =
      linesText "lcc-device-operation-v1" [p, k, s] := fun p k s =>
    intercalate_lines ["lcc-device-operation-v1".toList, p, k, s]
  unfold deviceOperationDigestInput
  rw [ensure_bind_eq_ok]
  simp only [bind_eq_ok, hlines]
  refine and_congr_right fun _ => ?_
  constructor
  · rintro ⟨semantic, hsemantic, p, hp, k, hk, h⟩
    exact ⟨semantic, p, k, hsemantic, hp, hk, (Except.ok.inj h).symm⟩
  · rintro ⟨semantic, p, k, hsemantic, hp, hk, rfl⟩
    exact ⟨semantic, hsemantic, p, hp, k, hk, rfl⟩

theorem deviceProofSigningInput_ok {input : DeviceProof} {bytes : Bytes} :
    deviceProofSigningInput input = .ok bytes ↔ (input.method = "POST".toList ∧
      input.path ∈ ["/v2/device-authorizations/exchange".toList, "/v2/device-leases/renew".toList] ∧
      keyPattern input.key_id = true ∧ hexPattern input.body_sha256 = true) ∧
      ∃ vs, List.Forall₂ (fun (x : FieldValue) v => x.encode = .ok v) input.values vs ∧
        bytes = utf8 (linesText "lcc-device-proof-v2" vs) := by
  have hlines : ∀ vs : List (List Char), List.intercalate ['\n']
      ("lcc-device-proof-v2".toList :: (vs ++ [[]])) = linesText "lcc-device-proof-v2" vs :=
    fun vs => intercalate_lines ("lcc-device-proof-v2".toList :: vs)
  unfold deviceProofSigningInput
  rw [ensure_bind_eq_ok, bind_eq_ok]
  simp only [mapM_eq_ok, hlines]
  refine and_congr_right fun _ => exists_congr fun vs => and_congr_right fun _ => ?_
  exact ⟨fun h => (Except.ok.inj h).symm, fun h => congrArg _ h.symm⟩

theorem deviceEnrollmentComparisonInput_ok {input : DeviceComparison} {bytes : Bytes} :
    deviceEnrollmentComparisonInput input = .ok bytes ↔
      namePattern 15 input.requested_feature = true ∧
      (namePattern 127 input.client_id = true ∧ namePattern 127 input.project = true) ∧
      identity input.attempt_handle 32 = .ok () ∧ identity input.state 32 = .ok () ∧
      identity input.code_challenge 32 = .ok () ∧ keyPattern input.key_id = true ∧
      ∃ vs, List.Forall₂ (fun (x : FieldValue) v => x.encode = .ok v) input.values vs ∧
        bytes = utf8 (linesText "lcc-device-enrollment-comparison-v2" vs) := by
  have hlines : ∀ vs : List (List Char), List.Forall₂
      (fun (x : FieldValue) v => x.encode = .ok v) input.values vs →
      "lcc-device-enrollment-comparison-v2\n".toList ++ List.intercalate ['\n'] vs ++ ['\n'] =
      linesText "lcc-device-enrollment-comparison-v2" vs := by
    intro vs hvs
    have hne : vs ≠ [] := by
      rintro rfl
      cases hvs
    have hheader : "lcc-device-enrollment-comparison-v2\n".toList =
        "lcc-device-enrollment-comparison-v2".toList ++ ['\n'] := by decide
    unfold linesText
    rw [unlines_cons, List.append_assoc, intercalate_end hne, hheader, List.append_assoc]
    rfl
  unfold deviceEnrollmentComparisonInput
  rw [ensure_bind_eq_ok, ensure_bind_eq_ok, unit_bind_eq_ok, unit_bind_eq_ok, unit_bind_eq_ok,
    ensure_bind_eq_ok, bind_eq_ok]
  simp only [mapM_eq_ok]
  refine and_congr_right fun _ => and_congr_right fun _ => and_congr_right fun _ =>
    and_congr_right fun _ => and_congr_right fun _ => and_congr_right fun _ =>
    exists_congr fun vs => and_congr_right fun hvs => ?_
  rw [hlines vs hvs]
  exact ⟨fun h => (Except.ok.inj h).symm, fun h => congrArg _ h.symm⟩

/-! ## No two requests have the same bytes -/

/-- Lines without line ends are read back. -/
theorem linesText_injective {header : String} {ls ls' : List (List Char)}
    (hheader : '\n' ∉ header.toList) (hls : ∀ l ∈ ls, '\n' ∉ l) (hls' : ∀ l ∈ ls', '\n' ∉ l)
    (h : linesText header ls = linesText header ls') : ls = ls' := by
  have hall : ∀ {ms : List (List Char)}, (∀ l ∈ ms, '\n' ∉ l) →
      ∀ l ∈ header.toList :: ms, '\n' ∉ l := by
    intro ms hms l hl
    rcases List.mem_cons.mp hl with rfl | hl
    · exact hheader
    · exact hms l hl
  exact (List.cons.inj (unlines_injective (hall hls) (hall hls') h)).2

theorem encode_injective {x y : FieldValue} {v : List Char} (hkind : x.isInteger = y.isInteger)
    (hx : x.encode = .ok v) (hy : y.encode = .ok v) : x = y := by
  cases x with
  | text s =>
    cases y with
    | text t => exact congrArg _ (text_injective hx hy)
    | integer n => cases hkind
  | integer m =>
    cases y with
    | text t => cases hkind
    | integer n =>
      obtain ⟨⟨hm, -⟩, rfl⟩ := integer_ok.mp hx
      obtain ⟨⟨hn, -⟩, he⟩ := integer_ok.mp hy
      exact congrArg _ (toDigits_nonneg_injective hm hn he)

theorem values_injective {xs ys : List FieldValue} {vs : List (List Char)}
    (hkind : List.Forall₂ (fun x y : FieldValue => x.isInteger = y.isInteger) xs ys)
    (hx : List.Forall₂ (fun (x : FieldValue) v => x.encode = .ok v) xs vs)
    (hy : List.Forall₂ (fun (x : FieldValue) v => x.encode = .ok v) ys vs) : xs = ys := by
  induction hkind generalizing vs with
  | nil => rfl
  | cons hk _ ih =>
    cases hx with
    | cons hx hxs =>
      cases hy with
      | cons hy hys => rw [encode_injective hk hx hy, ih hxs hys]

theorem deviceOperationDigestInput_injective {p p' k k' : List Char} {body body' : OperationBody}
    {bytes : Bytes} (h : deviceOperationDigestInput p k body = .ok bytes)
    (h' : deviceOperationDigestInput p' k' body' = .ok bytes) : p = p' ∧ k = k' ∧ body = body' := by
  obtain ⟨-, semantic, v, w, hbody, hv, hw, rfl⟩ := deviceOperationDigestInput_ok.mp h
  obtain ⟨-, semantic', v', w', hbody', hv', hw', he⟩ := deviceOperationDigestInput_ok.mp h'
  have hno : ∀ {p k v w : List Char} {semantic : Bytes}, text p = .ok v → text k = .ok w →
      ∀ l ∈ [v, w, encodeBase64url semantic], '\n' ∉ l := by
    intro p k v w semantic hv hw l hl
    simp only [List.mem_cons, List.not_mem_nil, or_false] at hl
    rcases hl with rfl | rfl | rfl
    · exact newline_not_mem_text hv
    · exact newline_not_mem_text hw
    · exact not_mem_encodeBase64url (by decide)
  have hlines := linesText_injective (by decide) (hno hv hw) (hno hv' hw')
    (utf8_injective he)
  simp only [List.cons.injEq, and_true] at hlines
  obtain ⟨rfl, rfl, hsemantic⟩ := hlines
  obtain rfl := encodeBase64url_injective hsemantic
  obtain ⟨rfl, rfl⟩ := deviceOperationBody_injective hbody hbody'
  exact ⟨rfl, text_injective hw hw', rfl⟩

theorem deviceProofSigningInput_injective {input input' : DeviceProof} {bytes : Bytes}
    (h : deviceProofSigningInput input = .ok bytes)
    (h' : deviceProofSigningInput input' = .ok bytes) : input = input' := by
  obtain ⟨-, vs, hvs, rfl⟩ := deviceProofSigningInput_ok.mp h
  obtain ⟨-, vs', hvs', he⟩ := deviceProofSigningInput_ok.mp h'
  obtain rfl := linesText_injective (by decide) (newline_not_mem_values hvs)
    (newline_not_mem_values hvs') (utf8_injective he)
  have hkind : List.Forall₂ (fun x y : FieldValue => x.isInteger = y.isInteger) input.values
      input'.values := by
    simp [DeviceProof.values, FieldValue.isInteger]
  have hvalues := values_injective hkind hvs hvs'
  cases input
  cases input'
  simpa [DeviceProof.values, and_assoc] using hvalues

theorem deviceEnrollmentComparisonInput_injective {input input' : DeviceComparison} {bytes : Bytes}
    (h : deviceEnrollmentComparisonInput input = .ok bytes)
    (h' : deviceEnrollmentComparisonInput input' = .ok bytes) : input = input' := by
  obtain ⟨-, -, -, -, -, -, vs, hvs, rfl⟩ := deviceEnrollmentComparisonInput_ok.mp h
  obtain ⟨-, -, -, -, -, -, vs', hvs', he⟩ := deviceEnrollmentComparisonInput_ok.mp h'
  obtain rfl := linesText_injective (by decide) (newline_not_mem_values hvs)
    (newline_not_mem_values hvs') (utf8_injective he)
  have hkind : List.Forall₂ (fun x y : FieldValue => x.isInteger = y.isInteger) input.values
      input'.values := by
    simp [DeviceComparison.values, FieldValue.isInteger]
  have hvalues := values_injective hkind hvs hvs'
  cases input
  cases input'
  simpa [DeviceComparison.values, and_assoc] using hvalues

/-- What the bytes of a request start with. -/
def SigningRequest.label : SigningRequest → List Char
  | .operationBody .. => ['[']
  | .operationDigest .. => "lcc-device-operation-v1".toList
  | .proof _ => "lcc-device-proof-v2".toList
  | .comparison _ => "lcc-device-enrollment-comparison-v2".toList

def labelOf (s : List Char) : List Char :=
  if s.head? = some '[' then ['['] else s.takeWhile (· ≠ '\n')

theorem labelOf_stringify (l : List Json) : labelOf (stringify l) = ['['] := by
  unfold labelOf stringify
  rw [if_pos (by simp)]

theorem labelOf_linesText {header : String} {ls : List (List Char)}
    (hheader : '\n' ∉ header.toList) (hfirst : header.toList.head? ≠ some '[')
    (hne : header.toList ≠ []) : labelOf (linesText header ls) = header.toList := by
  have hhead : (linesText header ls).head? = header.toList.head? := by
    unfold linesText
    rw [unlines_cons, List.head?_append_of_ne_nil _ hne]
  have htake : ∀ c ∈ header.toList, decide (c ≠ '\n') = true := by
    intro c hc
    rw [decide_eq_true_eq]
    rintro rfl
    exact hheader hc
  unfold labelOf
  rw [hhead, if_neg hfirst]
  unfold linesText
  rw [unlines_cons, List.takeWhile_append_of_pos htake]
  simp

theorem encode_label {v : SigningRequest} {bytes : Bytes} (h : v.encode = .ok bytes) :
    ∃ s, bytes = utf8 s ∧ labelOf s = v.label := by
  cases v with
  | operationBody purpose body =>
    obtain ⟨-, values, -, rfl⟩ := deviceOperationBody_ok.mp h
    exact ⟨_, rfl, labelOf_stringify values⟩
  | operationDigest purpose keyId body =>
    obtain ⟨-, semantic, p, k, -, -, -, rfl⟩ := deviceOperationDigestInput_ok.mp h
    exact ⟨_, rfl, labelOf_linesText (by decide) (by decide) (by decide)⟩
  | proof input =>
    obtain ⟨-, vs, -, rfl⟩ := deviceProofSigningInput_ok.mp h
    exact ⟨_, rfl, labelOf_linesText (by decide) (by decide) (by decide)⟩
  | comparison input =>
    obtain ⟨-, -, -, -, -, -, vs, -, rfl⟩ := deviceEnrollmentComparisonInput_ok.mp h
    exact ⟨_, rfl, labelOf_linesText (by decide) (by decide) (by decide)⟩

/-- The kind of a request. -/
def SigningRequest.kind : SigningRequest → Nat
  | .operationBody .. => 0
  | .operationDigest .. => 1
  | .proof _ => 2
  | .comparison _ => 3

def labels : List (List Char) := [['['], "lcc-device-operation-v1".toList,
  "lcc-device-proof-v2".toList, "lcc-device-enrollment-comparison-v2".toList]

theorem label_eq (v : SigningRequest) : v.kind < 4 ∧ v.label = labels.getD v.kind [] := by
  cases v with
  | operationBody => exact ⟨by simp [SigningRequest.kind], rfl⟩
  | operationDigest => exact ⟨by simp [SigningRequest.kind], rfl⟩
  | proof => exact ⟨by simp [SigningRequest.kind], rfl⟩
  | comparison => exact ⟨by simp [SigningRequest.kind], rfl⟩

theorem kind_of_label {v w : SigningRequest} (h : v.label = w.label) : v.kind = w.kind := by
  have hall : ∀ i < 4, ∀ j < 4, labels.getD i [] = labels.getD j [] → i = j := by decide
  rw [(label_eq v).2, (label_eq w).2] at h
  exact hall _ (label_eq v).1 _ (label_eq w).1 h

/-- No two requests of the service have the same bytes. -/
theorem SigningRequest.encode_injective {v w : SigningRequest} {bytes : Bytes}
    (hv : v.encode = .ok bytes) (hw : w.encode = .ok bytes) : v = w := by
  have hkind : v.kind = w.kind := by
    obtain ⟨s, hs, hsv⟩ := encode_label hv
    obtain ⟨t, ht, htw⟩ := encode_label hw
    apply kind_of_label
    rw [← hsv, ← htw, utf8_injective (hs.symm.trans ht)]
  cases v with
  | operationBody p body =>
    cases w with
    | operationBody p' body' =>
      obtain ⟨rfl, rfl⟩ := deviceOperationBody_injective hv hw
      rfl
    | operationDigest => cases hkind
    | proof => cases hkind
    | comparison => cases hkind
  | operationDigest p k body =>
    cases w with
    | operationDigest p' k' body' =>
      obtain ⟨rfl, rfl, rfl⟩ := deviceOperationDigestInput_injective hv hw
      rfl
    | operationBody => cases hkind
    | proof => cases hkind
    | comparison => cases hkind
  | proof input =>
    cases w with
    | proof input' => rw [deviceProofSigningInput_injective hv hw]
    | operationBody => cases hkind
    | operationDigest => cases hkind
    | comparison => cases hkind
  | comparison input =>
    cases w with
    | comparison input' => rw [deviceEnrollmentComparisonInput_injective hv hw]
    | operationBody => cases hkind
    | operationDigest => cases hkind
    | proof => cases hkind

end Licensecc.Protocol
