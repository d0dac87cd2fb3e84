-- The signed tokens of the library: the envelope, the lines of its payload, and
-- the fields that name the key before the payload is parsed.
import Licensecc.Codec.Decimal
import Licensecc.Codec.Fields
import Licensecc.Protocol.Checks
import Licensecc.Token.SignatureVerifier

open Licensecc.Codec Licensecc.Protocol

namespace Licensecc.Token

/-! ## Claim lines -/

def value_has_line_breaks_or_equals (value : Bytes) : Bool :=
  value.contains (byte '\n') || value.contains (byte '\r') || value.contains (byte '=')

/-- `key=` -/
def keyText (key : String) : Bytes := bytesOf key.toList ++ [byte '=']

def claimLine (key : String) (value : Bytes) : Bytes := keyText key ++ value ++ [byte '\n']

def append_claim_line (out : Bytes) (key : String) (value : Bytes) : Option Bytes :=
  if value_has_line_breaks_or_equals value then none else some (out ++ claimLine key value)

def append_uint_claim_line (out : Bytes) (key : String) (value : UInt64) : Option Bytes :=
  some (out ++ claimLine key (bytesOf (Nat.toDigits 10 value.toNat)))

def UINT64_MAX : UInt64 := 0xffffffffffffffff

/-- The loop of `parse_uint64`. -/
def parse_uint64_loop : UInt64 → Bytes → Option UInt64
  | result, [] => some result
  | result, ch :: rest =>
    if ¬ inRange '0' '9' ch then none
    else
      let digit := ch.toUInt64 - 48
      if (UINT64_MAX - digit) / 10 < result then none
      else parse_uint64_loop (result * 10 + digit) rest

def parse_uint64 (value : Bytes) : Option UInt64 :=
  if value = [] then none else parse_uint64_loop 0 value

/-- The loop over the ended lines stops at the first one that has the key. -/
def extract_preverify_field (payload : Bytes) (key : String) : Option Bytes :=
  match firstField (byte '\n') (keyText key) payload with
  | none => none
  | some out => if out = [] then none else some out

/-- The texts of the errors of `parse_fields_in_order`. -/
def fieldMessage (noun : String) : FieldError String → String
  | .missing key => noun ++ " missing field " ++ key
  | .expected key => noun ++ " expected field " ++ key
  | .invalid key => noun ++ " invalid value for " ++ key
  | .trailing => noun ++ " has unknown trailing fields"

def parse_fields_in_order (payload : Bytes) (fields : List String) (error_noun : String)
    (validate_values : Bool) : Except String (List Bytes) :=
  (parseFields (byte '\n') keyText
    (fun value => validate_values && value_has_line_breaks_or_equals value) fields
    payload).mapError (fieldMessage error_noun)

/-! ## Envelopes -/

/-- The two parts of an envelope, both in base64. -/
def split_envelope (token : Bytes) ( expected_prefix error_noun : String) :
    Except String (Bytes × Bytes) :=
  match takeLine (byte '.') token with
  | none => .error (error_noun ++ " missing payload")
  | some (head, rest) =>
    match takeLine (byte '.') rest with
    | none => .error (error_noun ++ " envelope malformed")
    | some (payload_b64, signature_b64) =>
      if byte '.' ∈ signature_b64 then .error (error_noun ++ " envelope malformed")
      else if head ≠ bytesOf expected_prefix.toList then .error (error_noun ++ " prefix mismatch")
      else if ¬ is_canonical_base64 payload_b64 false ∨ ¬ is_canonical_base64 signature_b64 false then
        .error (error_noun ++ " base64 is not canonical")
      else .ok (payload_b64, signature_b64)

def build_envelope ( envelope_prefix : String) (payload signature_base64 : Bytes) : Bytes :=
  bytesOf envelope_prefix.toList ++ byte '.' :: base64 payload ++ byte '.' :: signature_base64

section
variable (rsaVerify : Bytes → Bytes → Bytes → Bool)

def verify_payload_signature (payload signature payload_text : Bytes) (license_version : Nat)
    (policy : SignatureVerificationPolicy) (error_noun : String) : Except String Unit :=
  match extract_preverify_field payload_text "alg", extract_preverify_field payload_text "key-id" with
  | some algorithm, some key_id =>
    let request : SignatureVerificationRequest := ⟨payload, signature, [], algorithm, key_id,
      license_version, policy⟩
    if verify_signature rsaVerify request then .ok ()
    else .error (error_noun ++ " signature verification failed")
  | _, _ => .error (error_noun ++ " missing signature metadata")

end

/-! ## Values -/

theorem value_has_line_breaks_or_equals_iff {value : Bytes} :
    value_has_line_breaks_or_equals value = false ↔
      byte '\n' ∉ value ∧ byte '\r' ∉ value ∧ byte '=' ∉ value := by
  simp [value_has_line_breaks_or_equals, and_assoc]

theorem append_claim_line_eq_some {out : Bytes} {key : String} {value text : Bytes} :
    append_claim_line out key value = some text ↔
      value_has_line_breaks_or_equals value = false ∧ text = out ++ claimLine key value := by
  unfold append_claim_line
  by_cases h : value_has_line_breaks_or_equals value = true
  · simp [h]
  · rw [if_neg h, Option.some.injEq, eq_comm]
    simp [h]

theorem inRange_digit {ch : UInt8} (h : inRange '0' '9' ch = true) :
    48 ≤ ch.toNat ∧ ch.toNat ≤ 57 := by
  simpa [inRange] using h

/-- One turn of the loop keeps the number below the bound or stops. -/
theorem parse_turn {result : UInt64} {ch : UInt8} (h : inRange '0' '9' ch = true) :
    (¬ (UINT64_MAX - (ch.toUInt64 - 48)) / 10 < result ↔
      10 * result.toNat + (ch.toNat - 48) < 2 ^ 64) ∧
    (10 * result.toNat + (ch.toNat - 48) < 2 ^ 64 →
      (result * 10 + (ch.toUInt64 - 48)).toNat = 10 * result.toNat + (ch.toNat - 48)) := by
  obtain ⟨h1, h2⟩ := inRange_digit h
  have hr := result.toNat_lt
  have hch : (ch.toUInt64 - 48).toNat = ch.toNat - 48 := by
    rw [UInt64.toNat_sub_of_le]
    · simp
    · rw [UInt64.le_iff_toNat_le]
      simpa using h1
  have hmax : UINT64_MAX.toNat = 2 ^ 64 - 1 := rfl
  have hsub : (UINT64_MAX - (ch.toUInt64 - 48)).toNat = 2 ^ 64 - 1 - (ch.toNat - 48) := by
    rw [UInt64.toNat_sub_of_le, hmax, hch]
    rw [UInt64.le_iff_toNat_le, hmax, hch]
    omega
  constructor
  · rw [UInt64.lt_iff_toNat_lt, UInt64.toNat_div, hsub]
    have h10 : (10 : UInt64).toNat = 10 := rfl
    rw [h10]
    omega
  · intro hlt
    have h10 : (10 : UInt64).toNat = 10 := rfl
    rw [UInt64.toNat_add, UInt64.toNat_mul, hch, h10]
    omega

theorem parse_uint64_loop_eq {result n : UInt64} {value : Bytes} :
    parse_uint64_loop result value = some n ↔ value.all (inRange '0' '9') = true ∧
      value.foldl (fun v b => 10 * v + (b.toNat - 48)) result.toNat = n.toNat := by
  induction value generalizing result with
  | nil =>
    unfold parse_uint64_loop
    simp [UInt64.toNat_inj]
  | cons ch rest ih =>
    unfold parse_uint64_loop
    by_cases hch : inRange '0' '9' ch = true
    · rw [if_neg (by simpa using hch), List.all_cons, hch, Bool.true_and, List.foldl_cons]
      obtain ⟨hturn, hnext⟩ := @parse_turn result ch hch
      by_cases hlt : 10 * result.toNat + (ch.toNat - 48) < 2 ^ 64
      · simp only
        rw [if_neg (hturn.mpr hlt), ih, hnext hlt]
      · -- The number is already too large, and no further digit makes it smaller.
        have hgrow : ∀ (l : Bytes) (v : Nat), v ≤ l.foldl (fun v b => 10 * v + (b.toNat - 48)) v := by
          intro l
          induction l with
          | nil => intro v; exact Nat.le_refl v
          | cons b l ihl =>
            intro v
            rw [List.foldl_cons]
            exact Nat.le_trans (by omega) (ihl _)
        simp only
        rw [if_pos (Decidable.not_not.mp (fun h => hlt (hturn.mp h)))]
        constructor
        · intro h
          cases h
        · rintro ⟨-, h⟩
          have := hgrow rest (10 * result.toNat + (ch.toNat - 48))
          have := n.toNat_lt
          omega
    · rw [if_pos (by simpa using hch)]
      simp [hch]

/-- A text is parsed exactly when it is some digits whose value fits. -/
theorem parse_uint64_eq {value : Bytes} {n : UInt64} : parse_uint64 value = some n ↔
    value ≠ [] ∧ value.all (inRange '0' '9') = true ∧ decimalValue value = n.toNat := by
  unfold parse_uint64
  by_cases h : value = []
  · simp [h]
  · rw [if_neg h, parse_uint64_loop_eq]
    simp only [ne_eq, h, not_false_eq_true, true_and]
    rfl

theorem inRange_toDigits (n : Nat) :
    (bytesOf (Nat.toDigits 10 n)).all (inRange '0' '9') = true := by
  rw [List.all_eq_true]
  intro b hb
  obtain ⟨c, hc, rfl⟩ := List.mem_map.mp hb
  obtain ⟨h1, h2⟩ := isDigit_toNat (Nat.isDigit_of_mem_toDigits (b := 10) (by omega) (by omega) hc)
  simp only [inRange, Bool.and_eq_true, decide_eq_true_eq, UInt8.toNat_ofNat']
  have h0 : '0'.toNat = 48 := rfl
  have h9 : '9'.toNat = 57 := rfl
  omega

/-- The numeral of a number is parsed to it. -/
theorem parse_uint64_toDigits (n : UInt64) :
    parse_uint64 (bytesOf (Nat.toDigits 10 n.toNat)) = some n := by
  rw [parse_uint64_eq]
  refine ⟨?_, inRange_toDigits _, ?_⟩
  · intro h
    have := congrArg List.length h
    rw [length_bytesOf] at this
    exact Nat.toDigits_ne_nil (List.length_eq_zero_iff.mp this)
  · rw [decimalValue_eq, binary_bytesOf (ascii_toDigits _), Nat.ofDigitChars_ten_toDigits]

end Licensecc.Token
