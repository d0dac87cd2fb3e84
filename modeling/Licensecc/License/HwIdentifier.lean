-- The hardware identifiers: how their text is read, and how an identifier
-- of a license is compared with those of the machine.
import Licensecc.License.Strings
import Licensecc.Token.Decision

open Licensecc.Codec Licensecc.V201 Licensecc.Token
open Licensecc.Protocol (byte inRange)

namespace Licensecc.License

/-! ## Base64 in lines -/

def add_CR_if_needed (encodeBuffer : Bytes) (lineLenght : Nat) : Bytes :=
  if 0 < lineLenght ∧ (encodeBuffer.length + 1) % lineLenght = 0 then
    encodeBuffer ++ [byte '\n']
  else encodeBuffer

/-- `base64` with a `lineLenght` -/
def base64Lines (binaryData : Bytes) (lineLenght : Nat) : Bytes :=
  let encodeBuffer := (base64 binaryData).foldl
    (fun encodeBuffer ch => add_CR_if_needed encodeBuffer lineLenght ++ [ch]) []
  if lineLenght ≠ 0 ∧ encodeBuffer ≠ [] ∧ encodeBuffer.getLast? ≠ some (byte '\n') then
    encodeBuffer ++ [byte '\n']
  else encodeBuffer

/-! ## Identifiers -/

def HW_IDENTIFIER_PROPRIETARY_DATA : Nat := 7

structure HwIdentifier where
  m_data : Bytes
  size : m_data.length = HW_IDENTIFIER_PROPRIETARY_DATA + 1

namespace HwIdentifier

/-- `m_data[i]` -/
def data (id : HwIdentifier) (i : Nat) : Nat := (id.m_data.getD i 0).toNat

def STRATEGY_ETHERNET : Nat := 0

def STRATEGY_IP_ADDRESS : Nat := 1

def STRATEGY_DISK : Nat := 2

def get_identification_strategy (id : HwIdentifier) : Nat := id.data 1 >>> 5

def uses_environment_var (id : HwIdentifier) : Bool := id.data 0 &&& 0x40 ≠ 0

/-- One of the flags of the weak disk sources is set. -/
def uses_weak_source (id : HwIdentifier) : Bool := id.data 0 &&& 0x03 ≠ 0

def source_strength_metadata (id : HwIdentifier) : Except Bytes Bytes :=
  let env_selected := id.uses_environment_var
  let strategy := id.get_identification_strategy
  if id.uses_weak_source ∧ strategy ≠ STRATEGY_DISK then
    .error (text "weak-source metadata is only supported for disk identifiers")
  else if strategy = STRATEGY_ETHERNET then
    .ok (text (if env_selected then "weak-env-selected-ethernet-mac" else "strong-ethernet-mac"))
  else if strategy = STRATEGY_IP_ADDRESS then
    .ok (text (if env_selected then "weak-env-selected-ip-address" else "weak-ip-address"))
  else if strategy = STRATEGY_DISK then
    if id.data 0 &&& 0x01 ≠ 0 then
      .ok (text (if env_selected then "weak-env-selected-disk-label" else "weak-disk-label"))
    else if id.data 0 &&& 0x02 ≠ 0 then
      .ok (text (if env_selected then "weak-env-selected-disk-mutable" else "weak-disk-mutable"))
    else
      .ok (text (if env_selected then "weak-env-selected-disk-serial-or-uuid"
        else "strong-disk-serial-or-uuid"))
  else .error (text "unsupported identifier strategy")

/-- The text of some data, a dash between its lines. -/
def printData (m_data : Bytes) : Bytes :=
  ((base64Lines m_data 5).map fun ch => if ch = byte '\n' then byte '-' else ch).dropLast

def print (id : HwIdentifier) : Bytes := printData id.m_data

/-- `operator==` -/
def eq (lhs rhs : HwIdentifier) : Bool :=
  lhs.get_identification_strategy = rhs.get_identification_strategy &&
    lhs.uses_weak_source = rhs.uses_weak_source &&
    lhs.data 1 &&& 0x1f = rhs.data 1 &&& 0x1f && lhs.m_data.drop 2 = rhs.m_data.drop 2

end HwIdentifier

def decode_identifier (param : Bytes) : Except Bytes Bytes :=
  if param = [] then .error (text "empty identifier")
  else if param.any fun ch => isspace ch || iscntrl ch then
    .error (text "identifier contains whitespace or control characters")
  else if param.count (byte '-') ≠ 2 then .error (text "identifier is not in canonical format")
  else .ok (unbase64 (param.map fun ch => if ch = byte '-' then byte '\n' else ch))

/-- `HwIdentifier(param)` -/
def HwIdentifier.parse (param : Bytes) : Except Bytes HwIdentifier :=
  match decode_identifier param with
  | .error e => .error e
  | .ok decoded =>
    if h : decoded.length = HW_IDENTIFIER_PROPRIETARY_DATA + 1 then
      let id : HwIdentifier := ⟨decoded, h⟩
      if id.data 0 &&& (0xff ^^^ 0x43) ≠ 0 then
        .error (text "identifier contains unsupported control flags " ++ param)
      else if STRATEGY_DISK < id.data 1 >>> 5 then
        .error (text "identifier contains unsupported strategy " ++ param)
      else if id.data 0 &&& 0x03 = 0x03 then
        .error (text "identifier contains multiple weak disk source flags " ++ param)
      else if id.uses_weak_source ∧ id.get_identification_strategy ≠ STRATEGY_DISK then
        .error (text "identifier contains weak-source flag for non-disk strategy " ++ param)
      else if id.print ≠ param then .error (text "identifier is not canonical " ++ param)
      else .ok id
    else .error (text "wrong identifier size " ++ param)

/-! ## The identifiers of the machine -/

/-- What the build allows of the weak bindings. -/
structure BindingPolicy where
  allow_ip_binding : Bool
  allow_env_selected_binding : Bool
  allow_weak_disk_label_binding : Bool

/-- `IdentificationStrategy::validate_identifier`: the identifiers that a strategy finds on
the machine are given. -/
def validate_identifier (alternative_ids : Nat → List HwIdentifier) (identifier : HwIdentifier) :
    LCC_EVENT_TYPE :=
  if (alternative_ids identifier.get_identification_strategy).any (·.eq identifier) then .LICENSE_OK
  else .IDENTIFIERS_MISMATCH

def validate_pc_signature (policy : BindingPolicy) (alternative_ids : Nat → List HwIdentifier)
    (str_code : Bytes) : LCC_EVENT_TYPE :=
  match HwIdentifier.parse str_code with
  | .error _ => .LICENSE_MALFORMED
  | .ok pc_id =>
    if pc_id.get_identification_strategy = HwIdentifier.STRATEGY_IP_ADDRESS ∧
        policy.allow_ip_binding = false then .LICENSE_MALFORMED
    else if pc_id.uses_environment_var ∧ policy.allow_env_selected_binding = false then
      .LICENSE_MALFORMED
    else if pc_id.uses_weak_source ∧ policy.allow_weak_disk_label_binding = false then
      .LICENSE_MALFORMED
    else validate_identifier alternative_ids pc_id

/-- An empty text is no identifier. -/
theorem parse_nil : HwIdentifier.parse [] = .error (text "empty identifier") := rfl

/-- An identifier that is read is written as the same text. -/
theorem print_parse {param : Bytes} {id : HwIdentifier} (h : HwIdentifier.parse param = .ok id) :
    id.print = param := by
  unfold HwIdentifier.parse at h
  split at h
  · cases h
  · split at h
    · simp only [ite_error_eq_ok] at h
      obtain ⟨-, -, -, -, hprint, h⟩ := h
      obtain rfl := Except.ok.inj h
      simpa using hprint
    · cases h

end Licensecc.License
