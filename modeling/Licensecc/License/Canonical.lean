-- The canonical payload of a v201 license. The order of the fields does not
-- matter to it, and no other fields give the same payload.
import Licensecc.Codec.Frames
import Licensecc.Token.ConfigAttestation

open Licensecc.Codec Licensecc.Token
open Licensecc.Protocol (byte inRange)

namespace Licensecc.V201

/-- The bytes of a text of the program. -/
def text (s : String) : Bytes := bytesOf s.toList

structure CanonicalField where
  key : Bytes
  value : Bytes

def kDomain : Bytes := text "licensecc:v201\n"

def kMaxKeyLength : Nat := 64

def kMaxValueLength : Nat := 4096

def kMaxPayloadLength : Nat := 16384

def canonical_order : List Bytes := [
  text "lic_ver", text "canonical-v", text "sig-v", text "sig-alg", text "key-id",
  text "project", text "feature", text "valid-from", text "valid-to", text "start-version",
  text "end-version", text "custom-limit", text "client-signature",
  text "client-signature-source-strength", text "extra-data"]

/-- The required fields, in the order of a `std::set`. -/
def required_fields : List Bytes := [
  text "canonical-v", text "feature", text "key-id", text "lic_ver", text "project",
  text "sig-alg", text "sig-v"]

def is_allowed_key (key : Bytes) : Bool := canonical_order.contains key

/-! ## The checks of a value -/

def is_lower_hex (ch : UInt8) : Bool := inRange '0' '9' ch || inRange 'a' 'f' ch

def is_ascii_lower (ch : UInt8) : Bool := inRange 'a' 'z' ch

def is_ascii_upper (ch : UInt8) : Bool := inRange 'A' 'Z' ch

/-- Also `std::isdigit` -/
def is_ascii_digit (ch : UInt8) : Bool := inRange '0' '9' ch

def is_ascii_alpha (ch : UInt8) : Bool := is_ascii_lower ch || is_ascii_upper ch

def is_ascii_alnum (ch : UInt8) : Bool := is_ascii_alpha ch || is_ascii_digit ch

def has_disallowed_value_byte (value : Bytes) : Bool :=
  value.any fun ch => ch < 0x20 || ch > 0x7e

def valid_key_name (key : Bytes) : Bool :=
  key ≠ [] && key.length ≤ kMaxKeyLength && key.all fun ch =>
    is_ascii_lower ch || is_ascii_digit ch || ch = byte '-' || ch = byte '_'

def valid_project_name : Bytes → Bool
  | [] => false
  | first :: rest => (is_ascii_alpha first || first = byte '_') &&
    (first :: rest).all fun ch => is_ascii_alnum ch || ch = byte '_'

def valid_feature_name (value : Bytes) : Bool :=
  value ≠ [] && value.all fun ch =>
    is_ascii_upper ch || is_ascii_digit ch || ch = byte '_' || ch = byte '-' || ch = byte '.'

/-- `std::stoul` on a text of digits -/
def stoul (digits : Bytes) : Nat := digits.foldl (fun n ch => n * 10 + (ch.toNat - 48)) 0

def days_in_month (year month : Nat) : Nat :=
  let leap_year := (year % 4 = 0 && year % 100 ≠ 0) || year % 400 = 0
  [0, 31, if leap_year then 29 else 28, 31, 30, 31, 30, 31, 31, 30, 31, 30, 31].getD month 0

/-- The year, the month and the day of a date that the calendar has. -/
def parse_date (value : Bytes) : Option (Nat × Nat × Nat) :=
  if value.length ≠ 10 ∨ value.getD 4 0 ≠ byte '-' ∨ value.getD 7 0 ≠ byte '-' then none
  else if [0, 1, 2, 3, 5, 6, 8, 9].all fun pos => is_ascii_digit (value.getD pos 0) then
    let year := stoul (value.take 4)
    let month := stoul ((value.drop 5).take 2)
    let day := stoul ((value.drop 8).take 2)
    if year ≠ 0 ∧ 1 ≤ month ∧ month ≤ 12 ∧ 1 ≤ day ∧ day ≤ days_in_month year month then
      some (year, month, day)
    else none
  else none

def valid_date (value : Bytes) : Bool := (parse_date value).isSome

/-- The loop over a version, with its counts. -/
def versionLoop : Nat → Nat → Bytes → Bool
  | _, component_size, [] => 0 < component_size && component_size ≤ 4
  | components, component_size, ch :: rest =>
    if ch = byte '.' then
      if component_size = 0 ∨ 4 < component_size ∨ 2 ≤ components then false
      else versionLoop (components + 1) 0 rest
    else if is_ascii_digit ch then versionLoop components (component_size + 1) rest
    else false

def valid_version (value : Bytes) : Bool :=
  if value = [] ∨ value.head? = some (byte '.') ∨ value.getLast? = some (byte '.') then false
  else versionLoop 0 0 value

/-- The parts that `std::getline` reads: an empty part at the end is not read. -/
def getlines (delim : UInt8) (s : Bytes) : List Bytes :=
  let parts := s.splitOn delim
  if parts.getLast? = some [] then parts.dropLast else parts

def version_components (value : Bytes) : List Nat := (getlines (byte '.') value).map stoul

/-- The first component that differs decides, and one that is missing is zero. -/
def compareComponents (lhs rhs : List Nat) : Int :=
  match (List.range (max lhs.length rhs.length)).find? fun i => lhs.getD i 0 ≠ rhs.getD i 0 with
  | none => 0
  | some i => if lhs.getD i 0 < rhs.getD i 0 then -1 else 1

def compare_versions (lhs rhs : Bytes) : Int :=
  compareComponents (version_components lhs) (version_components rhs)

def valid_key_id (value : Bytes) : Bool :=
  value.length = (text "sha256:").length + 64 && value.take 7 = text "sha256:" &&
    (value.drop 7).all is_lower_hex

def source_strengths : List Bytes := [
  text "strong-ethernet-mac", text "strong-disk-serial-or-uuid", text "weak-ip-address",
  text "weak-env-selected-ethernet-mac", text "weak-env-selected-ip-address",
  text "weak-env-selected-disk-serial-or-uuid", text "weak-disk-label",
  text "weak-env-selected-disk-label", text "weak-disk-mutable",
  text "weak-env-selected-disk-mutable"]

def valid_client_signature_source_strength (value : Bytes) : Bool :=
  source_strengths.contains value

def validate_field_semantics (key value : Bytes) : Except Bytes Unit :=
  if key = text "lic_ver" ∧ value ≠ text "201" then .error (text "lic_ver must be 201")
  else if (key = text "canonical-v" ∨ key = text "sig-v") ∧ value ≠ text "1" then
    .error (key ++ text " must be 1")
  else if key = text "sig-alg" ∧ value ≠ text "rsa-pkcs1-sha256" then
    .error (text "sig-alg is unsupported")
  else if key = text "key-id" ∧ valid_key_id value = false then
    .error (text "key-id must be sha256 plus 64 lowercase hex characters")
  else if key = text "project" ∧ valid_project_name value = false then
    .error (text "project is not a valid licensecc project name")
  else if key = text "feature" ∧ valid_feature_name value = false then
    .error (text "feature is not canonical")
  else if (key = text "valid-from" ∨ key = text "valid-to") ∧ valid_date value = false then
    .error (key ++ text " is not a canonical calendar date")
  else if (key = text "start-version" ∨ key = text "end-version") ∧ valid_version value = false then
    .error (key ++ text " is not a canonical version")
  else if key = text "custom-limit" ∧ 255 < value.length then
    .error (text "custom-limit exceeds the public policy limit")
  else if key = text "client-signature-source-strength" ∧
      valid_client_signature_source_strength value = false then
    .error (text "client-signature-source-strength is unsupported")
  else .ok ()

/-! ## The payload -/

def frame_length (length : Nat) : Bytes := (paddedDigits 16 8 length).map Token.hexDigit

/-- What `append_field` appends. -/
def fieldFrame (field : CanonicalField) : Bytes :=
  [byte 'k'] ++ frame_length field.key.length ++ [byte ':'] ++ field.key ++
    [byte 'v'] ++ frame_length field.value.length ++ [byte ':'] ++ field.value ++ [byte '\n']

/-- The checks of a field before it is inserted. -/
def check_field (field : CanonicalField) : Except Bytes Unit :=
  if valid_key_name field.key = false then
    .error (text "invalid canonical field key: " ++ field.key)
  else if field.key = text "sig" then
    .error (text "sig must not be included in the canonical payload")
  else if is_allowed_key field.key = false then
    .error (text "unknown canonical field key: " ++ field.key)
  else if field.value = [] then
    .error (text "canonical field value must not be empty: " ++ field.key)
  else if kMaxValueLength < field.value.length then
    .error (text "canonical field value is too long: " ++ field.key)
  else if has_disallowed_value_byte field.value = true then
    .error (text "canonical field value contains a non-printable or non-ASCII byte: " ++ field.key)
  else .ok ()

/-- `by_key.insert(...)` with the checks of the loop around it. -/
def insert_field (by_key : List CanonicalField) (field : CanonicalField) :
    Except Bytes (List CanonicalField) := do
  check_field field
  ensure (field.key ∉ by_key.map (·.key)) (text "duplicate canonical field key: " ++ field.key)
  validate_field_semantics field.key field.value
  return by_key ++ [field]

/-- `by_key.find(key)` -/
def findField (by_key : List CanonicalField) (key : Bytes) : Option Bytes :=
  (by_key.find? fun field => field.key = key).map (·.value)

/-- The fields that are there, in the canonical order. -/
def orderedFields (find : Bytes → Option Bytes) : List CanonicalField :=
  canonical_order.filterMap fun key => (find key).map fun value => ⟨key, value⟩

/-- `valid-from` is after `valid-to`, or another pair of fields does not fit. -/
def pairBefore (find : Bytes → Option Bytes) (first second : Bytes)
    (after : Bytes → Bytes → Bool) : Bool :=
  match find first, find second with
  | some a, some b => !after a b
  | _, _ => true

def check_fields (find : Bytes → Option Bytes) : Except Bytes Unit := do
  match required_fields.find? fun required => find required = none with
  | some required => throw (text "missing required canonical field: " ++ required)
  | none =>
    ensure (pairBefore find (text "valid-from") (text "valid-to") (fun a b => b < a))
      (text "valid-from must not be after valid-to")
    ensure (pairBefore find (text "start-version") (text "end-version")
        (fun a b => 0 < compare_versions a b))
      (text "start-version must not be after end-version")
    ensure ((find (text "client-signature")).isSome =
        (find (text "client-signature-source-strength")).isSome)
      (text "client-signature and client-signature-source-strength must be present together")

def payloadBytes (fields : List CanonicalField) : Bytes := kDomain ++ fields.flatMap fieldFrame

def build_canonical_payload (fields : List CanonicalField) : Except Bytes Bytes := do
  let by_key ← fields.foldlM insert_field []
  check_fields (findField by_key)
  let bytes := payloadBytes (orderedFields (findField by_key))
  if kMaxPayloadLength < bytes.length then throw (text "canonical payload is too long")
  else return bytes

/-! ## The frames -/

theorem hexDigit_injective : ∀ m < 16, ∀ n < 16, Token.hexDigit m = Token.hexDigit n → m = n := by decide

theorem hexDigit_ne_mark : ∀ n < 16, Token.hexDigit n ≠ byte ':' := by decide

theorem frame_length_injective : Function.Injective frame_length := by
  intro m n h
  apply paddedDigits_injective 16 8
  have hlt : ∀ n, ∀ d ∈ paddedDigits 16 8 n, d < 16 := fun n => paddedDigits_lt (by decide)
  unfold frame_length at h
  refine List.ext_getElem (by simpa using congrArg List.length h) fun i hm hn => ?_
  apply hexDigit_injective _ (hlt m _ (List.getElem_mem hm)) _ (hlt n _ (List.getElem_mem hn))
  simpa [hm, hn] using congrArg (·[i]?) h

theorem mark_not_mem_frame_length (n : Nat) : byte ':' ∉ frame_length n := by
  intro h
  obtain ⟨d, hd, he⟩ := List.mem_map.mp h
  exact hexDigit_ne_mark d (paddedDigits_lt (by decide) d hd) he

/-- A field can be told from what follows it. -/
theorem selfDelimiting_fieldFrame : SelfDelimiting fieldFrame := by
  constructor
  · intro a h
    simp [fieldFrame] at h
  · intro a b r s h
    unfold fieldFrame at h
    simp only [List.append_assoc, List.cons_append, List.cons.injEq,
      true_and] at h
    obtain ⟨hkey, h⟩ := block_cancel frame_length_injective mark_not_mem_frame_length h
    obtain ⟨hvalue, h⟩ := block_cancel frame_length_injective mark_not_mem_frame_length
      (List.cons.inj h).2
    refine ⟨?_, (List.cons.inj h).2⟩
    cases a
    cases b
    simp_all

/-- A payload has one list of fields. -/
theorem payloadBytes_injective {fields fields' : List CanonicalField}
    (h : payloadBytes fields = payloadBytes fields') : fields = fields' :=
  selfDelimiting_fieldFrame.flatMap_injective (List.append_cancel_left h)

/-! ## The fields that are accepted -/

/-- A field that passes its own checks. -/
def FieldOk (field : CanonicalField) : Prop :=
  check_field field = .ok () ∧ validate_field_semantics field.key field.value = .ok ()

theorem insert_field_ok {by_key by_key' : List CanonicalField} {field : CanonicalField} :
    insert_field by_key field = .ok by_key' ↔
      FieldOk field ∧ field.key ∉ by_key.map (·.key) ∧ by_key' = by_key ++ [field] := by
  unfold insert_field FieldOk
  rw [unit_bind_eq_ok, ensure_bind_eq_ok, unit_bind_eq_ok]
  constructor
  · rintro ⟨hcheck, hnew, hsemantics, h⟩
    exact ⟨⟨hcheck, hsemantics⟩, hnew, (Except.ok.inj h).symm⟩
  · rintro ⟨⟨hcheck, hsemantics⟩, hnew, rfl⟩
    exact ⟨hcheck, hnew, hsemantics, rfl⟩

/-- The fields are inserted when each of them is good and no key comes twice. -/
theorem insert_fields_ok {fields by_key by_key' : List CanonicalField}
    (hkeys : (by_key.map (·.key)).Nodup) : fields.foldlM insert_field by_key = .ok by_key' ↔
      (∀ field ∈ fields, FieldOk field) ∧ ((by_key ++ fields).map (·.key)).Nodup ∧
        by_key' = by_key ++ fields := by
  induction fields generalizing by_key with
  | nil => simpa [pure, Except.pure, eq_comm] using fun _ => hkeys
  | cons field fields ih =>
    rw [List.foldlM_cons, bind_eq_ok]
    constructor
    · rintro ⟨next, hnext, h⟩
      obtain ⟨hok, hnew, rfl⟩ := insert_field_ok.mp hnext
      have hkeys' : ((by_key ++ [field]).map (·.key)).Nodup := by
        simpa [List.nodup_append, hkeys] using hnew
      obtain ⟨hall, hnodup, rfl⟩ := (ih hkeys').mp h
      rw [List.append_assoc] at hnodup ⊢
      exact ⟨List.forall_mem_cons.mpr ⟨hok, hall⟩, hnodup, rfl⟩
    · rintro ⟨hall, hnodup, rfl⟩
      obtain ⟨hok, hall⟩ := List.forall_mem_cons.mp hall
      rw [← List.singleton_append, ← List.append_assoc] at hnodup
      have hkeys' : ((by_key ++ [field]).map (·.key)).Nodup := by
        rw [List.map_append] at hnodup
        exact (List.nodup_append.mp hnodup).1
      refine ⟨by_key ++ [field], insert_field_ok.mpr ⟨hok, ?_, rfl⟩,
        (ih hkeys').mpr ⟨hall, hnodup, by simp⟩⟩
      simpa [List.nodup_append, hkeys] using hkeys'

/-- What a key finds is a field of the list. -/
theorem findField_eq_some {fields : List CanonicalField} (hkeys : (fields.map (·.key)).Nodup)
    {key value : Bytes} : findField fields key = some value ↔ ⟨key, value⟩ ∈ fields := by
  unfold findField
  induction fields with
  | nil => simp
  | cons field fields ih =>
    obtain ⟨hnew, hkeys⟩ := List.nodup_cons.mp hkeys
    rw [List.find?_cons]
    by_cases hkey : field.key = key
    · subst hkey
      have hrest : ⟨field.key, value⟩ ∉ fields := fun h =>
        hnew (List.mem_map.mpr ⟨_, h, rfl⟩)
      cases field
      simp_all [eq_comm]
    · rw [List.mem_cons]
      simp only [hkey, decide_false]
      rw [ih hkeys]
      constructor
      · exact Or.inr
      · rintro (rfl | h)
        · exact absurd rfl hkey
        · exact h

theorem findField_perm {fields fields' : List CanonicalField} (hperm : fields.Perm fields')
    (hkeys : (fields.map (·.key)).Nodup) : findField fields = findField fields' := by
  have hkeys' := (hperm.map (·.key)).nodup_iff.mp hkeys
  funext key
  apply Option.ext
  intro value
  rw [findField_eq_some hkeys, findField_eq_some hkeys', hperm.mem_iff]

/-- The fields of an accepted list, and how their payload comes about. -/
structure Accepted (fields : List CanonicalField) (payload : Bytes) : Prop where
  fields_ok : ∀ field ∈ fields, FieldOk field
  keys : (fields.map (·.key)).Nodup
  together : check_fields (findField fields) = .ok ()
  payload_eq : payload = payloadBytes (orderedFields (findField fields))
  short : payload.length ≤ kMaxPayloadLength

theorem build_canonical_payload_ok {fields : List CanonicalField} {payload : Bytes} :
    build_canonical_payload fields = .ok payload ↔ Accepted fields payload := by
  unfold build_canonical_payload
  rw [bind_eq_ok]
  constructor
  · rintro ⟨by_key, hinsert, h⟩
    obtain ⟨hok, hkeys, rfl⟩ := (insert_fields_ok (by simp)).mp hinsert
    obtain ⟨htogether, h⟩ := unit_bind_eq_ok.mp h
    dsimp only at h
    split at h
    · cases h
    · rename_i hshort
      obtain rfl := Except.ok.inj h
      exact ⟨hok, hkeys, htogether, rfl, Nat.le_of_not_lt hshort⟩
  · rintro ⟨hok, hkeys, htogether, rfl, hshort⟩
    refine ⟨fields, (insert_fields_ok (by simp)).mpr ⟨hok, hkeys, rfl⟩,
      unit_bind_eq_ok.mpr ⟨htogether, ?_⟩⟩
    rw [if_neg (Nat.not_lt.mpr hshort)]
    rfl

theorem FieldOk.allowed {field : CanonicalField} (h : FieldOk field) :
    field.key ∈ canonical_order ∧ field.value ≠ [] := by
  obtain ⟨hcheck, -⟩ := h
  unfold check_field at hcheck
  simp only [ite_error_eq_ok] at hcheck
  obtain ⟨-, -, hkey, hvalue, -⟩ := hcheck
  exact ⟨by simpa [is_allowed_key] using hkey, hvalue⟩

theorem mem_orderedFields {find : Bytes → Option Bytes} {key value : Bytes} :
    ⟨key, value⟩ ∈ orderedFields find ↔ key ∈ canonical_order ∧ find key = some value := by
  unfold orderedFields
  rw [List.mem_filterMap]
  constructor
  · rintro ⟨k, hk, h⟩
    obtain ⟨v, hv, he⟩ := Option.map_eq_some_iff.mp h
    obtain ⟨rfl, rfl⟩ := CanonicalField.mk.inj he
    exact ⟨hk, hv⟩
  · rintro ⟨hk, h⟩
    exact ⟨key, hk, by rw [h]; rfl⟩

/-- The payload holds the fields and nothing else. -/
theorem Accepted.mem_ordered {fields : List CanonicalField} {payload : Bytes}
    (h : Accepted fields payload) {field : CanonicalField} :
    field ∈ orderedFields (findField fields) ↔ field ∈ fields := by
  rw [mem_orderedFields, findField_eq_some h.keys]
  exact ⟨And.right, fun hmem => ⟨(h.fields_ok field hmem).allowed.1, hmem⟩⟩

/-- The order of the fields does not matter to the payload. -/
theorem build_canonical_payload_perm {fields fields' : List CanonicalField} {payload : Bytes}
    (hperm : fields.Perm fields') (h : build_canonical_payload fields = .ok payload) :
    build_canonical_payload fields' = .ok payload := by
  rw [build_canonical_payload_ok] at h ⊢
  have hfind := findField_perm hperm h.keys
  exact
    { fields_ok := fun field hmem => h.fields_ok field (hperm.mem_iff.mpr hmem)
      keys := (hperm.map (·.key)).nodup_iff.mp h.keys
      together := hfind ▸ h.together
      payload_eq := hfind ▸ h.payload_eq
      short := h.short }

/-- Two lists of fields with the same payload are the same but for their order. -/
theorem build_canonical_payload_injective {fields fields' : List CanonicalField} {payload : Bytes}
    (h : build_canonical_payload fields = .ok payload)
    (h' : build_canonical_payload fields' = .ok payload) : fields.Perm fields' := by
  rw [build_canonical_payload_ok] at h h'
  have hordered := payloadBytes_injective (h.payload_eq.symm.trans h'.payload_eq)
  refine (List.perm_ext_iff_of_nodup h.keys.of_map h'.keys.of_map).mpr fun field => ?_
  rw [← h.mem_ordered, hordered, h'.mem_ordered]

end Licensecc.V201
