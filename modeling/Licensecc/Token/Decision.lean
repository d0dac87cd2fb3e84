-- The decision on a config token. It is ALLOW on one return only, after the
-- token, the least sequence and the floor of the callbacks. No run of calls lets
-- the sequence of one floor record go down.
import Licensecc.Conc.Machine
import Licensecc.Token.Canonical

open Licensecc.Codec Licensecc.Protocol

namespace Licensecc.Token

/-! ## Events and licenses -/

inductive LCC_EVENT_TYPE where
  | LICENSE_OK
  | LICENSE_FILE_NOT_FOUND
  | ENVIRONMENT_VARIABLE_NOT_DEFINED
  | FILE_FORMAT_NOT_RECOGNIZED
  | LICENSE_MALFORMED
  | PRODUCT_NOT_LICENSED
  | PRODUCT_EXPIRED
  | LICENSE_CORRUPTED
  | IDENTIFIERS_MISMATCH
  | LICENSE_TAMPER_DETECTED
  | LICENSE_CONFIG_TOKEN_INVALID
  | LICENSE_CONFIG_BINDING_MISMATCH
  | LICENSE_CONFIG_HASH_MISMATCH
  | LICENSE_CONFIG_EXPIRED
  | LICENSE_CONFIG_ROLLBACK
  | LICENSE_CUSTOM_LIMIT_DENIED
  | LICENSE_CUSTOM_LIMIT_EVALUATION_FAILED
  | LICENSE_SPECIFIED
  | LICENSE_FOUND
  | PRODUCT_FOUND
  | SIGNATURE_VERIFIED
  deriving DecidableEq, Repr

inductive LCC_SEVERITY where
  | SVRT_INFO
  | SVRT_WARN
  | SVRT_ERROR
  deriving DecidableEq, Repr

structure AuditEvent where
  severity : LCC_SEVERITY
  event_type : LCC_EVENT_TYPE
  license_reference : Bytes
  param2 : Bytes

structure LicenseInfo where
  status : List AuditEvent
  expiry_date : Bytes
  days_left : Nat
  has_expiry : Bool
  linked_to_pc : Bool
  proprietary_data : Bytes
  license_version : Int

/-- `LicenseInfo{}` -/
def LicenseInfo.zero : LicenseInfo := ⟨[], [], 0, false, false, [], 0⟩

/-- The text up to its NUL byte. -/
def c_str (s : Bytes) : Bytes := s.takeWhile (· ≠ 0)

def mstrlcpy (size : Nat) (src : Bytes) : Bytes := (c_str src).take (size - 1)

def LCC_API_PATH_SIZE : Nat := 1024

def LCC_API_AUDIT_EVENT_PARAM2 : Nat := 255

def LCC_API_AUDIT_EVENT_NUM : Nat := 5

/-- `addEventWithSeverity` with an error. -/
def addErrorEvent (er : List AuditEvent) (event : LCC_EVENT_TYPE) (source info : Bytes) :
    List AuditEvent :=
  er ++ [⟨.SVRT_ERROR, event, mstrlcpy LCC_API_PATH_SIZE source,
    mstrlcpy (LCC_API_AUDIT_EVENT_PARAM2 + 1) info⟩]

/-- Only the last events of the registry are given to the caller. -/
def export_license_status (er : List AuditEvent) (license_out : Option LicenseInfo) :
    Option LicenseInfo :=
  license_out.map fun info =>
    { info with status := er.drop (er.length - LCC_API_AUDIT_EVENT_NUM) }

/-! ## Floor records and decisions -/

def LCC_CONFIG_INPUT_VERSION : Nat := 1

def LCC_CONFIG_VERIFY_OPTIONS_VERSION : Nat := 1

def LCC_CONFIG_DECISION_VERSION : Nat := 2

def LCC_API_ONLINE_PROJECT_SIZE : Nat := 127

def LCC_API_FEATURE_NAME_SIZE : Nat := 15

def LCC_API_ONLINE_LICENSE_FINGERPRINT_SIZE : Nat := 64

def LCC_API_ONLINE_DEVICE_HASH_SIZE : Nat := 64

def LCC_API_CONFIG_ID_SIZE : Nat := 64

/-- The sizes of the structures on a platform of 64 bits. -/
def sizeofLccConfigInput : Nat := 104

def sizeofLccConfigVerifyOptions : Nat := 72

structure LccConfigSeqFloorRecord where
  project : Bytes
  feature : Bytes
  license_fingerprint : Bytes
  config_id : Bytes
  config_seq : UInt64

def lcc_init_config_seq_floor_record : LccConfigSeqFloorRecord := ⟨[], [], [], [], 0⟩

inductive LCC_LICENSE_DECISION where
  | DENY
  | ALLOW
  deriving DecidableEq, Repr

structure LccConfigDecision where
  decision : LCC_LICENSE_DECISION
  event_type : LCC_EVENT_TYPE
  config_id : Bytes
  config_seq : UInt64
  bound_to_license : Bool
  bound_to_device : Bool
  config_seq_floor_loaded : Bool
  config_seq_floor_stored : Bool
  config_seq_floor : LccConfigSeqFloorRecord

def lcc_init_config_decision : LccConfigDecision :=
  ⟨.DENY, .LICENSE_OK, [], 0, false, false, false, false, lcc_init_config_seq_floor_record⟩

/-- How a callback of the host ends. -/
inductive Callback (α : Type) where
  | returned (value : α)
  | failed
  | threw (what : Option Bytes)

structure LccConfigInput where
  size : Nat
  version : Nat
  token : Option Bytes
  config_bytes : Option Bytes
  device_hash : Bytes

structure LccConfigVerifyOptions where
  size : Nat
  version : Nat
  now_override : UInt64
  min_config_seq : UInt64
  config_seq_floor_load : Option (LccConfigSeqFloorRecord → Callback UInt64)
  config_seq_floor_store : Option (LccConfigSeqFloorRecord → Callback Unit)
  reserved : Nat

def lcc_init_config_verify_options : LccConfigVerifyOptions :=
  ⟨sizeofLccConfigVerifyOptions, LCC_CONFIG_VERIFY_OPTIONS_VERSION, 0, 0, none, none, 0⟩

/-- The text is copied when it and its NUL byte fit. -/
def lcc_copy_public_string (out_size : Nat) (value : Bytes) : Option Bytes :=
  if out_size ≤ (c_str value).length then none else some (c_str value)

structure AcquiredLicenseContext where
  project : Bytes
  feature : Bytes
  license_fingerprint : Bytes

def config_seq_floor_record_build (context : AcquiredLicenseContext) (config_id : Bytes)
    (config_seq : UInt64) : Except String LccConfigSeqFloorRecord :=
  match lcc_copy_public_string (LCC_API_ONLINE_PROJECT_SIZE + 1) context.project with
  | none => .error "project exceeds config-seq floor record buffer"
  | some project =>
    match lcc_copy_public_string (LCC_API_FEATURE_NAME_SIZE + 1) context.feature with
    | none => .error "feature exceeds config-seq floor record buffer"
    | some feature =>
      match lcc_copy_public_string (LCC_API_ONLINE_LICENSE_FINGERPRINT_SIZE + 1)
          context.license_fingerprint with
      | none => .error "license fingerprint exceeds config-seq floor record buffer"
      | some license_fingerprint =>
        match lcc_copy_public_string (LCC_API_CONFIG_ID_SIZE + 1) config_id with
        | none => .error "config id exceeds config-seq floor record buffer"
        | some config_id => .ok ⟨project, feature, license_fingerprint, config_id, config_seq⟩

/-! ## The arguments -/

def is_public_hex_string (value : Bytes) : Bool :=
  value.all fun c => inRange '0' '9' c || inRange 'a' 'f' c || inRange 'A' 'F' c

/-- The token, the config bytes and the device hash of an input. -/
def validate_config_input (input : Option LccConfigInput) : Except String (Bytes × Bytes × Bytes) :=
  match input with
  | none => .error "invalid LccConfigInput size or version"
  | some input =>
    if input.size ≠ sizeofLccConfigInput ∨ input.version ≠ LCC_CONFIG_INPUT_VERSION then
      .error "invalid LccConfigInput size or version"
    else
      match input.token, input.config_bytes with
      | some token, some config_bytes =>
        let device_hash := c_str (input.device_hash.take (LCC_API_ONLINE_DEVICE_HASH_SIZE + 1))
        if device_hash.length = LCC_API_ONLINE_DEVICE_HASH_SIZE + 1 then
          .error "config device hash is not NUL-terminated"
        else if device_hash.length ≠ 0 ∧ (device_hash.length ≠ LCC_API_ONLINE_DEVICE_HASH_SIZE ∨
            ¬ is_public_hex_string device_hash) then
          .error "config device hash must be 64 hex characters or empty"
        else .ok (c_str token, config_bytes, device_hash)
      | _, _ => .error "config token and config bytes are required"

def normalize_config_verify_options (options : Option LccConfigVerifyOptions) :
    Except String LccConfigVerifyOptions :=
  match options with
  | none => .ok lcc_init_config_verify_options
  | some options =>
    if options.version ≠ LCC_CONFIG_VERIFY_OPTIONS_VERSION ∨
        options.size ≠ sizeofLccConfigVerifyOptions ∨ options.reserved ≠ 0 then
      .error "invalid LccConfigVerifyOptions size, version, or reserved fields"
    else if options.config_seq_floor_load.isNone ≠ options.config_seq_floor_store.isNone then
      .error "config-seq floor load and store callbacks must both be set or both be null"
    else .ok options

def call_config_seq_floor_load (options : LccConfigVerifyOptions) (key : LccConfigSeqFloorRecord) :
    Except Bytes UInt64 :=
  match options.config_seq_floor_load with
  | none => .error (bytesOf "config-seq floor load callback is not configured".toList)
  | some load =>
    match load key with
    | .returned loaded => .ok loaded
    | .failed => .error (bytesOf "config-seq floor load callback failed".toList)
    | .threw (some what) => .error what
    | .threw none => .error (bytesOf "config-seq floor load callback threw".toList)

def call_config_seq_floor_store (options : LccConfigVerifyOptions)
    (record : LccConfigSeqFloorRecord) : Except Bytes Unit :=
  match options.config_seq_floor_store with
  | none => .error (bytesOf "config-seq floor store callback is not configured".toList)
  | some store =>
    match store record with
    | .returned () => .ok ()
    | .failed => .error (bytesOf "config-seq floor store callback failed".toList)
    | .threw (some what) => .error what
    | .threw none => .error (bytesOf "config-seq floor store callback threw".toList)

def config_event_for_failure : ConfigVerifyFailure → LCC_EVENT_TYPE
  | .Binding => .LICENSE_CONFIG_BINDING_MISMATCH
  | .HashMismatch => .LICENSE_CONFIG_HASH_MISMATCH
  | .Expired => .LICENSE_CONFIG_EXPIRED
  | .Rollback => .LICENSE_CONFIG_ROLLBACK
  | _ => .LICENSE_CONFIG_TOKEN_INVALID

/-! ## The verification -/

/-- What `acquire_license_internal` gives back. -/
structure Acquisition where
  result : LCC_EVENT_TYPE
  info : LicenseInfo
  context : AcquiredLicenseContext
  er : List AuditEvent

/-- Where an exception of the standard library may leave the verification. -/
inductive Point where
  | entry
  | acquired
  | exit

/-- The arguments of a call, and what the license and the library do in it. A
pointer is null or has a content. -/
structure Call where
  license_out : Option LicenseInfo
  input : Option LccConfigInput
  decision_out : Option LccConfigDecision
  options : Option LccConfigVerifyOptions
  acquired : Option Acquisition
  throws : Point → Bool

/-- A record that was given to the store callback, and whether it was stored. -/
structure StoreCall where
  record : LccConfigSeqFloorRecord
  ok : Bool

structure Outcome where
  result : LCC_EVENT_TYPE
  license_out : Option LicenseInfo
  decision_out : Option LccConfigDecision
  stored : Option StoreCall

/-- The end of every return that does not allow. -/
def deny (license_out : Option LicenseInfo) (decision_out : Option LccConfigDecision)
    (er : List AuditEvent) (stored : Option StoreCall) (result : LCC_EVENT_TYPE) : Outcome where
  result := result
  license_out := export_license_status er license_out
  decision_out := decision_out.map fun d => { d with event_type := result }
  stored := stored

inductive FloorCheck where
  | refused (result : LCC_EVENT_TYPE) (source : String) (detail : Bytes)
      (decision_out : Option LccConfigDecision) (stored : Option StoreCall)
  | accepted (decision_out : Option LccConfigDecision) (stored : Option StoreCall)

/-- The durable floor of the config id. -/
def config_seq_floor_check (normalized : LccConfigVerifyOptions) (context : AcquiredLicenseContext)
    (claims : ConfigAttestationClaims) (decision_out : Option LccConfigDecision) : FloorCheck :=
  if normalized.config_seq_floor_load.isNone then .accepted decision_out none
  else
    match config_seq_floor_record_build context claims.config_id 0 with
    | .error floor_error =>
      .refused .LICENSE_MALFORMED "ConfigSeqFloor" (bytesOf floor_error.toList) decision_out none
    | .ok floor_key =>
      match call_config_seq_floor_load normalized floor_key with
      | .error floor_detail =>
        .refused .LICENSE_CONFIG_ROLLBACK "ConfigSeqFloorLoad" floor_detail decision_out none
      | .ok stored_floor =>
        let decision_out := decision_out.map fun d =>
          { d with
            config_seq_floor_loaded := true
            config_seq_floor := { floor_key with config_seq := stored_floor } }
        if claims.config_seq < stored_floor then
          .refused .LICENSE_CONFIG_ROLLBACK "ConfigSeqFloor"
            (bytesOf "config-seq is below the persisted floor".toList) decision_out none
        else
          let new_floor := if stored_floor < claims.config_seq then claims.config_seq else stored_floor
          match config_seq_floor_record_build context claims.config_id new_floor with
          | .error floor_error =>
            .refused .LICENSE_MALFORMED "ConfigSeqFloor" (bytesOf floor_error.toList) decision_out none
          | .ok accepted_floor =>
            match call_config_seq_floor_store normalized accepted_floor with
            | .error floor_detail =>
              .refused .LICENSE_CONFIG_ROLLBACK "ConfigSeqFloorStore" floor_detail decision_out
                (some ⟨accepted_floor, false⟩)
            | .ok () =>
              .accepted (decision_out.map fun d =>
                { d with
                  config_seq_floor_stored := true
                  config_seq_floor := accepted_floor }) (some ⟨accepted_floor, true⟩)

section
variable (rsaVerify : Bytes → Bytes → Bytes → Bool) (env : Environment)

/-- The decision of a call that is allowed. -/
def allowDecision (claims : ConfigAttestationClaims) (device_hash : Bytes) (d : LccConfigDecision) :
    LccConfigDecision :=
  { d with
    decision := .ALLOW
    event_type := .LICENSE_OK
    config_id := (lcc_copy_public_string (LCC_API_CONFIG_ID_SIZE + 1) claims.config_id).getD []
    config_seq := claims.config_seq
    bound_to_license := true
    bound_to_device := device_hash ≠ [] }

/-- What the token is verified against. -/
def expectedOf (context : AcquiredLicenseContext) (config_bytes device_hash : Bytes)
    (normalized : LccConfigVerifyOptions) : ConfigAttestationExpected where
  project := context.project
  feature := context.feature
  license_fingerprint := context.license_fingerprint
  device_hash := device_hash
  config_bytes := config_bytes
  now_epoch_seconds := normalized.now_override
  min_config_seq := normalized.min_config_seq
  trusted_public_keys := []

/-- The arguments of a call, when they are well formed. -/
def checkedArguments (call : Call) :
    Except String ((Bytes × Bytes × Bytes) × LccConfigVerifyOptions) := do
  let input ← validate_config_input call.input
  let normalized ← normalize_config_verify_options call.options
  return (input, normalized)

/-- An exception leaves what the store callback was given before. -/
def lcc_verify_config_impl (call : Call) (require_floor : Bool) :
    Except (Option StoreCall) Outcome :=
  let license_out := call.license_out.map fun _ => LicenseInfo.zero
  let decision_out := call.decision_out.map fun _ => lcc_init_config_decision
  if call.throws .entry then .error none
  else
    match checkedArguments call with
    | .error error =>
      let er := addErrorEvent [] .LICENSE_MALFORMED (bytesOf "lcc_verify_config".toList)
        (bytesOf error.toList)
      .ok (deny license_out decision_out er none .LICENSE_MALFORMED)
    | .ok ((token, config_bytes, device_hash), normalized) =>
      if require_floor ∧ normalized.config_seq_floor_load.isNone then
        let er := addErrorEvent [] .LICENSE_MALFORMED (bytesOf "LccConfigVerifyOptions".toList)
          (bytesOf "config-seq floor load/store callbacks are required".toList)
        .ok (deny license_out decision_out er none .LICENSE_MALFORMED)
      else
        match call.acquired with
        | none => .error none
        | some ⟨result, info, context, er⟩ =>
          let license_out := license_out.map fun _ => info
          if result ≠ .LICENSE_OK then .ok (deny license_out decision_out er none result)
          else if call.throws .acquired then .error none
          else
            match verify_config_envelope rsaVerify env token
                (expectedOf context config_bytes device_hash normalized) with
            | .error (failure, verify_error) =>
              let result := config_event_for_failure failure
              let er := addErrorEvent er result (bytesOf "ConfigAttestation".toList)
                (bytesOf verify_error.toList)
              .ok (deny (license_out.map fun _ => LicenseInfo.zero) decision_out er none result)
            | .ok claims =>
              match config_seq_floor_check normalized context claims decision_out with
              | .refused result source detail decision_out stored =>
                if call.throws .exit then .error stored
                else
                  let er := addErrorEvent er result (bytesOf source.toList) detail
                  .ok (deny license_out decision_out er stored result)
              | .accepted decision_out stored =>
                if call.throws .exit then .error stored
                else .ok {
                  result := .LICENSE_OK
                  license_out := export_license_status er license_out
                  decision_out := decision_out.map (allowDecision claims device_hash)
                  stored := stored }

/-- `lcc_verify_config`, and `lcc_verify_config_decision` when the floor is required. -/
def lcc_verify_config (call : Call) (require_floor : Bool) : Outcome :=
  match lcc_verify_config_impl rsaVerify env call require_floor with
  | .ok outcome => outcome
  | .error stored => {
      result := .LICENSE_MALFORMED
      license_out := call.license_out.map fun _ => LicenseInfo.zero
      decision_out := call.decision_out.map fun _ => lcc_init_config_decision
      stored := stored }

/-! ## The floor -/

/-- What the floor callbacks keep apart. -/
def LccConfigSeqFloorRecord.key (r : LccConfigSeqFloorRecord) : Bytes × Bytes × Bytes × Bytes :=
  (r.project, r.feature, r.license_fingerprint, r.config_id)

/-- The sequence of a record changes nothing else of it. -/
theorem record_build_eq (context : AcquiredLicenseContext) (config_id : Bytes) (m n : UInt64) :
    config_seq_floor_record_build context config_id n =
      (config_seq_floor_record_build context config_id m).map fun r =>
        { r with config_seq := n } := by
  unfold config_seq_floor_record_build
  cases lcc_copy_public_string (LCC_API_ONLINE_PROJECT_SIZE + 1) context.project with
  | none => rfl
  | some project =>
    cases lcc_copy_public_string (LCC_API_FEATURE_NAME_SIZE + 1) context.feature with
    | none => rfl
    | some feature =>
      cases lcc_copy_public_string (LCC_API_ONLINE_LICENSE_FINGERPRINT_SIZE + 1)
          context.license_fingerprint with
      | none => rfl
      | some license_fingerprint =>
        cases lcc_copy_public_string (LCC_API_CONFIG_ID_SIZE + 1) config_id with
        | none => rfl
        | some config_id => rfl

theorem record_build_seq {context : AcquiredLicenseContext} {config_id : Bytes} {n : UInt64}
    {r : LccConfigSeqFloorRecord} (h : config_seq_floor_record_build context config_id n = .ok r) :
    r.config_seq = n := by
  have heq := record_build_eq context config_id n n
  rw [h] at heq
  have := congrArg LccConfigSeqFloorRecord.config_seq (Except.ok.inj heq)
  exact this

/-- A record that is given to the store callback has the sequence of the claims, which
is no lower than the floor that was loaded for its key. -/
structure FloorRead (normalized : LccConfigVerifyOptions) (context : AcquiredLicenseContext)
    (claims : ConfigAttestationClaims) (record : LccConfigSeqFloorRecord) (floor : UInt64) :
    Prop where
  loaded : ∃ load key, normalized.config_seq_floor_load = some load ∧ load key = .returned floor ∧
    key.key = record.key
  floor_le : floor ≤ claims.config_seq
  built : config_seq_floor_record_build context claims.config_id claims.config_seq = .ok record

/-- What a check of the floor gives back. -/
inductive FloorCases (normalized : LccConfigVerifyOptions) (context : AcquiredLicenseContext)
    (claims : ConfigAttestationClaims) (decision_out : Option LccConfigDecision) :
    FloorCheck → Prop where
  | refused (result : LCC_EVENT_TYPE) (source : String) (detail : Bytes)
      (decision : Option LccConfigDecision) (stored : Option StoreCall)
      (hresult : result ≠ .LICENSE_OK)
      (hdecision : (∀ d ∈ decision_out, d.decision = .DENY) → ∀ d ∈ decision, d.decision = .DENY)
      (hstored : ∀ call ∈ stored, call.ok = false ∧
        ∃ floor, FloorRead normalized context claims call.record floor) :
      FloorCases normalized context claims decision_out
        (.refused result source detail decision stored)
  | floorless (hload : normalized.config_seq_floor_load = none) :
      FloorCases normalized context claims decision_out (.accepted decision_out none)
  | stored (record : LccConfigSeqFloorRecord) (floor : UInt64)
      (decision : Option LccConfigDecision)
      (hread : FloorRead normalized context claims record floor)
      (hstore : ∃ store, normalized.config_seq_floor_store = some store ∧
        store record = .returned ())
      (hdecision : ∀ d ∈ decision, d.config_seq_floor = record ∧ d.config_seq_floor_loaded = true ∧
        d.config_seq_floor_stored = true) :
      FloorCases normalized context claims decision_out (.accepted decision (some ⟨record, true⟩))

theorem call_load_ok {normalized : LccConfigVerifyOptions} {key : LccConfigSeqFloorRecord}
    {floor : UInt64} (h : call_config_seq_floor_load normalized key = .ok floor) :
    ∃ load, normalized.config_seq_floor_load = some load ∧ load key = .returned floor := by
  unfold call_config_seq_floor_load at h
  split at h
  · cases h
  rename_i load hload
  split at h
  · rename_i loaded heq
    obtain rfl := Except.ok.inj h
    exact ⟨load, hload, heq⟩
  · cases h
  · cases h
  · cases h

theorem call_store_ok {normalized : LccConfigVerifyOptions} {record : LccConfigSeqFloorRecord}
    (h : call_config_seq_floor_store normalized record = .ok ()) :
    ∃ store, normalized.config_seq_floor_store = some store ∧ store record = .returned () := by
  unfold call_config_seq_floor_store at h
  split at h
  · cases h
  rename_i store hstore
  split at h
  · rename_i heq
    exact ⟨store, hstore, heq⟩
  · cases h
  · cases h
  · cases h

theorem floor_cases (normalized : LccConfigVerifyOptions) (context : AcquiredLicenseContext)
    (claims : ConfigAttestationClaims) (decision_out : Option LccConfigDecision) :
    FloorCases normalized context claims decision_out
      (config_seq_floor_check normalized context claims decision_out) := by
  have hnone : ∀ call ∈ (none : Option StoreCall), call.ok = false ∧
      ∃ floor, FloorRead normalized context claims call.record floor := by
    intro call hcall
    cases hcall
  unfold config_seq_floor_check
  by_cases hload : normalized.config_seq_floor_load = none
  · rw [if_pos (by simp [hload])]
    exact .floorless hload
  rw [if_neg (by simpa using hload)]
  cases hkey : config_seq_floor_record_build context claims.config_id 0 with
  | error e => exact .refused _ _ _ _ _ (by decide) id hnone
  | ok key =>
    simp only
    cases hfloor : call_config_seq_floor_load normalized key with
    | error e => exact .refused _ _ _ _ _ (by decide) id hnone
    | ok floor =>
      have hloaded : ∀ d ∈ decision_out.map fun d : LccConfigDecision =>
          { d with
            config_seq_floor_loaded := true
            config_seq_floor := { key with config_seq := floor } },
          (∀ d ∈ decision_out, d.decision = .DENY) → d.decision = .DENY := by
        intro d hd hdeny
        obtain ⟨d', hd', rfl⟩ := Option.map_eq_some_iff.mp hd
        exact hdeny d' hd'
      simp only
      by_cases hlow : claims.config_seq < floor
      · rw [if_pos hlow]
        exact .refused _ _ _ _ _ (by decide) (fun hdeny d hd => hloaded d hd hdeny) hnone
      · rw [if_neg hlow]
        have hle : floor ≤ claims.config_seq := UInt64.not_lt.mp hlow
        have hnew : (if floor < claims.config_seq then claims.config_seq else floor) =
            claims.config_seq := by
          by_cases hlt : floor < claims.config_seq
          · rw [if_pos hlt]
          · rw [if_neg hlt]
            exact UInt64.le_antisymm hle (UInt64.not_lt.mp hlt)
        have hbuilt := record_build_eq context claims.config_id 0 claims.config_seq
        rw [hkey] at hbuilt
        rw [hnew, hbuilt]
        obtain ⟨load, hload', hreturned⟩ := call_load_ok hfloor
        have hread : FloorRead normalized context claims
            { key with config_seq := claims.config_seq } floor :=
          ⟨⟨load, key, hload', hreturned, rfl⟩, hle, hbuilt⟩
        simp only [Except.map]
        cases hstore : call_config_seq_floor_store normalized
            { key with config_seq := claims.config_seq } with
        | error e =>
          refine .refused _ _ _ _ _ (by decide) (fun hdeny d hd => hloaded d hd hdeny) ?_
          intro call hcall
          obtain rfl := Option.some.inj hcall
          exact ⟨rfl, floor, hread⟩
        | ok _ =>
          refine .stored _ floor _ hread (call_store_ok hstore) ?_
          intro d hd
          obtain ⟨d', hd', rfl⟩ := Option.map_eq_some_iff.mp hd
          obtain ⟨d, -, rfl⟩ := Option.map_eq_some_iff.mp hd'
          exact ⟨rfl, rfl, rfl⟩

/-! ## The returns -/

/-- The license that a call has acquired, with its arguments. -/
structure Licensed (call : Call) (token config_bytes device_hash : Bytes)
    (normalized : LccConfigVerifyOptions) (acquisition : Acquisition) : Prop where
  arguments : checkedArguments call = .ok ((token, config_bytes, device_hash), normalized)
  acquired : call.acquired = some acquisition
  ok : acquisition.result = .LICENSE_OK

def MalformedArguments (call : Call) : Prop := ∃ error, checkedArguments call = .error error

def FloorMissing (call : Call) (require_floor : Bool) : Prop :=
  require_floor = true ∧ ∃ input normalized, checkedArguments call = .ok (input, normalized) ∧
    normalized.config_seq_floor_load = none

def TokenFails (call : Call) : Prop :=
  ∃ token config_bytes device_hash normalized acquisition failure,
    Licensed call token config_bytes device_hash normalized acquisition ∧
    verify_config_envelope rsaVerify env token
      (expectedOf acquisition.context config_bytes device_hash normalized) = .error failure

def Throws (call : Call) (require_floor : Bool) : Prop :=
  ∃ stored, lcc_verify_config_impl rsaVerify env call require_floor = .error stored

/-- A record that a call gives to the store callback. -/
def Stores (call : Call) (record : LccConfigSeqFloorRecord) : Prop :=
  ∃ token config_bytes device_hash normalized acquisition claims floor,
    Licensed call token config_bytes device_hash normalized acquisition ∧
    FloorRead normalized acquisition.context claims record floor

/-- What a call that is allowed has passed. -/
structure Allowed (call : Call) (require_floor : Bool) (claims : ConfigAttestationClaims)
    (stored : Option StoreCall) (decision_out : Option LccConfigDecision) : Prop where
  passed : ∃ token config_bytes device_hash normalized acquisition,
    Licensed call token config_bytes device_hash normalized acquisition ∧
    verify_config_envelope rsaVerify env token
      (expectedOf acquisition.context config_bytes device_hash normalized) = .ok claims ∧
    normalized.min_config_seq ≤ claims.config_seq ∧
    ((normalized.config_seq_floor_load = none ∧ require_floor = false ∧ stored = none) ∨
      ∃ record floor, FloorRead normalized acquisition.context claims record floor ∧
        (∃ store, normalized.config_seq_floor_store = some store ∧
          store record = .returned ()) ∧ stored = some ⟨record, true⟩ ∧
        ∀ d ∈ decision_out, d.config_seq_floor = record)
  decision : ∀ d ∈ decision_out, d.decision = .ALLOW ∧ d.config_seq = claims.config_seq

/-- The returns of a call. -/
inductive Exit (call : Call) (require_floor : Bool) : Outcome → Prop where
  | threw (stored : Option StoreCall) (hstored : ∀ sc ∈ stored, Stores call sc.record) :
      Exit call require_floor {
        result := .LICENSE_MALFORMED
        license_out := call.license_out.map fun _ => LicenseInfo.zero
        decision_out := call.decision_out.map fun _ => lcc_init_config_decision
        stored := stored }
  | denied (license_out : Option LicenseInfo) (decision_out : Option LccConfigDecision)
      (er : List AuditEvent) (stored : Option StoreCall) (result : LCC_EVENT_TYPE)
      (hresult : result ≠ .LICENSE_OK) (hdecision : ∀ d ∈ decision_out, d.decision = .DENY)
      (hstored : ∀ sc ∈ stored, Stores call sc.record)
      (hlicense : MalformedArguments call ∨ FloorMissing call require_floor ∨
        TokenFails rsaVerify env call ∨ Throws rsaVerify env call require_floor →
        ∀ info ∈ license_out, info = LicenseInfo.zero) :
      Exit call require_floor (deny license_out decision_out er stored result)
  | allowed (claims : ConfigAttestationClaims) (license_out : Option LicenseInfo)
      (stored : Option StoreCall) (decision_out : Option LccConfigDecision)
      (hallowed : Allowed rsaVerify env call require_floor claims stored decision_out)
      (hlicense : ¬ (MalformedArguments call ∨ FloorMissing call require_floor ∨
        TokenFails rsaVerify env call ∨ Throws rsaVerify env call require_floor)) :
      Exit call require_floor ⟨.LICENSE_OK, license_out, decision_out, stored⟩

theorem denied_init (call : Call) :
    ∀ d ∈ call.decision_out.map fun _ => lcc_init_config_decision, d.decision = .DENY := by
  intro d hd
  obtain ⟨_, -, rfl⟩ := Option.map_eq_some_iff.mp hd
  rfl

theorem zero_map {α : Type} (x : Option α) :
    ∀ info ∈ x.map fun _ => LicenseInfo.zero, info = LicenseInfo.zero := by
  intro info hinfo
  obtain ⟨_, -, rfl⟩ := Option.map_eq_some_iff.mp hinfo
  rfl

/-- What is stored when the floor was checked and an exception ends the call. -/
theorem stores_of_throw {call : Call} {require_floor : Bool} {stored : Option StoreCall}
    (h : lcc_verify_config_impl rsaVerify env call require_floor = .error stored) :
    ∀ sc ∈ stored, Stores call sc.record := by
  unfold lcc_verify_config_impl at h
  simp only at h
  have hnone : ∀ {x : Option StoreCall}, (Except.error none : Except (Option StoreCall) Outcome) =
      .error x → ∀ sc ∈ x, Stores call sc.record := by
    intro x hx sc hsc
    obtain rfl := Except.error.inj hx
    cases hsc
  split at h
  · exact hnone h
  split at h
  · cases h
  rename_i token config_bytes device_hash normalized hargs
  split at h
  · cases h
  split at h
  · exact hnone h
  rename_i result info context er hacquired
  split at h
  · cases h
  rename_i hok
  split at h
  · exact hnone h
  split at h
  · cases h
  rename_i claims hclaims
  have hlicensed : Licensed call token config_bytes device_hash normalized
      ⟨result, info, context, er⟩ := ⟨hargs, hacquired, not_not.mp hok⟩
  have hcases := floor_cases normalized context claims
    (call.decision_out.map fun _ => lcc_init_config_decision)
  generalize config_seq_floor_check normalized context claims
    (call.decision_out.map fun _ => lcc_init_config_decision) = check at h hcases
  cases hcases with
  | refused result source detail decision stored' hresult hdecision hstored =>
    simp only at h
    split at h
    · obtain rfl := Except.error.inj h
      intro sc hsc
      obtain ⟨-, floor, hread⟩ := hstored sc hsc
      exact ⟨_, _, _, _, _, _, floor, hlicensed, hread⟩
    · cases h
  | floorless hload =>
    simp only at h
    split at h
    · exact hnone h
    · cases h
  | stored record floor decision hread hstore hdecision =>
    simp only at h
    split at h
    · obtain rfl := Except.error.inj h
      intro sc hsc
      obtain rfl := Option.some.inj hsc
      exact ⟨_, _, _, _, _, _, floor, hlicensed, hread⟩
    · cases h

omit rsaVerify env in
theorem Licensed.unique {call : Call} {t t' c c' d d' : Bytes} {n n' : LccConfigVerifyOptions}
    {a a' : Acquisition} (h : Licensed call t c d n a) (h' : Licensed call t' c' d' n' a') :
    (t = t' ∧ c = c' ∧ d = d' ∧ n = n') ∧ a = a' := by
  have hargs := h.arguments.symm.trans h'.arguments
  have hacquired := h.acquired.symm.trans h'.acquired
  simp only [Except.ok.injEq, Prod.mk.injEq] at hargs
  obtain ⟨⟨ht, hc, hd⟩, hn⟩ := hargs
  exact ⟨⟨ht, hc, hd, hn⟩, Option.some.inj hacquired⟩

/-- Every call ends in one of the returns. -/
theorem exit_of_call (call : Call) (require_floor : Bool) :
    Exit rsaVerify env call require_floor (lcc_verify_config rsaVerify env call require_floor) := by
  unfold lcc_verify_config
  cases hrun : lcc_verify_config_impl rsaVerify env call require_floor with
  | error stored => exact .threw stored (stores_of_throw rsaVerify env hrun)
  | ok outcome =>
    have hnone : ∀ sc ∈ (none : Option StoreCall), Stores call sc.record := by
      intro sc hsc
      cases hsc
    have hthrows : ¬ Throws rsaVerify env call require_floor := by
      rintro ⟨stored, h⟩
      rw [hrun] at h
      cases h
    have hdeny := denied_init call
    unfold lcc_verify_config_impl at hrun
    simp only at hrun ⊢
    split at hrun
    · cases hrun
    split at hrun
    · obtain rfl := Except.ok.inj hrun
      exact .denied _ _ _ _ _ (by decide) hdeny hnone fun _ => zero_map _
    rename_i token config_bytes device_hash normalized hargs
    have hwell : ¬ MalformedArguments call := by
      rintro ⟨error, h⟩
      rw [hargs] at h
      cases h
    split at hrun
    · obtain rfl := Except.ok.inj hrun
      exact .denied _ _ _ _ _ (by decide) hdeny hnone fun _ => zero_map _
    rename_i hfloor
    have hfloor' : ¬ FloorMissing call require_floor := by
      rintro ⟨hrequired, input, normalized', h, hload⟩
      rw [hargs] at h
      obtain ⟨-, rfl⟩ := Prod.mk.inj (Except.ok.inj h)
      exact hfloor ⟨hrequired, by simp [hload]⟩
    split at hrun
    · cases hrun
    rename_i result info context er hacquired
    split at hrun
    · rename_i hfailed
      obtain rfl := Except.ok.inj hrun
      refine .denied _ _ _ _ _ hfailed hdeny hnone ?_
      rintro (h | h | ⟨_, _, _, _, acquisition, _, h, -⟩ | h)
      · exact absurd h hwell
      · exact absurd h hfloor'
      · obtain rfl := Option.some.inj (hacquired.symm.trans h.acquired)
        exact absurd h.ok hfailed
      · exact absurd h hthrows
    rename_i hok
    have hlicensed : Licensed call token config_bytes device_hash normalized
        ⟨result, info, context, er⟩ := ⟨hargs, hacquired, not_not.mp hok⟩
    split at hrun
    · cases hrun
    split at hrun
    · obtain rfl := Except.ok.inj hrun
      refine .denied _ _ _ _ _ ?_ hdeny hnone fun _ => zero_map _
      rename_i failure _ _
      cases failure <;> decide
    rename_i claims hclaims
    have hclosed : ¬ (MalformedArguments call ∨ FloorMissing call require_floor ∨
        TokenFails rsaVerify env call ∨ Throws rsaVerify env call require_floor) := by
      rintro (h | h | ⟨_, _, _, _, _, _, h, hfails⟩ | h)
      · exact hwell h
      · exact hfloor' h
      · obtain ⟨⟨rfl, rfl, rfl, rfl⟩, rfl⟩ := h.unique hlicensed
        rw [hclaims] at hfails
        cases hfails
      · exact hthrows h
    have hmin : normalized.min_config_seq ≤ claims.config_seq := by
      obtain ⟨_, _, haccepted⟩ := (verify_config_envelope_ok rsaVerify).mp hclaims
      exact (validate_claims_ok.mp haccepted.valid).2.2.2.2.2.2.2
    have hcases := floor_cases normalized context claims
      (call.decision_out.map fun _ => lcc_init_config_decision)
    generalize config_seq_floor_check normalized context claims
      (call.decision_out.map fun _ => lcc_init_config_decision) = check at hrun hcases
    cases hcases with
    | refused result source detail decision stored hresult hdecision hstored =>
      simp only at hrun
      split at hrun
      · cases hrun
      · obtain rfl := Except.ok.inj hrun
        refine .denied _ _ _ _ _ hresult (hdecision hdeny) ?_ fun h => absurd h hclosed
        intro sc hsc
        obtain ⟨-, floor, hread⟩ := hstored sc hsc
        exact ⟨_, _, _, _, _, _, floor, hlicensed, hread⟩
    | floorless hload =>
      simp only at hrun
      split at hrun
      · cases hrun
      · obtain rfl := Except.ok.inj hrun
        refine .allowed claims _ _ _ ⟨⟨_, _, _, _, _, hlicensed, hclaims, hmin, .inl ⟨hload, ?_,
          rfl⟩⟩, ?_⟩ hclosed
        · by_contra hrequired
          exact hfloor ⟨by simpa using hrequired, by simp [hload]⟩
        · intro d hd
          obtain ⟨_, -, rfl⟩ := Option.map_eq_some_iff.mp hd
          exact ⟨rfl, rfl⟩
    | stored record floor decision hread hstore hdecision =>
      simp only at hrun
      split at hrun
      · cases hrun
      · obtain rfl := Except.ok.inj hrun
        refine .allowed claims _ _ _ ⟨⟨_, _, _, _, _, hlicensed, hclaims, hmin, .inr ⟨record, floor,
          hread, hstore, rfl, ?_⟩⟩, ?_⟩ hclosed
        · intro d hd
          obtain ⟨d', hd', rfl⟩ := Option.map_eq_some_iff.mp hd
          exact (hdecision d' hd').1
        · intro d hd
          obtain ⟨_, -, rfl⟩ := Option.map_eq_some_iff.mp hd
          exact ⟨rfl, rfl⟩

end

/-! ## Runs of calls -/

abbrev FloorKey := Bytes × Bytes × Bytes × Bytes

/-- A call of a run. A store callback that does not report success may have kept the
record. -/
structure Turn where
  env : Environment
  call : Call
  require_floor : Bool
  kept : Bool

/-- What the store of the host keeps, and the keys and sequences that were allowed, the
last one first. -/
structure FloorRun where
  floors : FloorKey → Option UInt64
  allowed : List (FloorKey × UInt64)

/-- The store of the host returns what was last stored. -/
def Faithful (t : Turn) (s : FloorRun) : Prop :=
  ∃ options load, t.call.options = some options ∧ options.config_seq_floor_load = some load ∧
    ∀ key floor kept, load key = .returned floor → s.floors key.key = some kept → floor = kept

/-- No sequence of a key is lower than one that was allowed for it before. -/
def NeverDecreases (allowed : List (FloorKey × UInt64)) : Prop :=
  allowed.Pairwise fun later earlier => later.1 = earlier.1 → earlier.2 ≤ later.2

/-- The store after a call of its callback. -/
def keepRecord (stored : Option StoreCall) (kept : Bool) (floors : FloorKey → Option UInt64) :
    FloorKey → Option UInt64 :=
  match stored with
  | some ⟨record, ok⟩ =>
    if ok ∨ kept then fun k => if k = record.key then some record.config_seq else floors k
    else floors
  | none => floors

/-- A store that is given no lower sequence only goes up. -/
theorem keepRecord_up {stored : Option StoreCall} {floors : FloorKey → Option UInt64}
    (h : ∀ sc ∈ stored, ∀ old, floors sc.record.key = some old → old ≤ sc.record.config_seq)
    (kept : Bool) {k : FloorKey} {old : UInt64} (hold : floors k = some old) :
    ∃ new, keepRecord stored kept floors k = some new ∧ old ≤ new := by
  unfold keepRecord
  cases stored with
  | none => exact ⟨old, hold, UInt64.le_refl _⟩
  | some sc =>
    obtain ⟨record, ok⟩ := sc
    by_cases hok : ok = true ∨ kept = true
    · by_cases hkey : k = record.key
      · refine ⟨record.config_seq, by simp [hok, hkey], h _ rfl old ?_⟩
        exact hkey ▸ hold
      · exact ⟨old, by simp [hok, hkey, hold], UInt64.le_refl _⟩
    · exact ⟨old, by simp [hok, hold], UInt64.le_refl _⟩

section
variable (rsaVerify : Bytes → Bytes → Bytes → Bool)

def turn (t : Turn) (s : FloorRun) : FloorRun :=
  let outcome := lcc_verify_config rsaVerify t.env t.call t.require_floor
  { floors := keepRecord outcome.stored t.kept s.floors
    allowed := match outcome.decision_out with
      | some d =>
        if d.decision = .ALLOW then (d.config_seq_floor.key, d.config_seq) :: s.allowed
        else s.allowed
      | none => s.allowed }

/-- The store keeps a floor for every key that was allowed. -/
structure FloorInv (s : FloorRun) : Prop where
  floor : ∀ p ∈ s.allowed, ∃ kept, s.floors p.1 = some kept ∧ p.2 ≤ kept
  ordered : NeverDecreases s.allowed

theorem normalized_eq {call : Call} {options normalized : LccConfigVerifyOptions}
    {input : Bytes × Bytes × Bytes} (h : checkedArguments call = .ok (input, normalized))
    (hoptions : call.options = some options) : normalized = options := by
  unfold checkedArguments at h
  obtain ⟨_, -, h⟩ := bind_eq_ok.mp h
  obtain ⟨normalized', hnormalize, heq⟩ := store_eq_ok.mp h
  obtain ⟨-, rfl⟩ := Prod.mk.inj heq
  rw [hoptions] at hnormalize
  unfold normalize_config_verify_options at hnormalize
  simp only [ite_error_eq_ok, Except.ok.injEq] at hnormalize
  exact hnormalize.2.2.symm

/-- A record that is stored is no lower than the floor that the store has kept. -/
theorem stores_above {t : Turn} {s : FloorRun} {record : LccConfigSeqFloorRecord} {kept : UInt64}
    (hfaithful : Faithful t s) (h : Stores t.call record) (hkept : s.floors record.key = some kept) :
    kept ≤ record.config_seq := by
  obtain ⟨_, _, _, normalized, _, claims, floor, hlicensed, hread⟩ := h
  obtain ⟨options, load, hoptions, hload, hstore⟩ := hfaithful
  obtain rfl := normalized_eq hlicensed.arguments hoptions
  obtain ⟨load', key, hload', hreturned, hkey⟩ := hread.loaded
  obtain rfl := Option.some.inj (hload.symm.trans hload')
  rw [← hkey] at hkept
  obtain rfl := hstore key floor kept hreturned hkept
  rw [record_build_seq hread.built]
  exact hread.floor_le

theorem stores_of_call (env : Environment) (call : Call) (require_floor : Bool) :
    ∀ sc ∈ (lcc_verify_config rsaVerify env call require_floor).stored, Stores call sc.record := by
  intro sc hsc
  have hexit := exit_of_call rsaVerify env call require_floor
  generalize lcc_verify_config rsaVerify env call require_floor = outcome at hsc hexit
  cases hexit with
  | threw stored hstored => exact hstored sc hsc
  | denied _ _ _ stored _ _ _ hstored _ => exact hstored sc hsc
  | allowed claims _ stored _ hallowed _ =>
    obtain ⟨_, _, _, _, _, hlicensed, -, -, ⟨-, -, hnone⟩ | ⟨record, floor, hread, -, hsome, -⟩⟩ :=
      hallowed.passed
    · simp only at hsc
      rw [hnone] at hsc
      cases hsc
    · simp only at hsc
      rw [hsome] at hsc
      obtain rfl := Option.some.inj hsc
      exact ⟨_, _, _, _, _, _, floor, hlicensed, hread⟩

/-- The decision is ALLOW on one return only. -/
theorem allowed_of_decision {env : Environment} {call : Call} {require_floor : Bool}
    {d : LccConfigDecision}
    (hd : (lcc_verify_config rsaVerify env call require_floor).decision_out = some d) :
    (d.decision = .ALLOW ↔
      (lcc_verify_config rsaVerify env call require_floor).result = .LICENSE_OK) ∧
    (d.decision = .ALLOW → ∃ claims, Allowed rsaVerify env call require_floor claims
      (lcc_verify_config rsaVerify env call require_floor).stored (some d)) := by
  have hexit := exit_of_call rsaVerify env call require_floor
  generalize lcc_verify_config rsaVerify env call require_floor = outcome at hd hexit
  cases hexit with
  | threw stored _ =>
    obtain ⟨_, -, rfl⟩ := Option.map_eq_some_iff.mp hd
    constructor
    · constructor
      · intro h
        cases h
      · intro h
        cases h
    · intro h
      cases h
  | denied _ decision_out _ _ result hresult hdecision _ _ =>
    obtain ⟨d', hd', rfl⟩ := Option.map_eq_some_iff.mp hd
    have hdeny : d'.decision = .DENY := hdecision d' hd'
    constructor
    · constructor
      · intro h
        simp only [hdeny] at h
        cases h
      · intro h
        exact absurd h hresult
    · intro h
      simp only [hdeny] at h
      cases h
  | allowed claims _ stored decision_out hallowed _ =>
    simp only at hd
    subst hd
    refine ⟨⟨fun _ => rfl, fun _ => (hallowed.decision d rfl).1⟩, fun _ => ⟨claims, hallowed⟩⟩

/-- A call keeps the invariant. -/
theorem floorInv_turn (t : Turn) (s : FloorRun) (hfaithful : Faithful t s) (h : FloorInv s) :
    FloorInv (turn rsaVerify t s) := by
  have hstores := stores_of_call rsaVerify t.env t.call t.require_floor
  -- The floors only go up.
  have hup : ∀ k kept, s.floors k = some kept →
      ∃ kept', (turn rsaVerify t s).floors k = some kept' ∧ kept ≤ kept' := by
    intro k kept hkept
    refine keepRecord_up ?_ t.kept hkept
    intro sc hsc old hold
    exact stores_above hfaithful (hstores sc hsc) hold
  have hold : ∀ p ∈ s.allowed,
      ∃ kept, (turn rsaVerify t s).floors p.1 = some kept ∧ p.2 ≤ kept := by
    intro p hp
    obtain ⟨kept, hkept, hle⟩ := h.floor p hp
    obtain ⟨kept', hkept', hle'⟩ := hup _ _ hkept
    exact ⟨kept', hkept', UInt64.le_trans hle hle'⟩
  have hsame : (turn rsaVerify t s).allowed = s.allowed → FloorInv (turn rsaVerify t s) := by
    intro heq
    exact ⟨heq ▸ hold, heq ▸ h.ordered⟩
  cases hdecision : (lcc_verify_config rsaVerify t.env t.call t.require_floor).decision_out with
  | none => exact hsame (by simp [turn, hdecision])
  | some d =>
    by_cases hallow : d.decision = .ALLOW
    · obtain ⟨claims, hallowed⟩ := (allowed_of_decision rsaVerify hdecision).2 hallow
      obtain ⟨options, load, hoptions, hload, hstore⟩ := id hfaithful
      obtain ⟨_, _, _, normalized, _, hlicensed, -, -, hfloor⟩ := hallowed.passed
      obtain rfl := normalized_eq hlicensed.arguments hoptions
      rcases hfloor with ⟨hnone, -, -⟩ | ⟨record, floor, hread, -, hstored, hrecord⟩
      · rw [hload] at hnone
        cases hnone
      have hseq : d.config_seq = claims.config_seq := (hallowed.decision d rfl).2
      have hkey : d.config_seq_floor = record := hrecord d rfl
      have hnew : (turn rsaVerify t s).floors record.key = some claims.config_seq := by
        simp [turn, keepRecord, hstored, record_build_seq hread.built]
      have hcons : (turn rsaVerify t s).allowed =
          (record.key, claims.config_seq) :: s.allowed := by
        simp [turn, hdecision, hallow, hseq, hkey]
      refine ⟨?_, ?_⟩
      · rw [hcons]
        intro p hp
        rcases List.mem_cons.mp hp with rfl | hp
        · exact ⟨_, hnew, UInt64.le_refl _⟩
        · exact hold p hp
      · rw [hcons]
        refine List.Pairwise.cons ?_ h.ordered
        intro p hp hsamekey
        obtain ⟨kept, hkept, hle⟩ := hold p hp
        rw [← hsamekey, hnew] at hkept
        obtain rfl := Option.some.inj hkept
        exact hle
    · exact hsame (by simp [turn, hdecision, hallow])

theorem license_of_closed {env : Environment} {call : Call} {require_floor : Bool}
    (h : MalformedArguments call ∨ FloorMissing call require_floor ∨
      TokenFails rsaVerify env call ∨ Throws rsaVerify env call require_floor)
    {info : LicenseInfo}
    (hinfo : (lcc_verify_config rsaVerify env call require_floor).license_out = some info) :
    { info with status := [] } = LicenseInfo.zero := by
  have hexit := exit_of_call rsaVerify env call require_floor
  generalize lcc_verify_config rsaVerify env call require_floor = outcome at hinfo hexit
  cases hexit with
  | threw _ _ =>
    obtain ⟨_, -, rfl⟩ := Option.map_eq_some_iff.mp hinfo
    rfl
  | denied license_out _ _ _ _ _ _ _ hlicense =>
    obtain ⟨info', hinfo', rfl⟩ := Option.map_eq_some_iff.mp hinfo
    rw [hlicense h info' hinfo']
    rfl
  | allowed _ _ _ _ _ hclosed => exact absurd h hclosed

/-- A config is allowed after the token, the least sequence and the floor only, the
sequences of a floor record never go down, and every other return denies. -/
theorem config_verification_fails_closed :
    (∀ env call require_floor d,
      (lcc_verify_config rsaVerify env call require_floor).decision_out = some d →
      d.decision = .ALLOW → ∃ claims, Allowed rsaVerify env call require_floor claims
        (lcc_verify_config rsaVerify env call require_floor).stored (some d)) ∧
    (∀ floors turns, Conc.Machine.Meets (turn rsaVerify) Faithful ⟨floors, []⟩ turns →
      NeverDecreases (Conc.Machine.run (turn rsaVerify) ⟨floors, []⟩ turns).allowed) ∧
    (∀ env call require_floor d,
      (lcc_verify_config rsaVerify env call require_floor).decision_out = some d →
      (d.decision = .ALLOW ↔
        (lcc_verify_config rsaVerify env call require_floor).result = .LICENSE_OK)) ∧
    ∀ env call require_floor, MalformedArguments call ∨ FloorMissing call require_floor ∨
      TokenFails rsaVerify env call ∨ Throws rsaVerify env call require_floor →
      ∀ info, (lcc_verify_config rsaVerify env call require_floor).license_out = some info →
        { info with status := [] } = LicenseInfo.zero := by
  refine ⟨fun env call require_floor d hd => (allowed_of_decision rsaVerify hd).2, ?_,
    fun env call require_floor d hd => (allowed_of_decision rsaVerify hd).1,
    fun env call require_floor h info => license_of_closed rsaVerify h⟩
  intro floors turns hmeets
  refine (Conc.Machine.run_inv (floorInv_turn rsaVerify) hmeets ⟨?_, List.Pairwise.nil⟩).ordered
  intro p hp
  cases hp

end

/-! ## The golden token in a call -/

/-- A library whose key ring has the key of the golden token. -/
def goldenEnvironment : Environment :=
  { bareEnvironment with override := goldenExpected.trusted_public_keys }

/-- Options with callbacks that load a floor and store every record, or with none. -/
def goldenOptions (floor : Option UInt64) : LccConfigVerifyOptions :=
  { lcc_init_config_verify_options with
    now_override := 1500
    config_seq_floor_load := floor.map fun n _ => .returned n
    config_seq_floor_store := floor.map fun _ _ => .returned () }

def goldenAcquisition : Acquisition where
  result := .LICENSE_OK
  info := { LicenseInfo.zero with license_version := 201 }
  context := ⟨goldenClaims.project, goldenClaims.feature, goldenClaims.license_fingerprint⟩
  er := []

def goldenCall (floor : Option UInt64) : Call where
  license_out := some LicenseInfo.zero
  input := some ⟨sizeofLccConfigInput, LCC_CONFIG_INPUT_VERSION, some goldenToken,
    some goldenConfig, List.replicate 65 0⟩
  decision_out := some lcc_init_config_decision
  options := some (goldenOptions floor)
  acquired := some goldenAcquisition
  throws := fun _ => false

theorem verify_config_envelope_congr {rsaVerify : Bytes → Bytes → Bytes → Bool}
    {env env' : Environment} {expected expected' : ConfigAttestationExpected}
    (hpolicy : config_signature_policy env expected = config_signature_policy env' expected')
    (hvalid : ∀ claims, validate_claims env claims expected = validate_claims env' claims expected')
    (token : Bytes) : verify_config_envelope rsaVerify env token expected =
      verify_config_envelope rsaVerify env' token expected' := by
  unfold verify_config_envelope
  simp only [hpolicy, hvalid]

theorem golden_verifies_in_call (floor : Option UInt64) :
    verify_config_envelope (fun _ _ _ => true) goldenEnvironment goldenToken
      (expectedOf goldenAcquisition.context goldenConfig [] (goldenOptions floor)) =
        .ok goldenClaims := by
  refine Eq.trans (verify_config_envelope_congr ?_ ?_ _) golden_token_verifies
  · rfl
  · intro claims
    rfl

theorem golden_token_text : c_str goldenToken = goldenToken := by
  decide +kernel

theorem golden_arguments (floor : Option UInt64) : checkedArguments (goldenCall floor) =
    .ok ((goldenToken, goldenConfig, []), goldenOptions floor) := by
  have hinput : validate_config_input (goldenCall floor).input =
      .ok (c_str goldenToken, goldenConfig, []) := rfl
  have hoptions : normalize_config_verify_options (goldenCall floor).options =
      .ok (goldenOptions floor) := by
    cases floor <;> rfl
  unfold checkedArguments
  rw [hinput, hoptions, golden_token_text]
  rfl

/-- A call whose arguments, license, token and floor are in order. -/
theorem lcc_verify_config_allows {rsaVerify : Bytes → Bytes → Bytes → Bool} {env : Environment}
    {call : Call} {require_floor : Bool} {token config_bytes device_hash : Bytes}
    {normalized : LccConfigVerifyOptions} {info : LicenseInfo} {context : AcquiredLicenseContext}
    {er : List AuditEvent} {claims : ConfigAttestationClaims} {decision : Option LccConfigDecision}
    {stored : Option StoreCall}
    (harguments : checkedArguments call = .ok ((token, config_bytes, device_hash), normalized))
    (hrequired : ¬ (require_floor = true ∧ normalized.config_seq_floor_load.isNone = true))
    (hacquired : call.acquired = some ⟨.LICENSE_OK, info, context, er⟩)
    (hthrows : ∀ point, call.throws point = false)
    (hverify : verify_config_envelope rsaVerify env token
      (expectedOf context config_bytes device_hash normalized) = .ok claims)
    (hcheck : config_seq_floor_check normalized context claims
      (call.decision_out.map fun _ => lcc_init_config_decision) = .accepted decision stored) :
    lcc_verify_config rsaVerify env call require_floor =
      ⟨.LICENSE_OK,
        export_license_status er ((call.license_out.map fun _ => LicenseInfo.zero).map fun _ => info),
        decision.map (allowDecision claims device_hash), stored⟩ := by
  unfold lcc_verify_config lcc_verify_config_impl
  simp only [hthrows, harguments, if_neg hrequired, hacquired, Bool.false_eq_true, if_false, ne_eq,
    not_true_eq_false]
  simp only [hverify, hcheck]

theorem golden_call (floor : Option UInt64) (require_floor : Bool)
    (hfloor : require_floor = true → floor.isSome = true) {decision : Option LccConfigDecision}
    {stored : Option StoreCall}
    (hcheck : config_seq_floor_check (goldenOptions floor) goldenAcquisition.context goldenClaims
      (some lcc_init_config_decision) = .accepted decision stored) :
    lcc_verify_config (fun _ _ _ => true) goldenEnvironment (goldenCall floor) require_floor =
      ⟨.LICENSE_OK, some goldenAcquisition.info,
        decision.map (allowDecision goldenClaims []), stored⟩ := by
  have hrequired : ¬ (require_floor = true ∧
      (goldenOptions floor).config_seq_floor_load.isNone = true) := by
    rintro ⟨hrequire, hload⟩
    have hsome := hfloor hrequire
    cases floor with
    | none => cases hsome
    | some n => cases hload
  exact lcc_verify_config_allows (golden_arguments floor) hrequired rfl (fun _ => rfl)
    (golden_verifies_in_call floor) hcheck

/-- The record that the golden call stores. -/
def goldenRecord : LccConfigSeqFloorRecord :=
  ⟨goldenClaims.project, goldenClaims.feature, goldenClaims.license_fingerprint,
    goldenClaims.config_id, 9⟩

def goldenDecision : LccConfigDecision :=
  { lcc_init_config_decision with
    config_seq_floor_loaded := true
    config_seq_floor_stored := true
    config_seq_floor := goldenRecord }

theorem golden_floor_check {floor : UInt64} (h : floor = 0 ∨ floor = 9) :
    config_seq_floor_check (goldenOptions (some floor)) goldenAcquisition.context goldenClaims
      (some lcc_init_config_decision) =
        .accepted (some goldenDecision) (some ⟨goldenRecord, true⟩) := by
  rcases h with rfl | rfl <;> rfl

def goldenTurn (floor : UInt64) : Turn :=
  ⟨goldenEnvironment, goldenCall (some floor), true, false⟩

/-- The first turn keeps its record. -/
theorem golden_turn_floors : (turn (fun _ _ _ => true) (goldenTurn 0) ⟨fun _ => none, []⟩).floors =
    keepRecord (some ⟨goldenRecord, true⟩) false fun _ => none := by
  unfold turn goldenTurn
  dsimp only
  rw [golden_call (some 0) true (fun _ => rfl) (golden_floor_check (.inl rfl))]

theorem golden_meets : Conc.Machine.Meets (turn fun _ _ _ => true) Faithful
    ⟨fun _ => none, []⟩ [goldenTurn 0, goldenTurn 9] := by
  refine ⟨⟨_, _, rfl, rfl, ?_⟩, ⟨_, _, rfl, rfl, ?_⟩, trivial⟩
  · intro key floor kept hload hkept
    cases hkept
  · intro key floor kept hload hkept
    obtain rfl := Callback.returned.inj hload
    rw [golden_turn_floors] at hkept
    simp only [keepRecord, true_or, if_true] at hkept
    split at hkept
    · exact Option.some.inj hkept
    · cases hkept

theorem the_golden_config_is_allowed :
    (∃ claims, Allowed (fun _ _ _ => true) goldenEnvironment (goldenCall (some 0)) true claims
      (some ⟨goldenRecord, true⟩) (some (allowDecision goldenClaims [] goldenDecision))) ∧
    NeverDecreases (Conc.Machine.run (turn fun _ _ _ => true) ⟨fun _ => none, []⟩
      [goldenTurn 0, goldenTurn 9]).allowed ∧
    ((allowDecision goldenClaims [] goldenDecision).decision = .ALLOW ↔
      LCC_EVENT_TYPE.LICENSE_OK = .LICENSE_OK) ∧
    ∀ info, (lcc_verify_config (fun _ _ _ => true) goldenEnvironment
      { goldenCall none with input := none } false).license_out = some info →
        { info with status := [] } = LicenseInfo.zero := by
  obtain ⟨hallowed, hruns, hreturns, hlicense⟩ := config_verification_fails_closed fun _ _ _ => true
  have hcall := golden_call (some 0) true (fun _ => rfl) (golden_floor_check (.inl rfl))
  have hone := hallowed goldenEnvironment (goldenCall (some 0)) true
  have hreturn := hreturns goldenEnvironment (goldenCall (some 0)) true
  rw [hcall] at hone hreturn
  exact ⟨hone _ rfl rfl, hruns _ _ golden_meets, hreturn _ rfl,
    hlicense goldenEnvironment { goldenCall none with input := none } false (.inl ⟨_, rfl⟩)⟩

/-- Without callbacks a config is allowed, and no floor is loaded or stored. -/
theorem config_is_allowed_without_a_floor : ¬ ∀ rsaVerify env call require_floor d,
    (lcc_verify_config rsaVerify env call require_floor).decision_out = some d →
      d.decision = .ALLOW → d.config_seq_floor_loaded = true ∧ d.config_seq_floor_stored = true := by
  intro h
  have hcall := golden_call none false (fun hrequire => by cases hrequire)
    (show config_seq_floor_check _ _ _ _ = .accepted (some lcc_init_config_decision) none from rfl)
  have hone := h (fun _ _ _ => true) goldenEnvironment (goldenCall none) false
  rw [hcall] at hone
  cases (hone _ rfl rfl).1

end Licensecc.Token
