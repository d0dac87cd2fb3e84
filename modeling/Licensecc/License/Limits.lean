-- The verifier of v201 licenses: the signature over the payload that is rebuilt
-- from the limits, and the checks of these limits. Each limit that the checks
-- ask for was signed, with the same value.
import Licensecc.License.HwIdentifier

open Licensecc.Codec Licensecc.V201 Licensecc.Token
open Licensecc.Protocol (byte inRange)

namespace Licensecc.License

/-- The map of the limits is the list of its entries. -/
structure FullLicenseInfo where
  source : Bytes
  m_project : Bytes
  license_signature : Bytes
  m_magic : Nat
  m_limits : List (Bytes × Bytes)

/-- `version` is an array of characters. -/
structure CallerInformations where
  version : Bytes

inductive LCC_CUSTOM_LIMIT_RESULT where
  | ALLOW
  | DENY
  | ERROR
  deriving DecidableEq, Repr

/-- What the build has fixed. -/
structure Build where
  LCC_PROJECT_NAME : Bytes
  LCC_PROJECT_MAGIC_NUM : Nat
  embedded_public_key_ring : List SignaturePublicKey
  embedded_retired_key_ids : List Bytes
  bindings : BindingPolicy

/-- What the host answers: its clock, its calendar, its hardware and its evaluator of
custom limits, where a call that throws has no result. -/
structure Host where
  time : Int
  mktime : Nat → Nat → Nat → Option Int
  alternative_ids : Nat → List HwIdentifier
  custom_limit_check : Option (Bytes → Option LCC_CUSTOM_LIMIT_RESULT)

/-! ## The signature -/

/-- `limit_value_or_empty` -/
def limit_value_or_empty (licInfo : FullLicenseInfo) (key : Bytes) : Bytes :=
  (licInfo.m_limits.lookup key).getD []

/-- What `add_v201_field` adds. -/
def v201_field (key value : Bytes) : List CanonicalField :=
  if value ≠ [] then [⟨key, value⟩] else []

def v201_fields_for (build : Build) (licInfo : FullLicenseInfo) : List CanonicalField :=
  let limit := fun key => v201_field key (limit_value_or_empty licInfo key)
  limit LICENSE_VERSION ++ limit LICENSE_CANONICAL_VERSION ++ limit LICENSE_SIGNATURE_VERSION ++
    limit LICENSE_SIGNATURE_ALGORITHM ++ limit LICENSE_KEY_ID ++
    v201_field (text "project") build.LCC_PROJECT_NAME ++
    v201_field (text "feature") (toupper_copy (trim_copy licInfo.m_project)) ++
    limit PARAM_BEGIN_DATE ++ limit PARAM_EXPIRY_DATE ++ limit PARAM_VERSION_FROM ++
    limit PARAM_VERSION_TO ++ limit PARAM_CUSTOM_LIMIT ++ limit PARAM_CLIENT_SIGNATURE ++
    limit PARAM_CLIENT_SIGNATURE_SOURCE_STRENGTH ++ limit PARAM_EXTRA_DATA

def current_v201_signature_policy (build : Build) : SignatureVerificationPolicy where
  license_version := 201
  allowed_algorithms := [LCC_SIGNATURE_ALGORITHM_RSA_PKCS1_SHA256]
  allowed_key_ids := build.embedded_public_key_ring.map (·.key_id)
  retired_key_ids := build.embedded_retired_key_ids
  public_keys := build.embedded_public_key_ring
  allow_external_public_key_der := false
  min_public_key_bits := 3072

def signature_request (build : Build) (licInfo : FullLicenseInfo) (payload : Bytes) :
    SignatureVerificationRequest where
  payload := payload
  signature := unbase64 licInfo.license_signature
  public_key_der := []
  declared_algorithm := limit_value_or_empty licInfo LICENSE_SIGNATURE_ALGORITHM
  key_id := limit_value_or_empty licInfo LICENSE_KEY_ID
  license_version := 201
  policy := current_v201_signature_policy build

/-! ## Journals -/

/-- The events that are no warnings. -/
def progressEvents : List LCC_EVENT_TYPE :=
  [.LICENSE_SPECIFIED, .LICENSE_FOUND, .PRODUCT_FOUND, .SIGNATURE_VERIFIED, .LICENSE_OK]

/-- The keys that a check has looked up, and the log of the events. -/
structure Journal where
  consulted : List Bytes
  logs : List AuditEvent

abbrev Check (α : Type) := StateM Journal α

def addEvent (event : LCC_EVENT_TYPE) (licenseLocationId info : Bytes) : Check Unit := fun j =>
  ((), { j with logs := j.logs ++ [⟨if event ∈ progressEvents then .SVRT_INFO else .SVRT_WARN,
    event, mstrlcpy LCC_API_PATH_SIZE licenseLocationId,
    mstrlcpy (LCC_API_AUDIT_EVENT_PARAM2 + 1) info⟩] })

/-- `m_limits.find(key)` -/
def findLimit (licInfo : FullLicenseInfo) (key : Bytes) : Check (Option Bytes) := fun j =>
  (licInfo.m_limits.lookup key, { j with consulted := j.consulted ++ [key] })

/-- An event, and the license is not valid. -/
def refuse (licInfo : FullLicenseInfo) (event : LCC_EVENT_TYPE) (info : Bytes) : Check Bool := do
  addEvent event licInfo.source info
  return false

section
variable (rsaVerify : Bytes → Bytes → Bytes → Bool)

/-- `LicenseVerifier::verify_signature` -/
def verify_signature (build : Build) (licInfo : FullLicenseInfo) : Check Bool :=
  match build_canonical_payload (v201_fields_for build licInfo) with
  | .error error => refuse licInfo .LICENSE_MALFORMED error
  | .ok payload =>
    if Token.verify_signature rsaVerify (signature_request build licInfo payload) then do
      addEvent .SIGNATURE_VERIFIED licInfo.source []
      return true
    else refuse licInfo .LICENSE_CORRUPTED []

end

/-! ## The limits -/

def seconds_from_epoch (host : Host) (timeString : Bytes) : Option Int :=
  (parse_date timeString).bind fun (year, month, day) => host.mktime year month day

def check_magic (build : Build) (lic_info : FullLicenseInfo) : Check Bool :=
  if lic_info.m_magic = build.LCC_PROJECT_MAGIC_NUM then return true
  else refuse lic_info .LICENSE_CORRUPTED []

def check_expiry (host : Host) (lic_info : FullLicenseInfo) (is_valid : Bool) : Check Bool := do
  match ← findLimit lic_info PARAM_EXPIRY_DATE with
  | none => return is_valid
  | some expiry =>
    if is_valid then
      match seconds_from_epoch host expiry with
      | none => refuse lic_info .LICENSE_MALFORMED (text "Invalid valid-to " ++ expiry)
      | some seconds =>
        if seconds < host.time then refuse lic_info .PRODUCT_EXPIRED (text "Expired " ++ expiry)
        else return true
    else return false

def check_start_date (host : Host) (lic_info : FullLicenseInfo) (is_valid : Bool) :
    Check Bool := do
  match ← findLimit lic_info PARAM_BEGIN_DATE with
  | none => return is_valid
  | some start_date =>
    if is_valid then
      match seconds_from_epoch host start_date with
      | none => refuse lic_info .LICENSE_MALFORMED (text "Invalid valid-from " ++ start_date)
      | some seconds =>
        if host.time < seconds then
          refuse lic_info .PRODUCT_EXPIRED (text "Valid from " ++ start_date)
        else return true
    else return false

def has_version_limit (lic_info : FullLicenseInfo) : Check Bool := do
  match ← findLimit lic_info PARAM_VERSION_FROM with
  | some _ => return true
  | none => return (← findLimit lic_info PARAM_VERSION_TO).isSome

/-- The version of the caller, unless an event says what is wrong with it. -/
def callerVersion (lic_info : FullLicenseInfo) :
    Option CallerInformations → Check (Option (List Nat))
  | none => do
    addEvent .PRODUCT_NOT_LICENSED lic_info.source (text "Caller version not provided")
    return none
  | some callerInformation =>
    if 0 ∉ callerInformation.version then do
      addEvent .LICENSE_MALFORMED lic_info.source (text "Caller version is not NUL-terminated")
      return none
    else
      match parse_version (c_str callerInformation.version) with
      | none => do
        addEvent .PRODUCT_NOT_LICENSED lic_info.source (text "Caller version malformed")
        return none
      | some caller_version => return some caller_version

/-- A bound of the versions: the side on which the caller must not be, and its texts. -/
def check_version_bound (lic_info : FullLicenseInfo) (key : Bytes) (outside : Int → Bool)
    (invalid refused : String) (caller_version : Option (List Nat)) : Check Bool := do
  match ← findLimit lic_info key with
  | none => return caller_version.isSome
  | some value =>
    match caller_version with
    | none => return false
    | some caller_version =>
      match parse_version value with
      | none => refuse lic_info .LICENSE_MALFORMED (text invalid ++ value)
      | some bound =>
        if outside (compareComponents caller_version bound) then
          refuse lic_info .PRODUCT_NOT_LICENSED (text refused ++ value)
        else return true

def check_version (lic_info : FullLicenseInfo) (callerInformation : Option CallerInformations) :
    Check Bool := do
  let caller_version ← callerVersion lic_info callerInformation
  let is_valid ← check_version_bound lic_info PARAM_VERSION_FROM (· < 0)
    "Invalid start-version " "Version before " caller_version
  check_version_bound lic_info PARAM_VERSION_TO (0 < ·) "Invalid end-version " "Version after "
    (if is_valid then caller_version else none)

def check_versions (lic_info : FullLicenseInfo) (callerInformation : Option CallerInformations)
    (is_valid : Bool) : Check Bool := do
  if is_valid then
    if ← has_version_limit lic_info then check_version lic_info callerInformation else return true
  else return false

def is_v201_license (licInfo : FullLicenseInfo) : Check Bool := do
  return (← findLimit licInfo LICENSE_VERSION).getD [] = text "201"

/-- The metadata of a client signature are those of its identifier. -/
def check_source_strength (lic_info : FullLicenseInfo) (client_sig source_strength : Bytes) :
    Check Bool :=
  match HwIdentifier.parse client_sig >>= HwIdentifier.source_strength_metadata with
  | .error _ =>
    refuse lic_info .LICENSE_MALFORMED (text "client-signature is malformed or unsupported")
  | .ok expected =>
    if source_strength ≠ expected then
      refuse lic_info .LICENSE_MALFORMED
        (text "client-signature-source-strength does not match client-signature")
    else return true

def validate_v201_client_signature_source_strength (lic_info : FullLicenseInfo) : Check Bool := do
  if ← is_v201_license lic_info then
    match ← findLimit lic_info PARAM_CLIENT_SIGNATURE with
    | none =>
      if (← findLimit lic_info PARAM_CLIENT_SIGNATURE_SOURCE_STRENGTH).isSome then
        refuse lic_info .LICENSE_MALFORMED
          (text "client-signature-source-strength requires client-signature")
      else return true
    | some client_sig =>
      let source_strength := (← findLimit lic_info PARAM_CLIENT_SIGNATURE_SOURCE_STRENGTH).getD []
      if source_strength = [] then
        refuse lic_info .LICENSE_MALFORMED
          (text "client-signature-source-strength is required for v201 hardware binding")
      else check_source_strength lic_info client_sig source_strength
  else return true

/-- The event of the hardware, which is also logged when the license is valid. -/
def check_hardware (build : Build) (host : Host) (lic_info : FullLicenseInfo) (client_sig : Bytes) :
    Check Bool := do
  let event := validate_pc_signature build.bindings host.alternative_ids client_sig
  addEvent event lic_info.source []
  return event = .LICENSE_OK

def check_client_signature (build : Build) (host : Host) (lic_info : FullLicenseInfo)
    (is_valid : Bool) : Check Bool := do
  match ← findLimit lic_info PARAM_CLIENT_SIGNATURE with
  | none => return is_valid
  | some client_sig =>
    if is_valid then
      if ← validate_v201_client_signature_source_strength lic_info then
        check_hardware build host lic_info client_sig
      else return false
    else return false

def check_extra_data (lic_info : FullLicenseInfo) (is_valid : Bool) : Check Bool := do
  match ← findLimit lic_info PARAM_EXTRA_DATA with
  | none => return is_valid
  | some extra_data =>
    if is_valid then
      match validate_extra_data_value extra_data with
      | some error => refuse lic_info .LICENSE_MALFORMED (text error)
      | none => return true
    else return false

/-- What the evaluator of the host says of a policy. -/
def evaluateCustomLimit (host : Host) (lic_info : FullLicenseInfo) (policy : Bytes) : Check Bool :=
  match validate_custom_limit_value policy, host.custom_limit_check with
  | some error, _ => refuse lic_info .LICENSE_MALFORMED (text error)
  | none, none => refuse lic_info .LICENSE_CUSTOM_LIMIT_EVALUATION_FAILED
      (text "custom-limit evaluator is required")
  | none, some custom_limit_check =>
    match (custom_limit_check policy).getD .ERROR with
    | .DENY => refuse lic_info .LICENSE_CUSTOM_LIMIT_DENIED (text "custom execution limit denied")
    | .ERROR => refuse lic_info .LICENSE_CUSTOM_LIMIT_EVALUATION_FAILED
        (text "custom-limit evaluator failed")
    | .ALLOW => return true

def check_custom_limit (host : Host) (lic_info : FullLicenseInfo) (is_valid : Bool) :
    Check Bool := do
  match ← findLimit lic_info PARAM_CUSTOM_LIMIT with
  | none => return is_valid
  | some policy =>
    if is_valid then
      if ← is_v201_license lic_info then evaluateCustomLimit host lic_info policy
      else refuse lic_info .LICENSE_MALFORMED (text "custom-limit requires license format 201")
    else return false

def verify_limits (build : Build) (host : Host) (lic_info : FullLicenseInfo)
    (callerInformation : Option CallerInformations) : Check Bool :=
  check_magic build lic_info >>= check_expiry host lic_info >>= check_start_date host lic_info >>=
    check_versions lic_info callerInformation >>= check_client_signature build host lic_info >>=
    check_extra_data lic_info >>= check_custom_limit host lic_info

/-! ## What a check has looked up -/

/-- The limits that have a place in the payload. -/
def limitKeys : List Bytes := [LICENSE_VERSION, LICENSE_CANONICAL_VERSION,
  LICENSE_SIGNATURE_VERSION, LICENSE_SIGNATURE_ALGORITHM, LICENSE_KEY_ID, PARAM_BEGIN_DATE,
  PARAM_EXPIRY_DATE, PARAM_VERSION_FROM, PARAM_VERSION_TO, PARAM_CUSTOM_LIMIT,
  PARAM_CLIENT_SIGNATURE, PARAM_CLIENT_SIGNATURE_SOURCE_STRENGTH, PARAM_EXTRA_DATA]

/-- A key has a place in the payload, and where a value is found, it is not empty. The
version of the license is looked up without such a check: the payload requires it. -/
def Answered (licInfo : FullLicenseInfo) (key : Bytes) : Prop :=
  key ∈ limitKeys ∧ (key ≠ LICENSE_VERSION → licInfo.m_limits.lookup key ≠ some [])

/-- A check that says yes has looked up answered keys only. -/
def Vouches (licInfo : FullLicenseInfo) (c : Check Bool) : Prop :=
  ∀ j, (c j).1 = true → ∀ key ∈ (c j).2.consulted, key ∈ j.consulted ∨ Answered licInfo key

section
variable {build : Build} {host : Host} {licInfo : FullLicenseInfo}

theorem check_bind {α β : Type} (c : Check α) (f : α → Check β) (j : Journal) :
    (c >>= f) j = f (c j).1 (c j).2 := rfl

theorem refuse_false (event : LCC_EVENT_TYPE) (info : Bytes) (j : Journal) :
    (refuse licInfo event info j).1 = false := rfl

/-- A check that never says yes vouches for anything. -/
theorem vouches_of_false {c : Check Bool} (h : ∀ j, (c j).1 = false) : Vouches licInfo c :=
  fun j hyes => absurd hyes (by simp [h j])

theorem vouches_pure (b : Bool) : Vouches licInfo (pure b) :=
  fun _ _ _ hkey => Or.inl hkey

theorem vouches_addEvent {event : LCC_EVENT_TYPE} {source info : Bytes} {c : Check Bool}
    (h : Vouches licInfo c) : Vouches licInfo (do addEvent event source info; c) :=
  fun _ hyes key hkey => h _ hyes key hkey

/-- A stage that keeps a no vouches when it vouches after a yes. -/
theorem Vouches.andThen {c : Check Bool} {stage : Bool → Check Bool} (hc : Vouches licInfo c)
    (hno : ∀ j, (stage false j).1 = false) (hyes : Vouches licInfo (stage true)) :
    Vouches licInfo (c >>= stage) := by
  intro j hresult key hkey
  rw [check_bind] at hresult hkey
  cases hfirst : (c j).1 with
  | false =>
    rw [hfirst, hno] at hresult
    cases hresult
  | true =>
    rw [hfirst] at hresult hkey
    rcases hyes _ hresult key hkey with hkey | hanswered
    · exact hc j hfirst key hkey
    · exact Or.inr hanswered

/-- A lookup is vouched for when a value that is accepted is not empty. -/
theorem vouches_findLimit {key : Bytes} {c : Option Bytes → Check Bool}
    (hkey : key ∈ limitKeys)
    (hempty : key ≠ LICENSE_VERSION → ∀ j, (c (some []) j).1 = false)
    (hc : Vouches licInfo (c (licInfo.m_limits.lookup key))) :
    Vouches licInfo (findLimit licInfo key >>= c) := by
  intro j hresult k hk
  have hbind : (findLimit licInfo key >>= c) j = c (licInfo.m_limits.lookup key)
      { j with consulted := j.consulted ++ [key] } := rfl
  rw [hbind] at hresult hk
  rcases hc _ hresult k hk with hk | hanswered
  · rcases List.mem_append.mp hk with hk | hk
    · exact Or.inl hk
    · rw [List.mem_singleton] at hk
      subst hk
      refine Or.inr ⟨hkey, fun hversion hlookup => ?_⟩
      rw [hlookup, hempty hversion] at hresult
      cases hresult
  · exact Or.inr hanswered

/-- A value that a stage looks up: there is none, or it passes a check that refuses the
empty value. -/
theorem vouches_limit {key : Bytes} {c : Bytes → Check Bool} (hkey : key ∈ limitKeys)
    (hempty : ∀ j, (c [] j).1 = false) (hc : ∀ value, Vouches licInfo (c value)) :
    Vouches licInfo (findLimit licInfo key >>= fun
      | none => pure true
      | some value => c value) := by
  refine vouches_findLimit hkey (fun _ => hempty) ?_
  cases licInfo.m_limits.lookup key with
  | none => exact vouches_pure true
  | some value => exact hc value

/-! ## The stages -/

theorem vouches_refuse (event : LCC_EVENT_TYPE) (info : Bytes) :
    Vouches licInfo (refuse licInfo event info) :=
  vouches_of_false (refuse_false event info)

theorem seconds_from_epoch_nil (host : Host) : seconds_from_epoch host [] = none := rfl

theorem vouches_magic : Vouches licInfo (check_magic build licInfo) := by
  unfold check_magic
  split
  · exact vouches_pure true
  · exact vouches_refuse _ _

theorem check_expiry_false (j : Journal) : (check_expiry host licInfo false j).1 = false := by
  unfold check_expiry
  simp only [bind, StateT.bind, findLimit]
  cases licInfo.m_limits.lookup PARAM_EXPIRY_DATE <;> rfl

theorem vouches_expiry : Vouches licInfo (check_expiry host licInfo true) := by
  unfold check_expiry
  refine vouches_limit (by decide) (fun j => ?_) fun value => ?_
  · simp [seconds_from_epoch_nil, refuse_false]
  · simp only [if_true]
    split
    · exact vouches_refuse _ _
    · split
      · exact vouches_refuse _ _
      · exact vouches_pure true

theorem check_start_date_false (j : Journal) :
    (check_start_date host licInfo false j).1 = false := by
  unfold check_start_date
  simp only [bind, StateT.bind, findLimit]
  cases licInfo.m_limits.lookup PARAM_BEGIN_DATE <;> rfl

theorem vouches_start_date : Vouches licInfo (check_start_date host licInfo true) := by
  unfold check_start_date
  refine vouches_limit (by decide) (fun j => ?_) fun value => ?_
  · simp [seconds_from_epoch_nil, refuse_false]
  · simp only [if_true]
    split
    · exact vouches_refuse _ _
    · split
      · exact vouches_refuse _ _
      · exact vouches_pure true

theorem vouches_callerVersion {callerInformation : Option CallerInformations}
    {c : Option (List Nat) → Check Bool} (hnone : Vouches licInfo (c none))
    (hsome : ∀ v, Vouches licInfo (c (some v))) :
    Vouches licInfo (callerVersion licInfo callerInformation >>= c) := by
  unfold callerVersion
  cases callerInformation with
  | none => exact vouches_addEvent hnone
  | some callerInformation =>
    simp only
    split
    · exact vouches_addEvent hnone
    · split
      · exact vouches_addEvent hnone
      · exact hsome _

theorem version_bound_none {key : Bytes} {outside : Int → Bool} {invalid refused : String}
    (j : Journal) : (check_version_bound licInfo key outside invalid refused none j).1 = false := by
  unfold check_version_bound
  simp only [bind, StateT.bind, findLimit]
  cases licInfo.m_limits.lookup key <;> rfl

theorem vouches_version_bound {key : Bytes} {outside : Int → Bool} {invalid refused : String}
    (hkey : key ∈ limitKeys) (v : List Nat) :
    Vouches licInfo (check_version_bound licInfo key outside invalid refused (some v)) := by
  unfold check_version_bound
  refine vouches_limit hkey (fun j => rfl) fun value => ?_
  simp only
  split
  · exact vouches_refuse _ _
  · split
    · exact vouches_refuse _ _
    · exact vouches_pure true

theorem vouches_version {callerInformation : Option CallerInformations} :
    Vouches licInfo (check_version licInfo callerInformation) := by
  unfold check_version
  refine vouches_callerVersion ?_ fun v => ?_
  · refine Vouches.andThen ?_ (fun j => version_bound_none j) ?_
    · exact vouches_of_false version_bound_none
    · exact vouches_of_false version_bound_none
  · refine Vouches.andThen (vouches_version_bound (by decide) v) (fun j => version_bound_none j) ?_
    exact vouches_version_bound (by decide) v

theorem version_bound_empty {key : Bytes} {outside : Int → Bool} {invalid refused : String}
    (h : licInfo.m_limits.lookup key = some []) (v : Option (List Nat)) (j : Journal) :
    (check_version_bound licInfo key outside invalid refused v j).1 = false := by
  unfold check_version_bound
  simp only [bind, StateT.bind, findLimit, h]
  cases v <;> rfl

/-- An empty version limit is refused. -/
theorem version_empty {callerInformation : Option CallerInformations}
    (h : licInfo.m_limits.lookup PARAM_VERSION_FROM = some [] ∨
      licInfo.m_limits.lookup PARAM_VERSION_TO = some []) (j : Journal) :
    (check_version licInfo callerInformation j).1 = false := by
  unfold check_version
  simp only [check_bind]
  rcases h with hfrom | hto
  · rw [version_bound_empty hfrom]
    exact version_bound_none _
  · exact version_bound_empty hto _ _

theorem has_version_limit_consulted (j : Journal) :
    ∀ key ∈ (has_version_limit licInfo j).2.consulted,
      key ∈ j.consulted ∨ key = PARAM_VERSION_FROM ∨ key = PARAM_VERSION_TO := by
  unfold has_version_limit
  simp only [bind, StateT.bind, findLimit]
  intro key hkey
  cases hfrom : licInfo.m_limits.lookup PARAM_VERSION_FROM with
  | some value =>
    rw [hfrom] at hkey
    rcases List.mem_append.mp hkey with hkey | hkey
    · exact Or.inl hkey
    · exact Or.inr (Or.inl (List.mem_singleton.mp hkey))
  | none =>
    rw [hfrom] at hkey
    rcases List.mem_append.mp hkey with hkey | hkey
    · rcases List.mem_append.mp hkey with hkey | hkey
      · exact Or.inl hkey
      · exact Or.inr (Or.inl (List.mem_singleton.mp hkey))
    · exact Or.inr (Or.inr (List.mem_singleton.mp hkey))

theorem has_version_limit_false {j : Journal} (h : (has_version_limit licInfo j).1 = false) :
    licInfo.m_limits.lookup PARAM_VERSION_FROM = none ∧
      licInfo.m_limits.lookup PARAM_VERSION_TO = none := by
  unfold has_version_limit at h
  rw [check_bind] at h
  cases hfrom : licInfo.m_limits.lookup PARAM_VERSION_FROM with
  | some value =>
    simp only [findLimit, hfrom] at h
    cases h
  | none =>
    simp only [findLimit, hfrom, check_bind] at h
    exact ⟨rfl, Option.isSome_eq_false_iff.mp h |> Option.isNone_iff_eq_none.mp⟩

/-- The lookups that ask whether there is a version limit find no empty one. -/
theorem vouches_versions {callerInformation : Option CallerInformations} :
    Vouches licInfo (check_versions licInfo callerInformation true) := by
  intro j hresult key hkey
  have hbind : check_versions licInfo callerInformation true j =
      (if (has_version_limit licInfo j).1 then check_version licInfo callerInformation
        else pure true) (has_version_limit licInfo j).2 := by
    unfold check_versions
    simp only [if_true]
    rw [check_bind]
  rw [hbind] at hresult hkey
  have hmain : ((¬ licInfo.m_limits.lookup PARAM_VERSION_FROM = some []) ∧
      ¬ licInfo.m_limits.lookup PARAM_VERSION_TO = some []) ∧
      (key ∈ (has_version_limit licInfo j).2.consulted ∨ Answered licInfo key) := by
    cases hlimit : (has_version_limit licInfo j).1 with
    | true =>
      simp only [hlimit, if_true] at hresult hkey
      refine ⟨not_or.mp fun hempty => ?_, vouches_version _ hresult key hkey⟩
      rw [version_empty hempty] at hresult
      cases hresult
    | false =>
      obtain ⟨hfrom, hto⟩ := has_version_limit_false hlimit
      simp only [hlimit, Bool.false_eq_true, if_false] at hkey
      exact ⟨by simp [hfrom, hto], Or.inl hkey⟩
  obtain ⟨⟨hfrom, hto⟩, hkey | hanswered⟩ := hmain
  · rcases has_version_limit_consulted j key hkey with hkey | rfl | rfl
    · exact Or.inl hkey
    · exact Or.inr ⟨by decide, fun _ => hfrom⟩
    · exact Or.inr ⟨by decide, fun _ => hto⟩
  · exact Or.inr hanswered

theorem vouches_v201 {c : Bool → Check Bool} (hyes : Vouches licInfo (c true))
    (hno : Vouches licInfo (c false)) : Vouches licInfo (is_v201_license licInfo >>= c) := by
  have hassoc : (is_v201_license licInfo >>= c) = findLimit licInfo LICENSE_VERSION >>= fun v =>
      c (decide (v.getD [] = text "201")) := rfl
  rw [hassoc]
  refine vouches_findLimit (by decide) (fun h => absurd rfl h) ?_
  cases decide ((licInfo.m_limits.lookup LICENSE_VERSION).getD [] = text "201") with
  | true => exact hyes
  | false => exact hno

theorem vouches_source_strength (client_sig source_strength : Bytes) :
    Vouches licInfo (check_source_strength licInfo client_sig source_strength) := by
  unfold check_source_strength
  split
  · exact vouches_refuse _ _
  · split
    · exact vouches_refuse _ _
    · exact vouches_pure true

theorem vouches_client_metadata :
    Vouches licInfo (validate_v201_client_signature_source_strength licInfo) := by
  unfold validate_v201_client_signature_source_strength
  apply vouches_v201
  · simp only [if_true]
    refine vouches_findLimit (by decide) (fun _ j => ?_) ?_
    · simp only [check_bind]
      split
      · rfl
      · rfl
    · cases licInfo.m_limits.lookup PARAM_CLIENT_SIGNATURE with
      | none =>
        refine vouches_findLimit (by decide) (fun _ j => rfl) ?_
        split
        · exact vouches_refuse _ _
        · exact vouches_pure true
      | some client_sig =>
        refine vouches_findLimit (by decide) (fun _ j => rfl) ?_
        split
        · exact vouches_refuse _ _
        · exact vouches_source_strength _ _
  · exact vouches_pure true

theorem vouches_hardware (client_sig : Bytes) :
    Vouches licInfo (check_hardware build host licInfo client_sig) := by
  unfold check_hardware
  exact vouches_addEvent (vouches_pure _)

theorem check_client_signature_false (j : Journal) :
    (check_client_signature build host licInfo false j).1 = false := by
  unfold check_client_signature
  simp only [bind, StateT.bind, findLimit]
  cases licInfo.m_limits.lookup PARAM_CLIENT_SIGNATURE <;> rfl

/-- No hardware has the empty identifier. -/
theorem vouches_client_signature :
    Vouches licInfo (check_client_signature build host licInfo true) := by
  unfold check_client_signature
  refine vouches_limit (by decide) (fun j => ?_) fun client_sig => ?_
  · simp only [if_true]
    rw [check_bind]
    split
    · rfl
    · rfl
  · simp only [if_true]
    refine Vouches.andThen vouches_client_metadata (fun j => rfl) ?_
    exact vouches_hardware client_sig

theorem check_extra_data_false (j : Journal) : (check_extra_data licInfo false j).1 = false := by
  unfold check_extra_data
  simp only [bind, StateT.bind, findLimit]
  cases licInfo.m_limits.lookup PARAM_EXTRA_DATA <;> rfl

theorem vouches_extra_data : Vouches licInfo (check_extra_data licInfo true) := by
  unfold check_extra_data
  refine vouches_limit (by decide) (fun j => rfl) fun extra_data => ?_
  simp only [if_true]
  split
  · exact vouches_refuse _ _
  · exact vouches_pure true

theorem vouches_evaluate (policy : Bytes) :
    Vouches licInfo (evaluateCustomLimit host licInfo policy) := by
  unfold evaluateCustomLimit
  split
  · exact vouches_refuse _ _
  · exact vouches_refuse _ _
  · split
    · exact vouches_refuse _ _
    · exact vouches_refuse _ _
    · exact vouches_pure true

theorem check_custom_limit_false (j : Journal) :
    (check_custom_limit host licInfo false j).1 = false := by
  unfold check_custom_limit
  simp only [bind, StateT.bind, findLimit]
  cases licInfo.m_limits.lookup PARAM_CUSTOM_LIMIT <;> rfl

theorem vouches_custom_limit : Vouches licInfo (check_custom_limit host licInfo true) := by
  unfold check_custom_limit
  refine vouches_limit (by decide) (fun j => ?_) fun policy => ?_
  · simp only [if_true]
    rw [check_bind]
    split
    · rfl
    · rfl
  · simp only [if_true]
    apply vouches_v201
    · exact vouches_evaluate policy
    · exact vouches_refuse _ _

/-- The limits that are asked for have values, and places in the payload. -/
theorem vouches_verify_limits {callerInformation : Option CallerInformations} :
    Vouches licInfo (verify_limits build host licInfo callerInformation) := by
  unfold verify_limits
  refine Vouches.andThen ?_ check_custom_limit_false vouches_custom_limit
  refine Vouches.andThen ?_ check_extra_data_false vouches_extra_data
  refine Vouches.andThen ?_ check_client_signature_false vouches_client_signature
  refine Vouches.andThen ?_ (fun _ => rfl) vouches_versions
  refine Vouches.andThen ?_ check_start_date_false vouches_start_date
  exact vouches_magic.andThen check_expiry_false vouches_expiry

end

/-! ## What was signed -/

theorem mem_v201_field {key value : Bytes} {field : CanonicalField} :
    field ∈ v201_field key value ↔ value ≠ [] ∧ field = ⟨key, value⟩ := by
  unfold v201_field
  by_cases h : value = []
  · simp [h]
  · simp [h]

/-- The fields of the limits are the limits that have values. -/
theorem mem_v201_fields {build : Build} {licInfo : FullLicenseInfo} {key value : Bytes}
    (hkey : key ∈ limitKeys) : ⟨key, value⟩ ∈ v201_fields_for build licInfo ↔
      value ≠ [] ∧ value = limit_value_or_empty licInfo key := by
  unfold v201_fields_for
  simp only [List.mem_append, mem_v201_field, CanonicalField.mk.injEq]
  have hproject : key ≠ text "project" := fun h => absurd (h ▸ hkey) (by decide)
  have hfeature : key ≠ text "feature" := fun h => absurd (h ▸ hkey) (by decide)
  constructor
  · intro h
    simp only [hproject, hfeature, false_and, and_false, or_false] at h
    have hsame : ∃ k, (limit_value_or_empty licInfo k ≠ [] ∧ key = k ∧
        value = limit_value_or_empty licInfo k) := by
      rcases h with ((((((((((((h | h) | h) | h) | h) | h) | h) | h) | h) | h) | h) | h) | h)
      all_goals exact ⟨_, h⟩
    obtain ⟨k, hne, rfl, rfl⟩ := hsame
    exact ⟨hne, rfl⟩
  · rintro ⟨hne, rfl⟩
    simp only [limitKeys, List.mem_cons, List.not_mem_nil, or_false] at hkey
    rcases hkey with rfl | rfl | rfl | rfl | rfl | rfl | rfl | rfl | rfl | rfl | rfl | rfl | rfl
    all_goals simp [hne]

/-- The payload names the version of the license. -/
theorem version_of_accepted {build : Build} {licInfo : FullLicenseInfo} {payload : Bytes}
    (h : Accepted (v201_fields_for build licInfo) payload) :
    limit_value_or_empty licInfo LICENSE_VERSION ≠ [] := by
  intro hempty
  have hnone : findField (v201_fields_for build licInfo) LICENSE_VERSION = none := by
    apply Option.eq_none_iff_forall_ne_some.mpr
    intro value hvalue
    rw [findField_eq_some h.keys, mem_v201_fields (by decide), hempty] at hvalue
    exact hvalue.1 hvalue.2
  have htogether := h.together
  unfold check_fields at htogether
  split at htogether
  · cases htogether
  · rename_i hfind
    have hversion := List.find?_eq_none.mp hfind LICENSE_VERSION (by decide)
    simp [hnone] at hversion

section
variable (rsaVerify : Bytes → Bytes → Bytes → Bool)

/-- The signature of a license covers a payload, under a key of the build that is not
retired and that the license names. -/
def Signed (build : Build) (licInfo : FullLicenseInfo) (payload : Bytes) : Prop :=
  ∃ public_key ∈ build.embedded_public_key_ring,
    public_key.key_id = limit_value_or_empty licInfo LICENSE_KEY_ID ∧
    public_key.key_id ∉ build.embedded_retired_key_ids ∧
    rsaVerify public_key.public_key_der payload (unbase64 licInfo.license_signature) = true

/-- A license that is verified has a payload, and its signature covers it. -/
theorem verify_signature_signed {build : Build} {licInfo : FullLicenseInfo} {j : Journal}
    (h : (verify_signature rsaVerify build licInfo j).1 = true) :
    ∃ payload, build_canonical_payload (v201_fields_for build licInfo) = .ok payload ∧
      Signed rsaVerify build licInfo payload := by
  unfold verify_signature at h
  cases hpayload : build_canonical_payload (v201_fields_for build licInfo) with
  | error error =>
    rw [hpayload] at h
    cases h
  | ok payload =>
    rw [hpayload] at h
    refine ⟨payload, rfl, ?_⟩
    simp only at h
    split at h
    · rename_i hverify
      obtain ⟨hretired, public_key, hmem, hid, hrsa⟩ :=
        verify_signature_covers rsaVerify rfl hverify
      exact ⟨public_key, hmem, hid, hid ▸ hretired, hrsa⟩
    · cases h

/-- Each limit that is enforced was signed, and no other fields share the payload. -/
theorem enforced_restrictions_are_signed (build : Build) :
    (∀ (host : Host) (licInfo : FullLicenseInfo) (caller : Option CallerInformations)
        (j : Journal) (logs : List AuditEvent),
      (verify_signature rsaVerify build licInfo j).1 = true →
      (verify_limits build host licInfo caller ⟨[], logs⟩).1 = true →
      ∃ fields, Signed rsaVerify build licInfo (payloadBytes fields) ∧
        ∀ key ∈ (verify_limits build host licInfo caller ⟨[], logs⟩).2.consulted,
          ∀ value, licInfo.m_limits.lookup key = some value →
            value ≠ [] ∧ ⟨key, value⟩ ∈ fields) ∧
    (∀ fields fields' payload, build_canonical_payload fields = .ok payload →
      fields.Perm fields' → build_canonical_payload fields' = .ok payload) ∧
    (∀ fields fields' payload, build_canonical_payload fields = .ok payload →
      build_canonical_payload fields' = .ok payload → fields.Perm fields') := by
  refine ⟨?_, fun _ _ _ h hperm => build_canonical_payload_perm hperm h,
    fun _ _ _ => build_canonical_payload_injective⟩
  intro host licInfo caller j logs hsignature hlimits
  obtain ⟨payload, hpayload, hsigned⟩ := verify_signature_signed rsaVerify hsignature
  have haccepted := build_canonical_payload_ok.mp hpayload
  refine ⟨orderedFields (findField (v201_fields_for build licInfo)), ?_, ?_⟩
  · rw [← haccepted.payload_eq]
    exact hsigned
  · intro key hconsulted value hvalue
    have hanswered : Answered licInfo key := by
      rcases vouches_verify_limits _ hlimits key hconsulted with h | h
      · cases h
      · exact h
    obtain ⟨hkey, hnotempty⟩ := hanswered
    have hlimit : limit_value_or_empty licInfo key = value := by simp [limit_value_or_empty, hvalue]
    have hne : value ≠ [] := by
      by_cases hversion : key = LICENSE_VERSION
      · subst hversion
        rw [← hlimit]
        exact version_of_accepted haccepted
      · rintro rfl
        exact hnotempty hversion hvalue
    refine ⟨hne, ?_⟩
    rw [haccepted.mem_ordered, mem_v201_fields hkey]
    exact ⟨hne, hlimit.symm⟩

end

/-! ## A license with every limit -/

/-- Midnight of a day in the calendar of UTC. -/
def utcTime (year month day : Nat) : Option Int :=
  let year' := if month ≤ 2 then year - 1 else year
  let days := 365 * year' + year' / 4 - year' / 100 + year' / 400 +
    (153 * ((month + 9) % 12) + 2) / 5 + day - 1
  some ((days - 719468) * 86400)

def demoIdentifier : HwIdentifier := ⟨[0, 0x41, 2, 3, 4, 5, 6, 7], rfl⟩

def demoBuild : Build where
  LCC_PROJECT_NAME := text "DEMO"
  LCC_PROJECT_MAGIC_NUM := 0
  embedded_public_key_ring := [⟨goldenClaims.key_id, goldenKeyDer, 3072⟩]
  embedded_retired_key_ids := []
  bindings := ⟨false, false, false⟩

/-- The host at noon of 14 June 2026. -/
def demoHost : Host where
  time := 1781438400
  mktime := utcTime
  alternative_ids := fun strategy => if strategy = 2 then [demoIdentifier] else []
  custom_limit_check := some fun policy => if policy = text "cpu<=8" then some .ALLOW else none

def demoLicense : FullLicenseInfo where
  source := text "demo.lic"
  m_project := text "demo"
  license_signature := base64 goldenSignature
  m_magic := 0
  m_limits := [
    (LICENSE_VERSION, text "201"), (LICENSE_CANONICAL_VERSION, text "1"),
    (LICENSE_SIGNATURE_VERSION, text "1"), (LICENSE_SIGNATURE_ALGORITHM, text "rsa-pkcs1-sha256"),
    (LICENSE_KEY_ID, goldenClaims.key_id), (PARAM_BEGIN_DATE, text "2026-01-01"),
    (PARAM_EXPIRY_DATE, text "2026-12-31"), (PARAM_VERSION_FROM, text "1.0"),
    (PARAM_VERSION_TO, text "2.9.9"), (PARAM_CUSTOM_LIMIT, text "cpu<=8"),
    (PARAM_CLIENT_SIGNATURE, demoIdentifier.print),
    (PARAM_CLIENT_SIGNATURE_SOURCE_STRENGTH, text "strong-disk-serial-or-uuid"),
    (PARAM_EXTRA_DATA, text "seat 4"), (LICENSE_SIGNATURE, base64 goldenSignature)]

def demoCaller : CallerInformations := ⟨text "2.1" ++ List.replicate 13 0⟩

theorem demo_restrictions_are_signed :
    (verify_limits demoBuild demoHost demoLicense (some demoCaller)
      ⟨[], []⟩).2.consulted.length = 12 ∧
    ∃ fields, Signed (fun _ _ _ => true) demoBuild demoLicense (payloadBytes fields) ∧
      ∀ key ∈ (verify_limits demoBuild demoHost demoLicense (some demoCaller)
          ⟨[], []⟩).2.consulted,
        ∀ value, demoLicense.m_limits.lookup key = some value →
          value ≠ [] ∧ ⟨key, value⟩ ∈ fields :=
  ⟨by decide +kernel, (enforced_restrictions_are_signed (fun _ _ _ => true) demoBuild).1 demoHost
    demoLicense (some demoCaller) ⟨[], []⟩ [] (by decide +kernel) (by decide +kernel)⟩

end Licensecc.License
