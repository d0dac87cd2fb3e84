-- The reader of license texts: the scan of the raw lines, the checks of the
-- section that the INI parser has read, and the licenses that come of it.
import Licensecc.License.Limits
import Licensecc.License.IniLines

open Licensecc.Codec Licensecc.V201 Licensecc.Token
open Licensecc.Protocol (byte inRange)

namespace Licensecc.License

def is_valid_base64 (value : Bytes) : Bool := is_canonical_base64 value false

def v201_allowed_keys : List Bytes := [
  LICENSE_VERSION, LICENSE_CANONICAL_VERSION, LICENSE_SIGNATURE_VERSION,
  LICENSE_SIGNATURE_ALGORITHM, LICENSE_KEY_ID, PARAM_BEGIN_DATE, PARAM_EXPIRY_DATE,
  PARAM_CLIENT_SIGNATURE, PARAM_CLIENT_SIGNATURE_SOURCE_STRENGTH, PARAM_VERSION_FROM,
  PARAM_VERSION_TO, PARAM_CUSTOM_LIMIT, PARAM_EXTRA_DATA, LICENSE_SIGNATURE]

/-! ## The scan of the raw lines -/

/-- The line is blank or a comment. -/
def rawSkipped (line : Bytes) : Bool :=
  let trimmed_line := trim_copy line
  trimmed_line = [] || trimmed_line.head? = some (byte ';') ||
    trimmed_line.head? = some (byte '#')

/-- The name in a line that is a section to the scan. -/
def rawSection (line : Bytes) : Option Bytes :=
  let trimmed_line := trim_copy line
  if 2 ≤ trimmed_line.length ∧ trimmed_line.head? = some (byte '[') ∧
      trimmed_line.getLast? = some (byte ']') then
    some (trim_copy (trimmed_line.tail.dropLast))
  else none

/-- The checks of a line in the section of the product. -/
def check_raw_line (allowed_keys : List Bytes) (line : Bytes) : Except Bytes Unit :=
  if byte '=' ∉ line then .error (text "Invalid license line")
  else
    let raw_key := line.takeWhile (· ≠ byte '=')
    let trimmed_key := trim_copy raw_key
    let key := lowercase_copy trimmed_key
    if trimmed_key = [] then .error (text "Empty license key")
    else if trimmed_key ≠ key then .error (text "Non-canonical license key " ++ trimmed_key)
    else if raw_key ≠ key ∧ raw_key ≠ key ++ [byte ' '] then
      .error (text "Non-canonical key spacing for " ++ key)
    else if key ∉ allowed_keys then .ok ()
    else
      let raw_value := (line.dropWhile (· ≠ byte '=')).tail
      let raw_value := if raw_value.head? = some (byte ' ') then raw_value.tail else raw_value
      if raw_value ≠ trim_copy raw_value then
        .error (text "Non-canonical value spacing for " ++ key)
      else .ok ()

structure RawScan where
  in_product_section : Bool
  product_section_seen : Bool

/-- The scan of one line. -/
def scan_raw_line (product_up : Bytes) (allowed_keys : List Bytes) (scan : RawScan)
    (line : Bytes) : Except Bytes RawScan :=
  if rawSkipped line then .ok scan
  else
    match rawSection line with
    | some name =>
      if toupper_copy name = product_up then
        if scan.product_section_seen then .error (text "Duplicate license section")
        else .ok ⟨true, true⟩
      else .ok ⟨false, scan.product_section_seen⟩
    | none =>
      if scan.in_product_section then
        match check_raw_line allowed_keys line with
        | .error e => .error e
        | .ok () => .ok scan
      else .ok scan

def validate_raw_value_shapes (license_text product_up : Bytes) (allowed_keys : List Bytes) :
    Except Bytes RawScan :=
  (rawLines license_text).foldlM (scan_raw_line product_up allowed_keys) ⟨false, false⟩

def validate_v201_raw_value_shapes (license_text product_up : Bytes) : Except Bytes RawScan :=
  validate_raw_value_shapes license_text product_up v201_allowed_keys

/-! ## The section of the parser -/

/-- The checks of a key, after those that are seen. -/
def check_key (ini : Ini) (productName : Bytes) (seen_keys : List Bytes) (pItem : Bytes) :
    Except Bytes (List Bytes) :=
  let key := trim_copy pItem
  let key_lower := lowercase_copy key
  if key ≠ key_lower ∨ key ∉ v201_allowed_keys then .error (text "Unexpected license key " ++ key)
  else if key_lower ∈ seen_keys then .error (text "Duplicate license key " ++ key)
  else if (GetAllValues ini productName pItem).length ≠ 1 then
    .error (text "Duplicate license key " ++ key)
  else
    let value_raw := GetValue ini productName pItem
    let value := trim_copy (value_raw.getD [])
    if key = LICENSE_VERSION ∧ value_raw ≠ some (text "201") then
      .error (text "Invalid license format version")
    else if key = LICENSE_SIGNATURE ∧ is_valid_base64 value = false then
      .error (text "Invalid license signature encoding")
    else .ok (seen_keys ++ [key_lower])

def required_keys : List Bytes := [LICENSE_VERSION, LICENSE_CANONICAL_VERSION,
  LICENSE_SIGNATURE_VERSION, LICENSE_SIGNATURE_ALGORITHM, LICENSE_KEY_ID, LICENSE_SIGNATURE]

def validate_v201_section (ini : Ini) (productName : Bytes) (keys : List Bytes) :
    Except Bytes Unit := do
  let seen_keys ← keys.foldlM (check_key ini productName) []
  match required_keys.find? fun required_key => required_key ∉ seen_keys with
  | some required_key => throw (text "Missing v201 license key " ++ required_key)
  | none => return ()

/-! ## Licenses -/

/-- The license of a product whose section is there. -/
def readSectionLicense (product source license : Bytes) (ini : Ini) :
    Except Bytes FullLicenseInfo :=
  let product_up := toupper_copy product
  let productNamePtr := c_str product_up
  match GetValue ini productNamePtr LICENSE_SIGNATURE with
  | none => .error (text "Invalid license format version")
  | some license_signature =>
    if (GetValue ini productNamePtr LICENSE_VERSION).getD [] ≠ text "201" then
      .error (text "Invalid license format version")
    else do
      let _ ← validate_v201_raw_value_shapes license product_up
      let keys := GetAllKeys ini productNamePtr
      validate_v201_section ini productNamePtr keys
      return {
        source := source
        m_project := product
        license_signature := license_signature
        m_magic := 0
        m_limits := keys.map fun pItem => (pItem, (GetValue ini productNamePtr pItem).getD []) }

/-- The events of one location, and its license. -/
def readLicense (product source license : Bytes) :
    List (LCC_EVENT_TYPE × Bytes) × Option FullLicenseInfo :=
  if 0 ∈ license then ([(.LICENSE_MALFORMED, text "License contains embedded NUL")], none)
  else
    let ini := LoadData true license
    if GetSectionSize ini (c_str (toupper_copy product)) ≤ 0 then ([(.PRODUCT_NOT_LICENSED, [])], none)
    else
      match readSectionLicense product source license ini with
      | .error e => ([(.PRODUCT_FOUND, []), (.LICENSE_MALFORMED, e)], none)
      | .ok licInfo => ([(.PRODUCT_FOUND, [])], some licInfo)

/-- `LicenseReader::readLicenses`, for the sources and the contents that the locators find. -/
def readLicenses (product : Bytes) (locations : List (Bytes × Bytes)) :
    List (LCC_EVENT_TYPE × Bytes × Bytes) × List FullLicenseInfo :=
  (locations.flatMap fun location =>
      (readLicense product location.1 location.2).1.map fun event => (event.1, location.1, event.2),
    locations.filterMap fun location => (readLicense product location.1 location.2).2)

end Licensecc.License
