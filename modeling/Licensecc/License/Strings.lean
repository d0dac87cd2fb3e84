-- The strings of the licenses: trimming, cases, dates and versions, as the
-- library and the generator read them.
import Licensecc.License.Canonical

open Licensecc.Codec Licensecc.V201
open Licensecc.Protocol (byte inRange)

namespace Licensecc.License

/-! ## Characters -/

def isspace (ch : UInt8) : Bool := ch = byte ' ' || (0x09 ≤ ch && ch ≤ 0x0d)

def iscntrl (ch : UInt8) : Bool := ch < 0x20 || ch = 0x7f

def toupper (ch : UInt8) : UInt8 := if is_ascii_lower ch then ch - 32 else ch

def tolower (ch : UInt8) : UInt8 := if is_ascii_upper ch then ch + 32 else ch

def trim_copy (string_to_trim : Bytes) : Bytes :=
  (string_to_trim.dropWhile isspace).rdropWhile fun ch => isspace ch || ch = 0

def toupper_copy (lowercase : Bytes) : Bytes := lowercase.map toupper

def lowercase_copy (value : Bytes) : Bytes := value.map tolower

/-! ## Keys of a license -/

def PARAM_EXPIRY_DATE : Bytes := text "valid-to"

def PARAM_BEGIN_DATE : Bytes := text "valid-from"

def PARAM_VERSION_FROM : Bytes := text "start-version"

def PARAM_CLIENT_SIGNATURE : Bytes := text "client-signature"

def PARAM_CLIENT_SIGNATURE_SOURCE_STRENGTH : Bytes := text "client-signature-source-strength"

def PARAM_VERSION_TO : Bytes := text "end-version"

def PARAM_EXTRA_DATA : Bytes := text "extra-data"

def PARAM_CUSTOM_LIMIT : Bytes := text "custom-limit"

def LICENSE_SIGNATURE : Bytes := text "sig"

def LICENSE_VERSION : Bytes := text "lic_ver"

def LICENSE_CANONICAL_VERSION : Bytes := text "canonical-v"

def LICENSE_SIGNATURE_VERSION : Bytes := text "sig-v"

def LICENSE_SIGNATURE_ALGORITHM : Bytes := text "sig-alg"

def LICENSE_KEY_ID : Bytes := text "key-id"

def LCC_API_PROPRIETARY_DATA_SIZE : Nat := 16

def LCC_API_CUSTOM_LIMIT_SIZE : Nat := 255

/-! ## Versions and values -/

/-- Also `parse_version_limit` of the generator -/
def parse_version (version : Bytes) : Option (List Nat) :=
  if version = [] ∨ version.head? = some (byte '.') ∨ version.getLast? = some (byte '.') then none
  else
    let segments := getlines (byte '.') version
    if 3 < segments.length ∨ segments.any (fun segment =>
        segment = [] || 4 < segment.length || !segment.all is_ascii_digit) then none
    else some (segments.map stoul)

/-- The error of a value that is no `extra-data`. -/
def validate_extra_data_value (extra_data : Bytes) : Option String :=
  if extra_data = [] then some "extra-data must not be empty"
  else if LCC_API_PROPRIETARY_DATA_SIZE < extra_data.length then
    some "extra-data exceeds public API buffer size"
  else if isspace (extra_data.headD 0) ∨ isspace (extra_data.getLastD 0) then
    some "extra-data must not start or end with whitespace"
  else if extra_data.any iscntrl then some "extra-data must not contain control characters"
  else none

/-- The error of a value that is no `custom-limit`. -/
def validate_custom_limit_value (policy : Bytes) : Option String :=
  if policy = [] then some "custom-limit must not be empty"
  else if LCC_API_CUSTOM_LIMIT_SIZE < policy.length then
    some "custom-limit exceeds the public policy limit"
  else if isspace (policy.headD 0) ∨ isspace (policy.getLastD 0) then
    some "custom-limit must not start or end with whitespace"
  else if has_disallowed_value_byte policy then some "custom-limit must contain printable ASCII only"
  else none

end Licensecc.License
