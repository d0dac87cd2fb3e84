-- A backup: the download of an export goes through a digest into the bucket as a dump, and
-- a manifest of the digest follows it. A call that fails in between cleans up after itself.
import Licensecc.Schema.Grants
import Licensecc.Webhook.Signature
import Mathlib.Data.List.AList
import Mathlib.Data.List.Lex
import Mathlib.Data.List.Sort

open Licensecc.Codec
open Licensecc.Webhook (bytesToHex)

namespace Licensecc.Backup

/-! ## Inputs -/

structure BackupConfig where
  databaseId : JsText
  databaseName : JsText
  prefix_ : JsText

structure D1ExportStarted where
  bookmark : JsText
  snapshotRequestedAt : JsText

/-- The body of a response: its chunks, and whether it comes to its end. -/
structure Body where
  chunks : List Bytes
  complete : Bool := true

structure Response where
  status : Nat
  contentLength : Option JsText
  contentEncoding : Option JsText := none
  body : Option Body

/-- What the bucket tells of a dump that it has taken. A number or a time is missing when it
is not an integer or not a time, and a text when it is no text. -/
structure R2PutResult where
  key : JsText
  size : Option Int
  etag : Option JsText
  version : Option JsText
  uploaded : Option Int
  sha256 : Option (Option Bytes) := none

/-- A call of `saveD1ExportToR2`: its arguments, what the download gives unless it throws,
and what the bucket will tell of the dump. -/
structure Export where
  config : BackupConfig
  started : D1ExportStarted
  filename : JsText
  response : Option Response
  putResult : Option R2PutResult

inductive SaveError where
  | d1_export_snapshot_requested_at_invalid
  | fetch_failed
  | d1_export_download_failed (status : Nat)
  | d1_export_empty
  | d1_export_invalid_content_length
  | r2_put_missing_metadata
  | r2_put_key_mismatch
  | r2_put_invalid_size
  | r2_put_size_mismatch
  | r2_put_invalid_sha256
  | r2_put_sha256_mismatch
  | r2_put_invalid_etag
  | r2_put_invalid_version
  | snapshot_inventory_no_counted_tables
  | r2_put_invalid_uploaded_at
  | r2_put_uploaded_at_before_snapshot

/-! ## Keys -/

def isDigit (u : UInt16) : Bool := unit '0' ≤ u && u ≤ unit '9'

/-- `[A-Za-z0-9._-]` -/
def isSafeUnit (u : UInt16) : Bool :=
  unit 'A' ≤ u && u ≤ unit 'Z' || unit 'a' ≤ u && u ≤ unit 'z' || isDigit u ||
    u = unit '.' || u = unit '_' || u = unit '-'

def databaseSql : JsText := jsText "database.sql".toList

def sanitizeObjectSegment (value : JsText) : JsText :=
  let parts := (value.splitOnP fun u => u = unit '/' || u = unit '\\').filter (· ≠ [])
  let safe := (parts.getLast?.getD databaseSql).map fun u => if isSafeUnit u then u else unit '_'
  if safe = [] ∨ safe = [unit '.'] ∨ safe = [unit '.', unit '.'] then databaseSql else safe

/-- The number of some digits. -/
def number (digits : JsText) : Int := digits.foldl (fun n u => 10 * n + (u.toNat - 48)) 0

def isLeap (year : Int) : Bool := year % 4 = 0 && (year % 100 ≠ 0 || year % 400 = 0)

def daysInMonth (year month : Int) : Int :=
  if month = 2 then if isLeap year then 29 else 28
  else if month = 4 ∨ month = 6 ∨ month = 9 ∨ month = 11 then 30
  else 31

/-- The days from 1970 to a day. A year here begins in March. -/
def daysFromEpoch (year month day : Int) : Int :=
  let y := if month ≤ 2 then year - 1 else year
  let m := if month ≤ 2 then month + 9 else month - 3
  365 * y + y / 4 - y / 100 + y / 400 + (153 * m + 2) / 5 + day - 1 - 719468

def isoTemplate : JsText := jsText "0000-00-00T00:00:00.000Z".toList

/-- The instant in milliseconds of a text that `toISOString` gives back. -/
def canonicalSnapshotRequestedAt (value : JsText) : Option Int :=
  let year := number (value.take 4)
  let month := number ((value.drop 5).take 2)
  let day := number ((value.drop 8).take 2)
  let hour := number ((value.drop 11).take 2)
  let minute := number ((value.drop 14).take 2)
  let second := number ((value.drop 17).take 2)
  let millisecond := number ((value.drop 20).take 3)
  let shaped := value.length = 24 ∧ (value.zip isoTemplate).all fun (u, t) =>
    if t = unit '0' then isDigit u else u = t
  if shaped ∧ 1 ≤ month ∧ month ≤ 12 ∧ 1 ≤ day ∧ day ≤ daysInMonth year month ∧
      hour < 24 ∧ minute < 60 ∧ second < 60 then
    some (86400000 * daysFromEpoch year month day + 3600000 * hour + 60000 * minute +
      1000 * second + millisecond)
  else none

/-- `backupTimestamp` of an instant that has this text. -/
def backupTimestamp (isoText : JsText) : JsText :=
  isoText.map fun u => if u = unit ':' ∨ u = unit '.' then unit '-' else u

def backupObjectKey (e : Export) : JsText :=
  e.config.prefix_ ++ unit '/' :: backupTimestamp e.started.snapshotRequestedAt ++
    unit '/' :: sanitizeObjectSegment e.started.bookmark ++ unit '/' :: sanitizeObjectSegment e.filename

def manifestSuffix : JsText := jsText ".metadata.json".toList

def manifestKey (objectKey : JsText) : JsText := objectKey ++ manifestSuffix

/-! ## The download -/

/-- `Number(header)` of a text that is `\d+`, when it is a positive safe integer and the body
is not encoded. -/
def exportContentLength (r : Response) : Except SaveError Nat :=
  let header := r.contentLength.filter fun h => h ≠ [] ∧ h.all isDigit
  let length : Option Nat := header.map fun h => toDouble (number h).toNat
  let plain := r.contentEncoding.all (· = jsText "identity".toList)
  match length.filter fun n : Nat => (n : Int) ≤ maxSafeInteger ∧ 1 ≤ n ∧ plain with
  | some n => .ok n
  | none =>
    if r.contentLength = some [unit '0'] then .error .d1_export_empty
    else .error .d1_export_invalid_content_length

/-- What the stream of a dump has computed at its end. -/
structure Streamed where
  bytes : Bytes
  digestHex : JsText
  sizeBytes : Nat
  tableCounts : List (JsText × Nat)

/-- SHA-256, and the count of the rows in the chunks of a dump, which can fail. -/
structure Setting where
  sha256 : Bytes → Bytes
  inventory : List Bytes → Option (List (JsText × Nat))

/-- The call up to the put: the length that the download declares. -/
def download (e : Export) : Except SaveError (Body × Nat) :=
  match canonicalSnapshotRequestedAt e.started.snapshotRequestedAt with
  | none => .error .d1_export_snapshot_requested_at_invalid
  | some _ =>
  match e.response with
  | none => .error .fetch_failed
  | some r =>
  if r.status < 200 ∨ 300 ≤ r.status then .error (.d1_export_download_failed r.status)
  else
  match r.body with
  | none => .error (.d1_export_download_failed r.status)
  | some body =>
  match exportContentLength r with
  | .error error => .error error
  | .ok length => .ok (body, length)

variable (c : Setting)

/-- The stream through the digest and the scanner into a stream of fixed length. -/
def stream (body : Body) (length : Nat) : Option Streamed :=
  let bytes := body.chunks.flatten
  if body.complete = false ∨ bytes.length ≠ length then none
  else
    (c.inventory body.chunks).map fun tableCounts =>
      ⟨bytes, bytesToHex (c.sha256 bytes), bytes.length, tableCounts⟩

/-! ## The manifest -/

structure BackupContentIntegrity where
  digest_hex : JsText
  size_bytes : Nat
  r2_etag : JsText
  r2_version : JsText
  r2_size_bytes : Int
  r2_sha256_hex : Option JsText
  deriving DecidableEq

/-- The manifest. Its `created_at` is the instant. -/
structure Manifest where
  database_id : JsText
  database_name : JsText
  bookmark : JsText
  export_filename : JsText
  object_key : JsText
  snapshot_requested_at : JsText
  created_at : Int
  content_integrity : BackupContentIntegrity
  table_counts : List (JsText × Nat)
  deriving DecidableEq

def r2MetadataString (value : Option JsText) (error : SaveError) : Except SaveError JsText :=
  match value with
  | none => .error error
  | some text =>
    if text.length < 1 ∨ text.length > 2048 ∨ (text.any fun u => u.toNat ≤ 31 || u.toNat = 127) then
      .error error
    else .ok text

def checksumHex (value : Option (Option Bytes)) : Except SaveError (Option JsText) :=
  match value with
  | none => .ok none
  | some none => .error .r2_put_invalid_sha256
  | some (some bytes) =>
    if bytes.length ≠ 32 then .error .r2_put_invalid_sha256 else .ok (some (bytesToHex bytes))

def contentIntegrityFromPut (value : Option R2PutResult) (objectKey : JsText) (streamed : Streamed) :
    Except SaveError BackupContentIntegrity := do
  let value ← value.elim (.error .r2_put_missing_metadata) .ok
  ensure (value.key = objectKey) .r2_put_key_mismatch
  let size ← (value.size.filter fun n => 0 ≤ n ∧ n ≤ maxSafeInteger).elim
    (.error .r2_put_invalid_size) .ok
  ensure (1 ≤ streamed.sizeBytes) .d1_export_empty
  ensure (size = streamed.sizeBytes) .r2_put_size_mismatch
  let r2Sha256Hex ← checksumHex value.sha256
  ensure (r2Sha256Hex.all (· = streamed.digestHex)) .r2_put_sha256_mismatch
  let etag ← r2MetadataString value.etag .r2_put_invalid_etag
  let version ← r2MetadataString value.version .r2_put_invalid_version
  return ⟨streamed.digestHex, streamed.sizeBytes, etag, version, size, r2Sha256Hex⟩

def MAX_CLOCK_SKEW_MS : Int := 5 * 60 * 1000

/-- The manifest that the call puts, or the check that fails before it. -/
def manifestOf (e : Export) (streamed : Streamed) : Except SaveError Manifest := do
  let contentIntegrity ← contentIntegrityFromPut e.putResult (backupObjectKey e) streamed
  ensure (1 ≤ streamed.tableCounts.length) .snapshot_inventory_no_counted_tables
  let uploaded ← (e.putResult.bind (·.uploaded)).elim (.error .r2_put_invalid_uploaded_at) .ok
  ensure ((canonicalSnapshotRequestedAt e.started.snapshotRequestedAt).all
    (· ≤ uploaded + MAX_CLOCK_SKEW_MS)) .r2_put_uploaded_at_before_snapshot
  return {
    database_id := e.config.databaseId
    database_name := e.config.databaseName
    bookmark := e.started.bookmark
    export_filename := e.filename
    object_key := backupObjectKey e
    snapshot_requested_at := e.started.snapshotRequestedAt
    created_at := uploaded
    content_integrity := contentIntegrity
    table_counts := streamed.tableCounts }

/-! ## The bucket -/

inductive Stored where
  | dump (bytes : Bytes)
  | manifest (m : Manifest)
  deriving DecidableEq

abbrev Bucket := AList fun _ : JsText => Stored

/-- The order of a listing. -/
def KeyLe (a b : JsText) : Prop := a.map UInt16.toNat ≤ b.map UInt16.toNat

instance : DecidableRel KeyLe := fun _ _ => inferInstanceAs (Decidable (_ ≤ _))

/-- The keys of `bucket.list({ prefix, limit })`. -/
def listKeys (b : Bucket) (start : JsText) (limit : Nat) : List JsText :=
  ((b.keys.filter (start.isPrefixOf ·)).insertionSort KeyLe).take limit

/-! ## Calls -/

/-- The next operation of a call on the bucket. -/
inductive Phase where
  | putDump (e : Export) (body : Body) (length : Nat)
  | putManifest (e : Export) (m : Manifest)
  | list (e : Export)
  | delete (e : Export)

/-- How a call ended: it returned, it threw and its cleanup has run, or it threw without
one. -/
inductive Ended where
  | returned (objectKey : JsText)
  | cleaned (objectKey : JsText)
  | threw

structure State where
  bucket : Bucket := ∅
  phase : Option Phase := none
  ended : Option Ended := none

/-- A call, the next operation on the bucket, which runs or fails, and the end of the
process. -/
inductive Act where
  | call (e : Export)
  | operation (ran : Bool)
  | crash

/-- One operation of `saveD1ExportToR2`. -/
def operate (ran : Bool) (s : State) : Phase → State
  | .putDump e body length =>
    match if ran then stream c body length else none with
    | none => { s with phase := none, ended := some .threw }
    | some streamed =>
      { s with
        bucket := s.bucket.insert (backupObjectKey e) (.dump streamed.bytes)
        phase := match manifestOf e streamed with
          | .ok m => some (.putManifest e m)
          | .error _ => some (.list e) }
  | .putManifest e m =>
    if ran then
      { s with
        bucket := s.bucket.insert (manifestKey (backupObjectKey e)) (.manifest m)
        phase := none
        ended := some (.returned (backupObjectKey e)) }
    else { s with phase := some (.list e) }
  | .list e =>
    if ran then
      let key := manifestKey (backupObjectKey e)
      if key ∈ listKeys s.bucket key 1 then
        { s with phase := none, ended := some (.cleaned (backupObjectKey e)) }
      else { s with phase := some (.delete e) }
    else { s with phase := none, ended := some .threw }
  | .delete e =>
    if ran then
      { s with
        bucket := s.bucket.erase (backupObjectKey e)
        phase := none
        ended := some (.cleaned (backupObjectKey e)) }
    else { s with phase := none, ended := some .threw }

def act (a : Act) (s : State) : State :=
  match a with
  | .call e =>
    match s.phase, download e with
    | none, .ok (body, length) => { s with phase := some (.putDump e body length), ended := none }
    | none, .error _ => { s with ended := some .threw }
    | some _, _ => s
  | .operation ran =>
    match s.phase with
    | some phase => operate c ran s phase
    | none => s
  | .crash => { s with phase := none, ended := none }

end Licensecc.Backup
