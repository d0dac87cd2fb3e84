-- The audit digest: a chain of hashes over the events of the entitlements. A segment
-- covers the events after the last digest, and its digest is the hash of the digest
-- before it and of the texts of its events.
import Licensecc.Codec.JsNumber
import Licensecc.Codec.Lines
import Licensecc.Sql.Rowid

open Licensecc.Codec Licensecc.Sql

namespace Licensecc.Audit

/-! ## Tables -/

/-- The columns of `entitlement_events` that a digest covers, next to the id. -/
structure EventColumns where
  project : String
  feature : String
  license_fingerprint : String
  event_type : String
  status : String
  revocation_seq : Int
  detail : String := ""
  actor : String := ""
  actor_type : String := "unknown"
  source : String := "admin"
  prev_json : String := ""
  next_json : String := ""
  reason : String := ""
  created_at : Int

structure EntitlementEvent extends EventColumns where
  id : Int

instance : Rowid EntitlementEvent := ⟨EntitlementEvent.id⟩

/-- The columns of `audit_digests` next to the id. -/
structure Segment where
  source : String
  up_to_id : Int
  event_count : Int
  prev_digest : String
  digest : String
  created_at : Int

structure AuditDigest extends Segment where
  id : Int

instance : Rowid AuditDigest := ⟨AuditDigest.id⟩

structure AuditDb where
  entitlement_events : RowidTable EntitlementEvent := .empty
  audit_digests : RowidTable AuditDigest := .empty

/-- The digests of a source, in the order of their ids. -/
def AuditDb.digests (source : String) (db : AuditDb) : List AuditDigest :=
  db.audit_digests.rows.filter (·.source = source)

/-! ## Digests -/

/-- The array that `canonicalEntitlementEvent` writes. -/
def canonicalFields (row : EntitlementEvent) : List Scalar := [
  .number row.id,
  .number row.created_at,
  .text row.project.toList,
  .text row.feature.toList,
  .text row.license_fingerprint.toList,
  .text row.event_type.toList,
  .text row.status.toList,
  .number row.revocation_seq,
  .text row.detail.toList,
  .text row.actor.toList,
  .text row.actor_type.toList,
  .text row.source.toList,
  .text row.prev_json.toList,
  .text row.next_json.toList,
  .text row.reason.toList]

def canonicalEntitlementEvent (row : EntitlementEvent) : List Char := arrayText (canonicalFields row)

/-- The text of some bytes in lower-case hexadecimal digits. -/
def hexText (bs : Bytes) : List Char :=
  bs.flatMap fun b => [hexDigit (b.toNat / 16), hexDigit (b.toNat % 16)]

section
variable (sha256 : Bytes → Bytes)

/-- `sha256Hex`, for the SHA-256 of the platform. -/
def sha256Hex (text : List Char) : String := String.ofList (hexText (sha256 (utf8 text)))

/-- The text that a segment hashes. -/
def segmentText (prevDigest : String) (canonicalEvents : List (List Char)) : List Char :=
  prevDigest.toList ++ '\n' :: List.intercalate ['\n'] canonicalEvents

def computeSegmentDigest (prevDigest : String) (canonicalEvents : List (List Char)) : String :=
  sha256Hex sha256 (segmentText prevDigest canonicalEvents)

/-! ## Appending -/

def auditDigestBatch : Nat := 1000

structure LastDigest where
  up_to_id : Int
  digest : String

def lastDigest (source : String) (db : AuditDb) : Option LastDigest :=
  (db.digests source).getLast?.map fun row => ⟨jsNumber row.up_to_id, row.digest⟩

def LastDigest.cursor : Option LastDigest → Int
  | none => 0
  | some last => last.up_to_id

def LastDigest.prevDigest : Option LastDigest → String
  | none => ""
  | some last => last.digest

/-- The events of the next segment. -/
def nextEvents (last : Option LastDigest) (db : AuditDb) : List EntitlementEvent :=
  (db.entitlement_events.above (LastDigest.cursor last)).take auditDigestBatch

/-- What `appendAuditDigest` inserts after its two reads. -/
def nextSegment (source : String) (now : Int) (last : Option LastDigest)
    (rows : List EntitlementEvent) : Option Segment :=
  rows.getLast?.map fun row => {
    source := source
    up_to_id := jsNumber row.id
    event_count := rows.length
    prev_digest := LastDigest.prevDigest last
    digest := computeSegmentDigest sha256 (LastDigest.prevDigest last)
      (rows.map canonicalEntitlementEvent)
    created_at := now }

/-! ## Verifying -/

inductive Verification where
  | ok (checked : Nat)
  | broken (checked : Nat) (brokenAt : Int) (reason : String)

/-- The loop of `verifyAuditChain`. -/
def verifyFrom (events : RowidTable EntitlementEvent) :
    List AuditDigest → String → Int → Nat → Verification
  | [], _, _, checked => .ok checked
  | d :: rest, prevDigest, cursor, checked =>
    let rows := events.between cursor (jsNumber d.up_to_id)
    if d.prev_digest ≠ prevDigest then .broken checked (jsNumber d.id) "prev_digest_mismatch"
    else if (rows.length : Int) ≠ jsNumber d.event_count then
      .broken checked (jsNumber d.id) "event_count_mismatch"
    else if computeSegmentDigest sha256 prevDigest (rows.map canonicalEntitlementEvent) ≠ d.digest then
      .broken checked (jsNumber d.id) "digest_mismatch"
    else verifyFrom events rest d.digest (jsNumber d.up_to_id) (checked + 1)

def verifyAuditChain (source : String) (db : AuditDb) : Verification :=
  verifyFrom sha256 db.entitlement_events (db.digests source) "" 0 0

def Verification.isOk : Verification → Bool
  | ok _ => true
  | broken .. => false

end

/-! ## The laws of a digest -/

/-- What the digest takes for granted of the hash: no two texts have one hash, and no
hash is empty. -/
structure CollisionFree (sha256 : Bytes → Bytes) : Prop where
  injective : Function.Injective sha256
  not_empty : ∀ bs, sha256 bs ≠ []

theorem hexText_injective {bs bs' : Bytes} (h : hexText bs = hexText bs') : bs = bs' := by
  have hbyte : ∀ b b' : UInt8, hexDigit (b.toNat / 16) = hexDigit (b'.toNat / 16) →
      hexDigit (b.toNat % 16) = hexDigit (b'.toNat % 16) → b = b' := by
    intro b b' h1 h2
    have hlt := b.toNat_lt
    have hlt' := b'.toNat_lt
    have h1 := congrArg hexValue h1
    have h2 := congrArg hexValue h2
    rw [hexValue_hexDigit (by omega), hexValue_hexDigit (by omega)] at h1 h2
    exact UInt8.toNat_inj.mp (by omega)
  induction bs generalizing bs' with
  | nil =>
    cases bs' with
    | nil => rfl
    | cons b bs' => cases h
  | cons b bs ih =>
    cases bs' with
    | nil => cases h
    | cons b' bs' =>
      simp only [hexText, List.flatMap_cons, List.cons_append, List.nil_append, List.cons.injEq] at h
      rw [hbyte b b' h.1 h.2.1, ih h.2.2]

theorem newline_not_mem_hexText (bs : Bytes) : '\n' ∉ hexText bs := by
  have hhex : ∀ n < 16, hexDigit n ≠ '\n' := by decide
  simp only [hexText, List.mem_flatMap, List.mem_cons, List.not_mem_nil, or_false, not_exists,
    not_and, not_or]
  intro b _
  have hlt := b.toNat_lt
  exact ⟨fun h => hhex _ (by omega) h.symm, fun h => hhex _ (by omega) h.symm⟩

section
variable {sha256 : Bytes → Bytes}

theorem CollisionFree.text (h : CollisionFree sha256) {s t : List Char}
    (he : sha256Hex sha256 s = sha256Hex sha256 t) : s = t := by
  have hhex := congrArg String.toList he
  simp only [sha256Hex, String.toList_ofList] at hhex
  exact utf8_injective (h.injective (hexText_injective hhex))

theorem newline_not_mem_digest (s : List Char) : '\n' ∉ (sha256Hex sha256 s).toList := by
  simp only [sha256Hex, String.toList_ofList]
  exact newline_not_mem_hexText _

theorem CollisionFree.digest_ne (h : CollisionFree sha256) (s : List Char) :
    sha256Hex sha256 s ≠ "" := by
  intro he
  have hhex := congrArg String.toList he
  simp only [sha256Hex, String.toList_ofList] at hhex
  cases hs : sha256 (utf8 s) with
  | nil => exact h.not_empty _ hs
  | cons b bs =>
    rw [hs] at hhex
    cases hhex

/-- What JavaScript reads of an event. -/
def eventValues (row : EntitlementEvent) : List Scalar := (canonicalFields row).map Scalar.value

theorem values_of_canonical {a b : EntitlementEvent}
    (h : canonicalEntitlementEvent a = canonicalEntitlementEvent b) : eventValues a = eventValues b :=
  arrayText_values rfl h

/-- The text of a segment ends each of its parts. -/
theorem segmentText_injective {prev prev' : String} {cs cs' : List (List Char)}
    (hp : '\n' ∉ prev.toList) (hp' : '\n' ∉ prev'.toList) (hc : ∀ c ∈ cs, '\n' ∉ c)
    (hc' : ∀ c ∈ cs', '\n' ∉ c) (hne : cs ≠ []) (hne' : cs' ≠ [])
    (h : segmentText prev cs = segmentText prev' cs') : prev = prev' ∧ cs = cs' := by
  have hlines : ∀ (p : String) (l : List (List Char)), l ≠ [] →
      segmentText p l ++ ['\n'] = unlines '\n' (p.toList :: l) := by
    intro p l hl
    unfold segmentText
    rw [List.append_assoc, List.cons_append, intercalate_end hl, unlines_cons]
  have hall : ∀ (p : String) (l : List (List Char)), '\n' ∉ p.toList → (∀ c ∈ l, '\n' ∉ c) →
      ∀ c ∈ p.toList :: l, '\n' ∉ c := by
    intro p l h1 h2 c hmem
    rcases List.mem_cons.mp hmem with rfl | hmem
    · exact h1
    · exact h2 c hmem
  have heq := unlines_injective (hall prev cs hp hc) (hall prev' cs' hp' hc')
    ((hlines prev cs hne).symm.trans ((congrArg (· ++ ['\n']) h).trans (hlines prev' cs' hne')))
  obtain ⟨h1, h2⟩ := List.cons.inj heq
  exact ⟨String.toList_injective h1, h2⟩

/-- Two segments with one digest follow one digest and have events of the same
values. -/
theorem CollisionFree.segment (h : CollisionFree sha256) {prev prev' : String}
    {rows rows' : List EntitlementEvent} (hp : '\n' ∉ prev.toList) (hp' : '\n' ∉ prev'.toList)
    (hne : rows ≠ []) (hne' : rows' ≠ [])
    (he : computeSegmentDigest sha256 prev (rows.map canonicalEntitlementEvent) =
      computeSegmentDigest sha256 prev' (rows'.map canonicalEntitlementEvent)) :
    prev = prev' ∧ rows.map eventValues = rows'.map eventValues := by
  have hline : ∀ l : List EntitlementEvent, ∀ c ∈ l.map canonicalEntitlementEvent, '\n' ∉ c := by
    intro l c hc
    obtain ⟨row, -, rfl⟩ := List.mem_map.mp hc
    exact newline_not_mem_arrayText _
  obtain ⟨hprev, hcanonical⟩ := segmentText_injective hp hp' (hline rows) (hline rows')
    (by simpa using hne) (by simpa using hne') (h.text he)
  refine ⟨hprev, ?_⟩
  clear he hne hne'
  induction rows generalizing rows' with
  | nil =>
    cases rows' with
    | nil => rfl
    | cons => cases hcanonical
  | cons row rows ih =>
    cases rows' with
    | nil => cases hcanonical
    | cons row' rows' =>
      obtain ⟨h1, h2⟩ := List.cons.inj hcanonical
      rw [List.map_cons, List.map_cons, values_of_canonical h1, ih h2]

end

end Licensecc.Audit
