-- The runs that append a digest, as programs over the database of the audit. A run
-- reads the last digest, then the events after it, and then inserts a segment, and
-- the mutators insert events at any time.
import Licensecc.Audit.Chain
import Licensecc.Conc.Schedule
import Licensecc.Conc.Serial
import Licensecc.Conc.World

open Licensecc.Codec Licensecc.Sql Licensecc.Conc

namespace Licensecc.Audit

/-! ## The database -/

def AuditDb.insertEvent (row : EntitlementEvent) (db : AuditDb) : AuditDb :=
  if h : db.entitlement_events.Next row then
    { db with entitlement_events := db.entitlement_events.append row h }
  else db

def AuditDb.insertDigest (row : AuditDigest) (db : AuditDb) : AuditDb :=
  if h : db.audit_digests.Next row then
    { db with audit_digests := db.audit_digests.append row h }
  else db

/-- A write. The insert of a segment has with it what its run has read before, which
only the laws look at. -/
inductive AuditWrite where
  | event (columns : EventColumns)
  | segment (read : Option LastDigest) (s : Segment)

abbrev AuditEntry := Entry AuditDb AuditWrite Unit

/-- The database with a log of its writes, which no program reads. -/
structure AuditWorld where
  db : AuditDb
  log : List AuditEntry

/-- The ids that the next rows get. -/
structure NextIds where
  event : Int
  digest : Int

/-- An `AUTOINCREMENT` id is above all ids that were there. A database never holds
as many rows as JavaScript has integers. -/
structure NextIds.Admits (i : NextIds) (w : AuditWorld) : Prop where
  event_above : ∀ r ∈ w.db.entitlement_events.rows, r.id < i.event
  event_range : 0 < i.event ∧ i.event < 2 ^ 53
  digest_above : ∀ r ∈ w.db.audit_digests.rows, r.id < i.digest

instance (i : NextIds) (w : AuditWorld) : Decidable (i.Admits w) :=
  decidable_of_iff ((∀ r ∈ w.db.entitlement_events.rows, r.id < i.event) ∧
      (0 < i.event ∧ i.event < 2 ^ 53) ∧ ∀ r ∈ w.db.audit_digests.rows, r.id < i.digest)
    ⟨fun h => ⟨h.1, h.2.1, h.2.2⟩, fun h => ⟨h.1, h.2, h.3⟩⟩

def AuditWrite.apply (i : NextIds) (db : AuditDb) : AuditWrite → AuditDb
  | event columns => db.insertEvent { toEventColumns := columns, id := i.event }
  | segment _ s => db.insertDigest { toSegment := s, id := i.digest }

/-! ## The programs -/

abbrev AuditProg := Prog AuditWorld AuditWrite Unit

/-- `appendAuditDigest`. The value is the segment that it has inserted. -/
def appendAuditDigest (sha256 : Bytes → Bytes) (source : String) (now : Int) :
    AuditProg (Option Segment) := do
  let last ← Prog.query fun w => lastDigest source w.db
  let rows ← Prog.query fun w => nextEvents last w.db
  match nextSegment sha256 source now last rows with
  | none => return none
  | some s =>
    let _ ← Prog.request (.segment last s)
    return some s

/-- The insert of an event by a mutator. -/
def recordEvent (columns : EventColumns) : AuditProg (Option Segment) := do
  let _ ← Prog.request (.event columns)
  return none

inductive AuditRun (sha256 : Bytes → Bytes) : AuditProg (Option Segment) → Prop
  | append (source : String) (now : Int) : AuditRun sha256 (appendAuditDigest sha256 source now)
  | event (columns : EventColumns) : AuditRun sha256 (recordEvent columns)

def execAudit (i : NextIds) (write : AuditWrite) (w : AuditWorld) : Unit × AuditWorld :=
  ((), ⟨write.apply i w.db, ⟨write, (), w.db, write.apply i w.db⟩ :: w.log⟩)

/-- The runs that append and the mutators, all at once. -/
def auditSystem (sha256 : Bytes → Bytes) :
    System AuditWorld AuditWrite Unit NextIds (Option Segment) :=
  ⟨execAudit, NextIds.Admits, AuditRun sha256⟩

/-! ## The laws of one write -/

variable {sha256 : Bytes → Bytes} {db db' : AuditDb} {w w' : AuditWorld} {i : NextIds}
  {source : String} {s : Segment} {columns : EventColumns} {read : Option LastDigest}

/-- Digests and events that are only appended. -/
structure Grows (db db' : AuditDb) : Prop where
  events : db.entitlement_events.Extends db'.entitlement_events
  digests : ∀ source, db.digests source <+: db'.digests source
  safe : SafeIds db'.entitlement_events

theorem Grows.refl (h : SafeIds db.entitlement_events) : Grows db db :=
  ⟨.refl _, fun _ => List.prefix_refl _, h⟩

theorem Grows.trans {db'' : AuditDb} (h : Grows db db') (h' : Grows db' db'') : Grows db db'' :=
  ⟨h.events.trans h'.events, fun source => (h.digests source).trans (h'.digests source), h'.safe⟩

theorem apply_event (columns : EventColumns) (hi : i.Admits w) : ∃ h, (AuditWrite.event columns).apply i w.db =
    ⟨w.db.entitlement_events.append { toEventColumns := columns, id := i.event } h,
      w.db.audit_digests⟩ :=
  ⟨hi.event_above, dif_pos hi.event_above⟩

theorem apply_segment (read : Option LastDigest) (s : Segment) (hi : i.Admits w) : ∃ h, (AuditWrite.segment read s).apply i w.db =
    ⟨w.db.entitlement_events,
      w.db.audit_digests.append { toSegment := s, id := i.digest } h⟩ :=
  ⟨hi.digest_above, dif_pos hi.digest_above⟩

/-- A new segment is the last digest of its source. -/
theorem digests_segment (read : Option LastDigest) (s : Segment) (hi : i.Admits w)
    (source : String) :
    ((AuditWrite.segment read s).apply i w.db).digests source = w.db.digests source ++
      if s.source = source then [{ toSegment := s, id := i.digest }] else [] := by
  obtain ⟨h, happly⟩ := apply_segment read s hi
  rw [happly]
  simp only [AuditDb.digests, RowidTable.append, List.filter_append]
  by_cases hs : s.source = source
  · simp [hs]
  · simp [hs]

theorem digests_event (columns : EventColumns) (hi : i.Admits w) (source : String) :
    ((AuditWrite.event columns).apply i w.db).digests source = w.db.digests source := by
  obtain ⟨h, happly⟩ := apply_event columns hi
  rw [happly]
  rfl

theorem apply_grows (hs : SafeIds w.db.entitlement_events) (hi : i.Admits w) (write : AuditWrite) :
    Grows w.db (write.apply i w.db) := by
  cases write with
  | event columns =>
    obtain ⟨h, happly⟩ := apply_event columns hi
    rw [happly]
    refine ⟨.append h, fun _ => List.prefix_refl _, fun r hr => ?_⟩
    rcases (RowidTable.mem_append (h := h)).mp hr with hr | rfl
    · exact hs r hr
    · exact hi.event_range
  | segment read s =>
    have hsource := digests_segment read s hi
    obtain ⟨h, happly⟩ := apply_segment read s hi
    refine ⟨?_, fun source => ?_, ?_⟩
    · rw [happly]
      exact .refl _
    · rw [hsource source]
      exact List.prefix_append _ _
    · rw [happly]
      exact hs

/-! ## The last digest -/

/-- The last digest of a list. -/
def lastOf (ds : List AuditDigest) : Option LastDigest :=
  ds.getLast?.map fun row => ⟨jsNumber row.up_to_id, row.digest⟩

theorem lastDigest_eq : lastDigest source db = lastOf (db.digests source) := rfl

/-- The last digest of a chain is where the chain ends. -/
theorem Chain.last {events : RowidTable EntitlementEvent} {ds : List AuditDigest} {prev : String}
    {cursor : Int} (h : Chain sha256 events ds prev cursor) (hc : 0 ≤ cursor) (hne : ds ≠ []) :
    lastOf ds = some ⟨endCursor ds cursor, endDigest ds prev⟩ := by
  induction ds generalizing prev cursor with
  | nil => exact absurd rfl hne
  | cons d rest ih =>
    have hd := h.1.up_to hc
    cases rest with
    | nil => simp [lastOf, endCursor, endDigest, hd]
    | cons e rest =>
      have hahead := h.1.ahead
      have hrest := ih h.2 (by omega) (List.cons_ne_nil _ _)
      unfold lastOf at hrest ⊢
      rw [List.getLast?_cons_cons]
      exact hrest

theorem Chain.end_eq {events : RowidTable EntitlementEvent} {ds : List AuditDigest}
    (h : Chain sha256 events ds "" 0) :
    LastDigest.cursor (lastOf ds) = endCursor ds 0 ∧
      LastDigest.prevDigest (lastOf ds) = endDigest ds "" := by
  by_cases hne : ds = []
  · subst hne
    exact ⟨rfl, rfl⟩
  · rw [h.last le_rfl hne]
    exact ⟨rfl, rfl⟩

/-! ## The laws of a run -/

/-- The segment covers the events after what its run has read. -/
def Drafted (sha256 : Bytes → Bytes) (read : Option LastDigest) (s : Segment) (db : AuditDb) : Prop :=
  Covers sha256 db.entitlement_events s (LastDigest.prevDigest read) (LastDigest.cursor read)

/-- The segment that a run hashes covers the events that it has read. -/
theorem drafted_next {now : Int} (hs : SafeIds db.entitlement_events)
    (h : nextSegment sha256 source now read (nextEvents read db) = some s) :
    Drafted sha256 read s db := by
  obtain ⟨row, hlast, rfl⟩ := Option.map_eq_some_iff.mp h
  have hmem : row ∈ nextEvents read db := List.mem_of_getLast? hlast
  obtain ⟨hin, hahead⟩ := RowidTable.mem_above.mp (List.mem_of_mem_take hmem)
  have hsafe := hs row hin
  have hid : jsNumber row.id = row.id := jsNumber_small (by omega) hsafe.2
  have hrows : db.entitlement_events.between (LastDigest.cursor read) row.id = nextEvents read db :=
    RowidTable.between_of_take hlast
  refine ⟨?_, ?_, ⟨row, hin, hid.symm⟩, ?_, rfl, ?_, ?_⟩ <;> simp only [hid]
  · exact hahead
  · exact hsafe.2
  · rw [hrows]
    exact List.length_take_le _ _
  · rw [hrows]
  · rw [hrows]

/-- An event leaves the chain of a source. -/
theorem Chain.after_event (h : Chain sha256 w.db.entitlement_events (w.db.digests source) "" 0)
    (hs : SafeIds w.db.entitlement_events) (hi : i.Admits w) :
    Chain sha256 ((AuditWrite.event columns).apply i w.db).entitlement_events
      (((AuditWrite.event columns).apply i w.db).digests source) "" 0 := by
  rw [digests_event columns hi source]
  exact h.extends (apply_grows hs hi (.event columns)).events

/-- A segment goes on with the chain of its source when its run has read the last
digest. -/
theorem Chain.after_segment (h : Chain sha256 w.db.entitlement_events (w.db.digests source) "" 0)
    (hs : SafeIds w.db.entitlement_events) (hi : i.Admits w) (hdraft : Drafted sha256 read s w.db)
    (hlast : s.source = source → lastDigest source w.db = read) :
    Chain sha256 ((AuditWrite.segment read s).apply i w.db).entitlement_events
      (((AuditWrite.segment read s).apply i w.db).digests source) "" 0 := by
  have hgrows := apply_grows hs hi (.segment read s)
  have hchain := h.extends hgrows.events
  rw [digests_segment read s hi source]
  by_cases hsource : s.source = source
  · obtain ⟨hcursor, hprev⟩ := h.end_eq
    rw [← lastDigest_eq, hlast hsource] at hcursor hprev
    rw [if_pos hsource]
    refine hchain.append ?_
    rw [← hcursor, ← hprev]
    exact hdraft.extends hgrows.events
  · rw [if_neg hsource, List.append_nil]
    exact hchain

theorem Drafted.grows (h : Drafted sha256 read s db) (hg : Grows db db') :
    Drafted sha256 read s db' := h.extends hg.events

/-- Each segment is drafted, and what its run has read meets a condition. -/
def Proper (sha256 : Bytes → Bytes) (P : String → Option LastDigest → AuditWorld → Prop) :
    AuditWrite → AuditWorld → Prop
  | .event _, _ => True
  | .segment read s, w => Drafted sha256 read s w.db ∧ P s.source read w

/-- A run writes a drafted segment, for every condition that its read meets and that
the others keep. -/
theorem run_safe {rely : AuditWorld → AuditWorld → Prop}
    {P : String → Option LastDigest → AuditWorld → Prop}
    (hgrows : ∀ {w w'}, rely w w' → Grows w.db w'.db)
    (hread : ∀ source w, P source (lastDigest source w.db) w)
    (hkeep : ∀ {source read w w'}, P source read w → rely w w' → P source read w')
    {p : AuditProg (Option Segment)} (hp : AuditRun sha256 p) (w : AuditWorld) :
    p.Safe ((auditSystem sha256).env rely) (Proper sha256 P) (fun _ _ => True) w := by
  cases hp with
  | append source now =>
    -- What the first read finds lasts to the write, and the second read is drafted from it.
    refine Prog.Safe.bind (Prog.Safe.query (Q := fun read w => P source read w)
      fun w₁ _ _ h => hkeep (hread source w₁) h) fun read w₁ hP => ?_
    refine Prog.Safe.bind (Prog.Safe.query
      (Q := fun rows w => P source read w ∧ ∀ s, nextSegment sha256 source now read rows = some s →
        Drafted sha256 read s w.db)
      fun w₂ _ h2 h => ⟨hkeep (hP w₂ h2) h, fun s hs =>
        (drafted_next (hgrows h2).safe hs).grows (hgrows h)⟩) fun rows w₂ hdraft => ?_
    cases hs : nextSegment sha256 source now read rows with
    | none => exact fun _ _ => trivial
    | some s =>
      have hsource : s.source = source := by
        obtain ⟨row, -, rfl⟩ := Option.map_eq_some_iff.mp hs
        rfl
      intro w₃ h3
      refine ⟨⟨(hdraft w₃ h3).2 s hs, ?_⟩, fun _ _ => trivial, fun _ _ _ _ => trivial⟩
      rw [hsource]
      exact (hdraft w₃ h3).1
  | event columns => exact fun _ _ => ⟨trivial, fun _ _ => trivial, fun _ _ _ _ => trivial⟩

end Licensecc.Audit
