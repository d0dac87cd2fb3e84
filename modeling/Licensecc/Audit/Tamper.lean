-- Runs one after another, with events inserted at any time, keep a chain over the
-- events. Whoever changes a covered event or a digest of it breaks the chain.
import Licensecc.Audit.Append
import Mathlib.Data.List.Nodup

open Licensecc.Codec Licensecc.Sql Licensecc.Conc

namespace Licensecc.Audit

variable {sha256 : Bytes → Bytes} {events events' : RowidTable EntitlementEvent}
  {db db' : AuditDb} {w w' : AuditWorld} {source : String} {ds ds' before after : List AuditDigest}
  {d d' : AuditDigest} {prev : String} {cursor : Int} {checked checked' : Nat}

/-! ## Changes of the events -/

/-- Events that verify with the digests of a chain have the values of its events. -/
theorem Chain.same_values (hfree : CollisionFree sha256) (hp : '\n' ∉ prev.toList)
    (h : Chain sha256 events ds prev cursor) (hc : 0 ≤ cursor)
    (hok : (verifyFrom sha256 events' ds prev cursor checked).isOk = true) (v : List Scalar) :
    v ∈ (events'.between cursor (endCursor ds cursor)).map eventValues ↔
      v ∈ (events.between cursor (endCursor ds cursor)).map eventValues := by
  induction ds generalizing prev cursor checked with
  | nil => simp [endCursor, RowidTable.between_self]
  | cons d rest ih =>
    obtain ⟨hd, hrest⟩ := h
    have hahead := hd.ahead
    have hcount := hd.count_small
    obtain ⟨-, hlen, hdigest, hok⟩ := verifyFrom_cons.mp hok
    rw [hd.up_to hc] at hlen hdigest hok
    rw [jsNumber_small (by omega) hcount.2, hd.event_count] at hlen
    have hne : events'.between cursor d.up_to_id ≠ [] := by
      intro hnil
      rw [hnil, eq_comm] at hlen
      exact hd.covered (List.length_eq_zero_iff.mp (Int.ofNat.inj hlen))
    have hsame : (events'.between cursor d.up_to_id).map eventValues =
        (events.between cursor d.up_to_id).map eventValues :=
      (hfree.segment hp hp hne hd.covered (hdigest.trans hd.digest)).2
    have hnewline : '\n' ∉ d.digest.toList := by
      rw [hd.digest]
      exact newline_not_mem_digest _
    have hlater := ih hnewline hrest (by omega) hok
    have hend : d.up_to_id ≤ endCursor rest d.up_to_id := hrest.le_end
    simp only [endCursor]
    rw [RowidTable.between_append hahead.le hend, RowidTable.between_append hahead.le hend,
      List.map_append, List.map_append, List.mem_append, List.mem_append, hsame, hlater]

/-- The rows that the digests of a source cover. -/
def CoveredId (source : String) (db : AuditDb) (id : Int) : Prop :=
  0 < id ∧ id ≤ LastDigest.cursor (lastDigest source db)

/-- What a run leaves: for each source a chain over the events. -/
structure Sound (sha256 : Bytes → Bytes) (db : AuditDb) : Prop where
  safe : SafeIds db.entitlement_events
  chain : ∀ source, Chain sha256 db.entitlement_events (db.digests source) "" 0

/-- A covered event stays, with its values, in every database that verifies. -/
theorem Sound.event_stays (hfree : CollisionFree sha256) (h : Sound sha256 db)
    (hsame : db'.audit_digests = db.audit_digests)
    (hok : (verifyAuditChain sha256 source db').isOk = true) {row : EntitlementEvent}
    (hrow : row ∈ db.entitlement_events) (hid : CoveredId source db row.id) :
    ∃ r ∈ db'.entitlement_events, eventValues r = eventValues row := by
  unfold verifyAuditChain AuditDb.digests at hok
  rw [hsame] at hok
  have hend := (h.chain source).end_eq.1
  have hin : eventValues row ∈ (db.entitlement_events.between 0
      (endCursor (db.digests source) 0)).map eventValues := by
    refine List.mem_map_of_mem (RowidTable.mem_between.mpr ⟨hrow, hid.1, ?_⟩)
    rw [← hend]
    exact hid.2
  rw [← (h.chain source).same_values hfree (by simp) le_rfl hok] at hin
  obtain ⟨r, hr, hv⟩ := List.mem_map.mp hin
  exact ⟨r, (RowidTable.mem_between.mp hr).1, hv⟩

/-- Each event in the covered range of a database that verifies was there. -/
theorem Sound.event_was (hfree : CollisionFree sha256) (h : Sound sha256 db)
    (hsame : db'.audit_digests = db.audit_digests)
    (hok : (verifyAuditChain sha256 source db').isOk = true) {row : EntitlementEvent}
    (hrow : row ∈ db'.entitlement_events) (hid : CoveredId source db row.id) :
    ∃ r ∈ db.entitlement_events, eventValues r = eventValues row := by
  unfold verifyAuditChain AuditDb.digests at hok
  rw [hsame] at hok
  have hend := (h.chain source).end_eq.1
  have hin : eventValues row ∈ (db'.entitlement_events.between 0
      (endCursor (db.digests source) 0)).map eventValues := by
    refine List.mem_map_of_mem (RowidTable.mem_between.mpr ⟨hrow, hid.1, ?_⟩)
    rw [← hend]
    exact hid.2
  rw [(h.chain source).same_values hfree (by simp) le_rfl hok] at hin
  obtain ⟨r, hr, hv⟩ := List.mem_map.mp hin
  exact ⟨r, (RowidTable.mem_between.mp hr).1, hv⟩

/-! ## Changes of the digests -/

/-- Digests of the same ranges that verify have the same columns. -/
theorem verified_columns
    (hok : (verifyFrom sha256 events ds prev cursor checked).isOk = true)
    (hok' : (verifyFrom sha256 events ds' prev cursor checked').isOk = true)
    (hup : ds'.map (·.up_to_id) = ds.map (·.up_to_id)) :
    ds'.map (fun d => (d.prev_digest, jsNumber d.event_count, d.digest)) =
      ds.map fun d => (d.prev_digest, jsNumber d.event_count, d.digest) := by
  induction ds generalizing ds' prev cursor checked checked' with
  | nil =>
    rw [List.map_eq_nil_iff.mp hup]
  | cons d rest ih =>
    cases ds' with
    | nil => cases hup
    | cons d' rest' =>
      simp only [List.map_cons, List.cons.injEq] at hup
      obtain ⟨hprev, hlen, hdigest, hrest⟩ := verifyFrom_cons.mp hok
      obtain ⟨hprev', hlen', hdigest', hrest'⟩ := verifyFrom_cons.mp hok'
      rw [hup.1] at hlen' hdigest' hrest'
      have hsame : d'.digest = d.digest := hdigest'.symm.trans hdigest
      rw [hsame] at hrest'
      rw [List.map_cons, List.map_cons, ih hrest hrest' hup.2, hprev', hprev, hsame, ← hlen', ← hlen]

/-- Segments in which each follows the one before it. -/
def Linked : List Segment → String → Prop
  | [], _ => True
  | s :: rest, prev => s.prev_digest = prev ∧ Linked rest s.digest

theorem linked_of_verified (hok : (verifyFrom sha256 events ds prev cursor checked).isOk = true) :
    Linked (ds.map AuditDigest.toSegment) prev := by
  induction ds generalizing prev cursor checked with
  | nil => trivial
  | cons d rest ih =>
    obtain ⟨hprev, -, -, hrest⟩ := verifyFrom_cons.mp hok
    exact ⟨hprev, ih hrest⟩

/-- Two segments after the same ones follow the same digest. -/
theorem Linked.same_prev {older rest rest' : List Segment} {s s' : Segment}
    (h : Linked (older ++ s :: rest) prev) (h' : Linked (older ++ s' :: rest') prev) :
    s'.prev_digest = s.prev_digest := by
  induction older generalizing prev with
  | nil => exact h'.1.trans h.1.symm
  | cons e older ih => exact ih h.2 h'.2

/-- Segments that follow distinct digests are linked in one order only. -/
theorem Linked.unique {ss ss' : List Segment} (h : Linked ss prev) (h' : Linked ss' prev)
    (hnodup : (ss.map (·.prev_digest)).Nodup) (hperm : ss'.Perm ss) : ss' = ss := by
  induction ss generalizing ss' prev with
  | nil => exact hperm.eq_nil
  | cons s rest ih =>
    cases ss' with
    | nil => exact absurd hperm.symm.eq_nil (List.cons_ne_nil _ _)
    | cons s' rest' =>
      have hmem : s' ∈ s :: rest := hperm.subset List.mem_cons_self
      have hs : s' = s :=
        List.inj_on_of_nodup_map hnodup hmem List.mem_cons_self (h'.1.trans h.1.symm)
      subst hs
      rw [List.map_cons, List.nodup_cons] at hnodup
      rw [ih h.2 h'.2 hnodup.2 ((List.perm_cons _).mp hperm)]

theorem Chain.count_of_mem (h : Chain sha256 events ds prev cursor) (hd : d ∈ ds) :
    0 ≤ d.event_count ∧ d.event_count < 2 ^ 53 := by
  induction ds generalizing prev cursor with
  | nil => cases hd
  | cons e rest ih =>
    rcases List.mem_cons.mp hd with rfl | hd
    · exact h.1.count_small
    · exact ih h.2 hd

/-! ## Tampering -/

/-- One change behind the back of the runs, for a view of the events. -/
inductive Tampered (view : EntitlementEvent → List Scalar) (source : String) (db db' : AuditDb) : Prop
  | modified {row row' : EntitlementEvent} : row ∈ db.entitlement_events →
      CoveredId source db row.id → view row' ≠ view row →
      (∀ r, r ∈ db'.entitlement_events ↔ r ∈ db.entitlement_events ∧ r ≠ row ∨ r = row') →
      db'.audit_digests = db.audit_digests → Tampered view source db db'
  | deleted {row : EntitlementEvent} : row ∈ db.entitlement_events →
      CoveredId source db row.id →
      (∀ r, r ∈ db'.entitlement_events ↔ r ∈ db.entitlement_events ∧ r ≠ row) →
      db'.audit_digests = db.audit_digests → Tampered view source db db'
  | inserted {row : EntitlementEvent} : ¬ row ∈ db.entitlement_events →
      CoveredId source db row.id →
      (∀ r, r ∈ db'.entitlement_events ↔ r ∈ db.entitlement_events ∨ r = row) →
      db'.audit_digests = db.audit_digests → Tampered view source db db'
  | digestChanged {before after : List AuditDigest} {d d' : AuditDigest} :
      db.digests source = before ++ d :: after → db'.digests source = before ++ d' :: after →
      d'.up_to_id = d.up_to_id →
      (d'.digest ≠ d.digest ∨ d'.prev_digest ≠ d.prev_digest ∨ d'.event_count ≠ d.event_count) →
      db'.entitlement_events = db.entitlement_events → Tampered view source db db'
  | digestRemoved {before after : List AuditDigest} {d : AuditDigest} : after ≠ [] →
      db.digests source = before ++ d :: after → db'.digests source = before ++ after →
      db'.entitlement_events = db.entitlement_events → Tampered view source db db'
  | digestsReordered :
      ((db'.digests source).map AuditDigest.toSegment).Perm
        ((db.digests source).map AuditDigest.toSegment) →
      (db'.digests source).map AuditDigest.toSegment ≠
        (db.digests source).map AuditDigest.toSegment →
      db'.entitlement_events = db.entitlement_events → Tampered view source db db'

theorem Sound.verifies (h : Sound sha256 db) (source : String) :
    (verifyAuditChain sha256 source db).isOk = true := (h.chain source).verifies le_rfl

theorem Sound.prevs_nodup (h : Sound sha256 db) (source : String) (hfree : CollisionFree sha256) :
    ((db.digests source).map (·.prev_digest)).Nodup :=
  (h.chain source).prevs_nodup hfree h.safe (by simp) (unused_empty hfree)

theorem Sound.same_columns (h : Sound sha256 db)
    (hsame : db'.entitlement_events = db.entitlement_events)
    (hok : (verifyAuditChain sha256 source db').isOk = true)
    (hd : db.digests source = before ++ d :: after)
    (hd' : db'.digests source = before ++ d' :: after) (hup : d'.up_to_id = d.up_to_id) :
    d'.prev_digest = d.prev_digest ∧ d'.event_count = d.event_count ∧ d'.digest = d.digest := by
  have hchain := h.chain source
  have hwas := h.verifies source
  unfold verifyAuditChain at hok hwas
  rw [hsame, hd'] at hok
  have hcount := hchain.count_of_mem (d := d) (by simp [hd])
  rw [hd] at hwas
  have hall := verified_columns hwas hok (by simp [hup])
  simp only [List.map_append, List.map_cons, List.append_cancel_left_eq, List.cons.injEq,
    Prod.mk.injEq] at hall
  obtain ⟨⟨hprev, hnumber, hdigest⟩, -⟩ := hall
  rw [jsNumber_small (n := d.event_count) (by omega) hcount.2] at hnumber
  exact ⟨hprev, eq_of_jsNumber (by omega) hcount.2 hnumber, hdigest⟩

/-- Tampering shows. -/
theorem Sound.tampered (hfree : CollisionFree sha256) (h : Sound sha256 db)
    (ht : Tampered eventValues source db db') : (verifyAuditChain sha256 source db').isOk = false := by
  by_contra hne
  have hok : (verifyAuditChain sha256 source db').isOk = true := by simpa using hne
  cases ht with
  | @modified row row' hrow hid hview hrows hsame =>
    obtain ⟨r, hr, hv⟩ := h.event_stays hfree hsame hok hrow hid
    rcases (hrows r).mp hr with ⟨hin, hother⟩ | rfl
    · exact hother (RowidTable.unique hin hrow (id_of_values (h.safe row hrow) hv))
    · exact hview hv
  | @deleted row hrow hid hrows hsame =>
    obtain ⟨r, hr, hv⟩ := h.event_stays hfree hsame hok hrow hid
    obtain ⟨hin, hother⟩ := (hrows r).mp hr
    exact hother (RowidTable.unique hin hrow (id_of_values (h.safe row hrow) hv))
  | @inserted row hnew hid hrows hsame =>
    have hrow : row ∈ db'.entitlement_events := (hrows row).mpr (.inr rfl)
    obtain ⟨r, hr, hv⟩ := h.event_was hfree hsame hok hrow hid
    have heq : row = r := RowidTable.unique hrow ((hrows r).mpr (.inl hr))
      (id_of_values (h.safe r hr) hv.symm)
    exact hnew (heq ▸ hr)
  | digestChanged hd hd' hup hdiffers hsame =>
    obtain ⟨hprev, hcount, hdigest⟩ := h.same_columns hsame hok hd hd' hup
    rcases hdiffers with hne | hne | hne
    · exact hne hdigest
    · exact hne hprev
    · exact hne hcount
  | @digestRemoved before after d hafter hd hd' hsame =>
    obtain ⟨e, rest, rfl⟩ := List.exists_cons_of_ne_nil hafter
    have hwas := linked_of_verified (h.verifies source)
    have hnow := linked_of_verified hok
    have hnodup := h.prevs_nodup source hfree
    rw [hd, List.map_append, List.map_cons] at hwas hnodup
    rw [hd', List.map_append, List.map_cons] at hnow
    have hprev : e.prev_digest = d.prev_digest := hwas.same_prev hnow
    rw [List.map_cons, List.nodup_append] at hnodup
    refine absurd hnodup.2.1 ?_
    simp [hprev]
  | digestsReordered hperm hdiffers hsame =>
    refine hdiffers (Linked.unique (linked_of_verified (h.verifies source))
      (linked_of_verified hok) ?_ hperm)
    rw [List.map_map]
    exact h.prevs_nodup source hfree

/-! ## Runs one after another -/

/-- A database with events and no digests. -/
structure Undigested (w : AuditWorld) : Prop where
  safe : SafeIds w.db.entitlement_events
  none : w.db.audit_digests.rows = []
  log : w.log = []

/-- A mutator inserts an event. -/
def Recorded (w w' : AuditWorld) : Prop :=
  ∃ i columns, i.Admits w ∧ w' = (execAudit i (.event columns) w).2

/-- What the others do while one run is under way. -/
structure Meanwhile (w w' : AuditWorld) : Prop where
  grows : Grows w.db w'.db
  digests : ∀ source, w'.db.digests source = w.db.digests source

/-- The last digest is the one that the run has read. -/
def LastRead (source : String) (read : Option LastDigest) (w : AuditWorld) : Prop :=
  lastDigest source w.db = read

theorem Undigested.sound (h : Undigested w) : Sound sha256 w.db := by
  refine ⟨h.safe, fun source => ?_⟩
  unfold AuditDb.digests
  rw [h.none]
  trivial

theorem Recorded.meanwhile (h : Sound sha256 w.db) (hr : Recorded w w') :
    Meanwhile w w' ∧ Sound sha256 w'.db := by
  obtain ⟨i, columns, hi, rfl⟩ := hr
  have hgrows := apply_grows h.safe hi (.event columns)
  exact ⟨⟨hgrows, digests_event columns hi⟩, hgrows.safe,
    fun source => (h.chain source).after_event h.safe hi⟩

/-- A segment that comes after the last digest goes on with the chain. -/
theorem Sound.segment {i : NextIds} {read : Option LastDigest} {s : Segment} (hi : i.Admits w)
    (h : Sound sha256 w.db) (hdraft : Drafted sha256 read s w.db)
    (hlast : lastDigest s.source w.db = read) :
    Sound sha256 ((AuditWrite.segment read s).apply i w.db) := by
  refine ⟨(apply_grows h.safe hi (.segment read s)).safe, fun source => ?_⟩
  exact (h.chain source).after_segment h.safe hi hdraft fun hs => hs ▸ hlast

/-- Runs one after another keep the chain of every source. -/
theorem serial_sound (h0 : Undigested w) (h : (auditSystem sha256).Serial Recorded w w') :
    Sound sha256 w'.db := by
  have hkeeps : (auditSystem sha256).SerialKeeps Recorded Meanwhile (Proper sha256 LastRead)
      fun w => Sound sha256 w.db := by
    refine ⟨fun w h => ⟨.refl h.safe, fun _ => rfl⟩, fun h h' => ⟨h.grows.trans h'.grows,
      fun source => (h'.digests source).trans (h.digests source)⟩,
      fun w w' h hr => hr.meanwhile h, fun i write w hi hproper h => ?_⟩
    cases write with
    | event columns => exact (Recorded.meanwhile h ⟨i, columns, hi, rfl⟩).2
    | segment read s => exact h.segment hi hproper.1 hproper.2
  refine System.serial_safe hkeeps (fun p hp w _ => run_safe (fun h => h.grows) (fun _ _ => rfl) ?_ hp w)
    h0.sound h
  intro source read w w' hread hmeanwhile
  unfold LastRead lastDigest at hread ⊢
  rw [hmeanwhile.digests source]
  exact hread

/-- The chain of every source verifies, and tampering with what it covers shows. -/
theorem tampering_breaks_the_chain (hfree : CollisionFree sha256) (h0 : Undigested w)
    (h : (auditSystem sha256).Serial Recorded w w') :
    (verifyAuditChain sha256 source w'.db).isOk = true ∧
      ∀ db', Tampered eventValues source w'.db db' →
        (verifyAuditChain sha256 source db').isOk = false := by
  have hsound := serial_sound h0 h
  exact ⟨hsound.verifies source, fun db' ht => hsound.tampered hfree ht⟩

/-! ## A run over one event -/

def firstEvent (columns : EventColumns) : EntitlementEvent := { toEventColumns := columns, id := 1 }

/-- A table of one row. -/
def oneEvent (columns : EventColumns) : RowidTable EntitlementEvent :=
  ⟨[firstEvent columns], List.pairwise_singleton _ _⟩

/-- The segment over the first event. -/
def firstSegment (sha256 : Bytes → Bytes) (columns : EventColumns) (now : Int) : Segment where
  source := "entitlement"
  up_to_id := 1
  event_count := 1
  prev_digest := ""
  digest := computeSegmentDigest sha256 "" [canonicalEntitlementEvent (firstEvent columns)]
  created_at := now

def firstDigest (sha256 : Bytes → Bytes) (columns : EventColumns) (now : Int) : AuditDigest :=
  { toSegment := firstSegment sha256 columns now, id := 1 }

def oneDigest (sha256 : Bytes → Bytes) (columns : EventColumns) (now : Int) : AuditDb where
  entitlement_events := oneEvent columns
  audit_digests := ⟨[firstDigest sha256 columns now], List.pairwise_singleton _ _⟩

theorem covered_first {columns : EventColumns} {now : Int} :
    lastDigest "entitlement" (oneDigest sha256 columns now) =
      some ⟨1, (firstDigest sha256 columns now).digest⟩ := by
  have hnumber : jsNumber 1 = 1 := jsNumber_small (by decide) (by decide)
  simp [lastDigest, AuditDb.digests, oneDigest, firstDigest, firstSegment, hnumber]

theorem undigested_empty : Undigested ⟨{}, []⟩ := by
  refine ⟨fun r hr => ?_, rfl, rfl⟩
  cases hr

/-- A run that no other disturbs inserts the next segment. -/
theorem append_alone {i : NextIds} {now : Int} {s : Segment} (hi : i.Admits w)
    (h : nextSegment sha256 source now (lastDigest source w.db)
      (nextEvents (lastDigest source w.db) w.db) = some s) :
    Relation.ReflTransGen ((auditSystem sha256).SoloStep Recorded)
      (appendAuditDigest sha256 source now, w)
      (.done (some s), (execAudit i (.segment (lastDigest source w.db) s) w).2) := by
  refine .head .read (.head .read ?_)
  simp only [Prog.bind, h]
  exact .single (.write hi)

theorem run_over_one_event (sha256 : Bytes → Bytes) (columns : EventColumns) (now : Int) :
    ∃ w', w'.db = oneDigest sha256 columns now ∧
      (auditSystem sha256).Serial Recorded ⟨{}, []⟩ w' := by
  let w₁ : AuditWorld := (execAudit ⟨1, 1⟩ (.event columns) ⟨{}, []⟩).2
  have hfirst : (⟨1, 1⟩ : NextIds).Admits ⟨{}, []⟩ := by
    refine ⟨fun r hr => ?_, by decide, fun r hr => ?_⟩
    · cases hr
    · cases hr
  have hdb : w₁.db = ⟨oneEvent columns, .empty⟩ := rfl
  have hsecond : (⟨2, 1⟩ : NextIds).Admits w₁ := by
    refine ⟨fun r hr => ?_, by decide, fun r hr => ?_⟩
    · rw [List.mem_singleton.mp hr]
      change (1 : Int) < 2
      decide
    · cases hr
  have hnumber : jsNumber 1 = 1 := jsNumber_small (by decide) (by decide)
  have hlast : lastDigest "entitlement" w₁.db = none := rfl
  have hsegment : nextSegment sha256 "entitlement" now (lastDigest "entitlement" w₁.db)
      (nextEvents (lastDigest "entitlement" w₁.db) w₁.db) = some (firstSegment sha256 columns now) := by
    have hnumber : jsNumber 1 = 1 := jsNumber_small (by decide) (by decide)
    have hrows : nextEvents none w₁.db = [firstEvent columns] := rfl
    rw [hlast, hrows]
    simp [nextSegment, firstEvent, firstSegment, LastDigest.prevDigest, hnumber]
  refine ⟨_, ?_, .program (.around .refl ⟨_, columns, hfirst, rfl⟩)
    (AuditRun.append "entitlement" now) (append_alone hsecond hsegment)⟩
  rfl

/-- The columns of a first event. -/
def createdColumns (created_at : Int) : EventColumns where
  project := "DEFAULT"
  feature := "DEFAULT"
  license_fingerprint := "fp-1"
  event_type := "created"
  status := "active"
  revocation_seq := 0
  actor := "admin"
  actor_type := "admin"
  created_at := created_at

/-- A hash that is SHA-256 on the text of one segment. -/
def segmentSha (bs : Bytes) : Bytes :=
  if bs = utf8 (segmentText "" [canonicalEntitlementEvent (firstEvent (createdColumns 1700000000))])
  then [127, 59, 176, 117, 129, 180, 149, 18, 29, 47, 13, 52, 76, 66, 63, 182, 47, 237, 241, 94,
    133, 6, 115, 54, 14, 102, 209, 47, 72, 152, 97, 148]
  else 0 :: bs

theorem segmentSha_free : CollisionFree segmentSha := by
  refine ⟨fun a b h => ?_, fun bs h => ?_⟩
  · unfold segmentSha at h
    split at h
    · split at h
      · simp_all
      · cases h
    · split at h
      · cases h
      · exact (List.cons.inj h).2
  · unfold segmentSha at h
    split at h
    · cases h
    · cases h

theorem the_first_segment_is_tamper_evident :
    (verifyAuditChain segmentSha "entitlement"
      (oneDigest segmentSha (createdColumns 1700000000) 1700000060)).isOk = true ∧
    ∀ db', Tampered eventValues "entitlement"
        (oneDigest segmentSha (createdColumns 1700000000) 1700000060) db' →
      (verifyAuditChain segmentSha "entitlement" db').isOk = false := by
  obtain ⟨w', hdb, hrun⟩ := run_over_one_event segmentSha (createdColumns 1700000000) 1700000060
  rw [← hdb]
  exact tampering_breaks_the_chain segmentSha_free undigested_empty hrun

/-- A hash that keeps its text. -/
def plainSha (bs : Bytes) : Bytes := 1 :: bs

theorem plainSha_free : CollisionFree plainSha :=
  ⟨fun _ _ h => (List.cons.inj h).2, fun _ h => nomatch h⟩

/-- The first integer that JavaScript cannot tell from the one before it. -/
theorem canonical_large : canonicalEntitlementEvent (firstEvent (createdColumns (2 ^ 53 + 1))) =
    canonicalEntitlementEvent (firstEvent (createdColumns (2 ^ 53))) := by
  have hnumber : numberText 9007199254740993 = numberText 9007199254740992 := by decide
  simp [canonicalEntitlementEvent, canonicalFields, arrayText, Scalar.json, firstEvent,
    createdColumns, hnumber]

theorem a_large_integer_can_change : ¬ ∀ sha256, CollisionFree sha256 → ∀ source w w',
    Undigested w → (auditSystem sha256).Serial Recorded w w' →
    (verifyAuditChain sha256 source w'.db).isOk = true ∧
      ∀ db', Tampered canonicalFields source w'.db db' →
        (verifyAuditChain sha256 source db').isOk = false := by
  intro hall
  obtain ⟨w', hdb, hrun⟩ := run_over_one_event plainSha (createdColumns (2 ^ 53)) 0
  have hevident := (hall plainSha plainSha_free "entitlement" _ _ undigested_empty hrun).2
  rw [hdb] at hevident
  have htampered : Tampered canonicalFields "entitlement"
      (oneDigest plainSha (createdColumns (2 ^ 53)) 0)
      { oneDigest plainSha (createdColumns (2 ^ 53)) 0 with
        entitlement_events := oneEvent (createdColumns (2 ^ 53 + 1)) } := by
    refine @Tampered.modified _ _ _ _ (firstEvent (createdColumns (2 ^ 53)))
      (firstEvent (createdColumns (2 ^ 53 + 1))) List.mem_cons_self ?_ ?_ ?_ rfl
    · exact ⟨by decide, by rw [covered_first]; decide⟩
    · decide
    · intro r
      change r ∈ [firstEvent _] ↔ r ∈ [firstEvent _] ∧ _ ∨ _
      simp
  refine absurd (hevident _ htampered) ?_
  rw [Bool.not_eq_false]
  have hnumber : jsNumber 1 = 1 := jsNumber_small (by decide) (by decide)
  refine verifyFrom_cons.mpr ⟨rfl, ?_, ?_, rfl⟩
  · change (((oneEvent (createdColumns (2 ^ 53 + 1))).between 0 (jsNumber 1)).length : Int) = jsNumber 1
    rw [hnumber]
    rfl
  · change computeSegmentDigest plainSha "" (((oneEvent (createdColumns (2 ^ 53 + 1))).between 0
      (jsNumber 1)).map canonicalEntitlementEvent) = _
    rw [hnumber]
    change computeSegmentDigest plainSha "" [canonicalEntitlementEvent
      (firstEvent (createdColumns (2 ^ 53 + 1)))] = _
    rw [canonical_large]
    rfl

end Licensecc.Audit
