-- Runs that overlap. A segment is inserted without a look at the digests that other
-- runs have inserted since its own reads, so two runs can fork the chain. The chain is
-- one exactly when each insert still finds the digest that its run has read.
import Licensecc.Audit.Tamper

open Licensecc.Codec Licensecc.Sql Licensecc.Conc

namespace Licensecc.Audit

variable {sha256 : Bytes → Bytes} {db : AuditDb} {w w' : AuditWorld} {source : String}
  {ds : List AuditDigest} {d d' : AuditDigest}

/-! ## One chain -/

/-- The digest covers the event: the id is after the last event of the digest that it
follows, and not after its own. -/
def CoversEvent (ds : List AuditDigest) (d : AuditDigest) (id : Int) : Prop :=
  id ≤ d.up_to_id ∧
    (d.prev_digest = "" ∧ 0 < id ∨ ∃ e ∈ ds, e.digest = d.prev_digest ∧ e.up_to_id < id)

structure OneChain (sha256 : Bytes → Bytes) (source : String) (db : AuditDb) : Prop where
  verifies : (verifyAuditChain sha256 source db).isOk = true
  prevs : ((db.digests source).map (·.prev_digest)).Nodup
  apart : (db.digests source).Pairwise fun d d' => ∀ id,
    ¬ (CoversEvent (db.digests source) d id ∧ CoversEvent (db.digests source) d' id)

/-- A chain is one chain. -/
theorem Chain.one (hfree : CollisionFree sha256) (hs : SafeIds db.entitlement_events)
    (h : Chain sha256 db.entitlement_events (db.digests source) "" 0) : OneChain sha256 source db := by
  refine ⟨h.verifies le_rfl, h.prevs_nodup hfree hs (by simp) (unused_empty hfree),
    h.prev_later.imp fun hlater id hboth => ?_⟩
  obtain ⟨e, he, hsame, hle⟩ := hlater
  obtain ⟨⟨hup, -⟩, -, hstart⟩ := hboth
  rcases hstart with ⟨hempty, -⟩ | ⟨e', he', hsame', hlt⟩
  · exact h.digests_unused hs (by simp) (unused_empty hfree) e he (hsame.trans hempty)
  · have heq : e' = e := List.inj_on_of_nodup_map (h.digests_nodup hfree hs (by simp)) he' he
      (hsame'.trans hsame.symm)
    subst heq
    omega

/-! ## Runs -/

/-- The insert of a segment of this source finds the digest that its run has read. -/
def Fresh (source : String) (e : AuditEntry) : Prop :=
  match e.write with
  | .event _ => True
  | .segment read s => s.source = source → lastDigest source e.before = read

/-- What a run has read was once the last digest. -/
def WasLast (source : String) (read : Option LastDigest) (w : AuditWorld) : Prop :=
  ∃ older, older <+: w.db.digests source ∧ read = lastOf older

/-- What a log says of the chain: it goes on as long as every insert is fresh, and
forks with the first that is not. -/
structure Told (sha256 : Bytes → Bytes) (source : String) (w : AuditWorld) : Prop where
  safe : SafeIds w.db.entitlement_events
  chain : (∀ e ∈ w.log, Fresh source e) →
    Chain sha256 w.db.entitlement_events (w.db.digests source) "" 0
  fork : ¬ (∀ e ∈ w.log, Fresh source e) → ¬ ((w.db.digests source).map (·.prev_digest)).Nodup

theorem Told.event {i : NextIds} (columns : EventColumns) (hi : i.Admits w)
    (h : Told sha256 source w) : Told sha256 source (execAudit i (.event columns) w).2 := by
  have hlog : (∀ e ∈ (execAudit i (.event columns) w).2.log, Fresh source e) ↔
      ∀ e ∈ w.log, Fresh source e := by
    simp [execAudit, Fresh]
  refine ⟨(apply_grows h.safe hi (.event columns)).safe, fun hfresh => ?_, fun hstale => ?_⟩
  · exact (h.chain (hlog.mp hfresh)).after_event h.safe hi
  · have hfork := h.fork fun hfresh => hstale (hlog.mpr hfresh)
    rw [← digests_event columns hi source] at hfork
    exact hfork

/-- A stale segment follows a digest that another one follows. -/
theorem stale_forks {read : Option LastDigest} {s : Segment}
    (h : Chain sha256 w.db.entitlement_events (w.db.digests source) "" 0)
    (hdraft : Drafted sha256 read s w.db) (hread : WasLast source read w)
    (hstale : lastDigest source w.db ≠ read) :
    s.prev_digest ∈ (w.db.digests source).map (·.prev_digest) := by
  obtain ⟨older, ⟨later, hall⟩, hlast⟩ := hread
  rw [← hall] at h
  rw [← hall]
  cases later with
  | nil =>
    rw [List.append_nil] at hall
    rw [lastDigest_eq, ← hall, hlast] at hstale
    exact absurd rfl hstale
  | cons n rest =>
    have hprev : s.prev_digest = n.prev_digest := by
      rw [hdraft.prev_digest, hlast, (Chain.of_append h).1.end_eq.2]
      exact (Chain.of_append h).2.1.prev_digest.symm
    rw [hprev]
    simp

theorem Told.segment {i : NextIds} {read : Option LastDigest} {s : Segment} (hi : i.Admits w)
    (h : Told sha256 source w) (hdraft : Drafted sha256 read s w.db)
    (hread : WasLast s.source read w) :
    Told sha256 source (execAudit i (.segment read s) w).2 := by
  have hgrows := apply_grows h.safe hi (.segment read s)
  have hlog : (∀ e ∈ (execAudit i (.segment read s) w).2.log, Fresh source e) ↔
      (s.source = source → lastDigest source w.db = read) ∧ ∀ e ∈ w.log, Fresh source e := by
    simp [execAudit, Fresh]
  refine ⟨hgrows.safe, fun hfresh => ?_, fun hstale hnodup => ?_⟩
  · obtain ⟨hnow, hbefore⟩ := hlog.mp hfresh
    exact (h.chain hbefore).after_segment h.safe hi hdraft hnow
  · have hdigests := digests_segment read s hi source
    have hnodup : ((w.db.digests source ++ if s.source = source then
        [({ toSegment := s, id := i.digest } : AuditDigest)] else []).map (·.prev_digest)).Nodup :=
      hdigests ▸ hnodup
    rw [List.map_append, List.nodup_append] at hnodup
    by_cases hbefore : ∀ e ∈ w.log, Fresh source e
    · -- The first stale insert.
      have hnow : ¬ (s.source = source → lastDigest source w.db = read) :=
        fun hnow => hstale (hlog.mpr ⟨hnow, hbefore⟩)
      obtain ⟨hsource, hne⟩ := Classical.not_imp.mp hnow
      rw [hsource] at hread
      refine hnodup.2.2 _ (stale_forks (h.chain hbefore) hdraft hread hne) s.prev_digest ?_ rfl
      simp [hsource]
    · exact h.fork hbefore hnodup.1

theorem reach_told {c : Config AuditWorld AuditWrite Unit (Option Segment)} (h0 : Undigested w)
    (h : (auditSystem sha256).Reach ⟨w, []⟩ c) : Told sha256 source c.state := by
  have hkeeps : (auditSystem sha256).Keeps (fun w w' => Grows w.db w'.db)
      (Proper sha256 WasLast) (Told sha256 source) := by
    refine ⟨fun w h => .refl h.safe, fun h h' => h.trans h', fun i write w hi hproper h => ?_,
      fun i write w hi _ h => apply_grows h.safe hi write⟩
    cases write with
    | event columns => exact h.event columns hi
    | segment read s => exact h.segment hi hproper.1 hproper.2
  have hstart : Told sha256 source w := by
    refine ⟨h0.safe, fun _ => h0.sound.chain source, fun hstale => absurd ?_ hstale⟩
    rw [h0.log]
    intro e he
    cases he
  refine (System.reach_safe hkeeps (fun p hp w _ => run_safe id (fun source w => ?_) ?_ hp w)
    hstart h).inv
  · exact ⟨w.db.digests source, List.prefix_refl _, lastDigest_eq⟩
  · rintro source read w w' ⟨older, hprefix, hread⟩ hgrows
    exact ⟨older, hprefix.trans (hgrows.digests source), hread⟩

/-- Whatever the runs and the mutators do at once, the digests of a source are one chain
exactly when every insert of a segment has found the digest that its run has read. -/
theorem digests_are_one_chain_when_no_insert_is_stale (hfree : CollisionFree sha256)
    {c : Config AuditWorld AuditWrite Unit (Option Segment)} (h0 : Undigested w)
    (h : (auditSystem sha256).Reach ⟨w, []⟩ c) :
    OneChain sha256 source c.state.db ↔ ∀ e ∈ c.state.log, Fresh source e := by
  have htold : Told sha256 source c.state := reach_told h0 h
  constructor
  · intro hone
    by_contra hstale
    exact htold.fork hstale hone.prevs
  · intro hfresh
    exact (htold.chain hfresh).one hfree htold.safe

/-! ## Two runs at once -/

/-- Two runs read the first event before either has inserted its segment. -/
def twoRuns (sha256 : Bytes → Bytes) :
    List (System.Choice AuditWorld AuditWrite Unit NextIds (Option Segment)) := [
  .start (recordEvent (createdColumns 1700000000)),
  .write 0 ⟨1, 1⟩,
  .start (appendAuditDigest sha256 "entitlement" 1700000060),
  .start (appendAuditDigest sha256 "entitlement" 1700000060),
  .read 0,
  .read 0,
  .read 1,
  .read 1,
  .write 0 ⟨2, 1⟩,
  .write 1 ⟨2, 2⟩]

instance (sha256 : Bytes → Bytes) (i : NextIds) (w : AuditWorld) :
    Decidable ((auditSystem sha256).admits i w) := inferInstanceAs (Decidable (i.Admits w))

theorem two_runs (sha256 : Bytes → Bytes) : ∃ c, (auditSystem sha256).Reach ⟨⟨{}, []⟩, []⟩ c ∧
    (c.state.db.digests "entitlement").map (·.prev_digest) = ["", ""] := by
  have hplay : ((auditSystem sha256).playAll ⟨⟨{}, []⟩, []⟩ (twoRuns sha256)).map
      (fun c => (c.state.db.digests "entitlement").map (·.prev_digest)) = some ["", ""] := rfl
  obtain ⟨c, hc, hprevs⟩ := Option.map_eq_some_iff.mp hplay
  refine ⟨c, System.reach_of_playAll hc ?_, hprevs⟩
  exact ⟨.event _, .append _ _, .append _ _, trivial⟩

theorem two_runs_fork_the_chain : ¬ ∀ sha256, CollisionFree sha256 → ∀ source w c, Undigested w →
    (auditSystem sha256).Reach ⟨w, []⟩ c → OneChain sha256 source c.state.db := by
  intro hall
  obtain ⟨c, hreach, hprevs⟩ := two_runs plainSha
  have hone := hall plainSha plainSha_free "entitlement" _ c undigested_empty hreach
  have hnodup := hone.prevs
  rw [hprevs] at hnodup
  revert hnodup
  decide

theorem two_runs_have_a_stale_insert :
    ∃ c, (auditSystem segmentSha).Reach ⟨⟨{}, []⟩, []⟩ c ∧
      ¬ ∀ e ∈ c.state.log, Fresh "entitlement" e := by
  obtain ⟨c, hreach, hprevs⟩ := two_runs segmentSha
  refine ⟨c, hreach, fun hfresh => ?_⟩
  have hnodup := ((digests_are_one_chain_when_no_insert_is_stale segmentSha_free undigested_empty
    hreach).mpr hfresh).prevs
  rw [hprevs] at hnodup
  revert hnodup
  decide

end Licensecc.Audit
