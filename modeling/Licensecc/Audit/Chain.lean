-- The laws of the chain of digests. A chain verifies, each digest in it comes after
-- one digest only, and no other events and no other digests verify in its place.
import Licensecc.Audit.Digest

open Licensecc.Codec Licensecc.Sql

namespace Licensecc.Audit

variable {sha256 : Bytes → Bytes} {events events' : RowidTable EntitlementEvent}
  {ds ds' : List AuditDigest} {d d' : AuditDigest} {g : Segment} {prev : String} {cursor : Int}
  {checked : Nat}

/-! ## Chains -/

/-- The segment covers the events after a cursor, and follows the digest of it. -/
structure Covers (sha256 : Bytes → Bytes) (events : RowidTable EntitlementEvent) (d : Segment)
    (prev : String) (cursor : Int) : Prop where
  ahead : cursor < d.up_to_id
  safe : d.up_to_id < 2 ^ 53
  top : ∃ r ∈ events, r.id = d.up_to_id
  few : (events.between cursor d.up_to_id).length ≤ auditDigestBatch
  prev_digest : d.prev_digest = prev
  event_count : d.event_count = (events.between cursor d.up_to_id).length
  digest : d.digest = computeSegmentDigest sha256 prev
    ((events.between cursor d.up_to_id).map canonicalEntitlementEvent)

/-- Digests that cover the events one after another. -/
def Chain (sha256 : Bytes → Bytes) (events : RowidTable EntitlementEvent) :
    List AuditDigest → String → Int → Prop
  | [], _, _ => True
  | d :: rest, prev, cursor =>
    Covers sha256 events d.toSegment prev cursor ∧ Chain sha256 events rest d.digest d.up_to_id

/-- The last event of a chain. -/
def endCursor : List AuditDigest → Int → Int
  | [], cursor => cursor
  | d :: rest, _ => endCursor rest d.up_to_id

/-- The last digest of a chain. -/
def endDigest : List AuditDigest → String → String
  | [], prev => prev
  | d :: rest, _ => endDigest rest d.digest

theorem Covers.covered (h : Covers sha256 events g prev cursor) :
    events.between cursor g.up_to_id ≠ [] := by
  obtain ⟨r, hr, hid⟩ := h.top
  refine List.ne_nil_of_mem (RowidTable.mem_between.mpr ⟨hr, ?_, ?_⟩)
  · exact lt_of_lt_of_eq h.ahead hid.symm
  · exact le_of_eq hid

theorem Chain.append (h : Chain sha256 events ds prev cursor)
    (hd : Covers sha256 events d.toSegment (endDigest ds prev) (endCursor ds cursor)) :
    Chain sha256 events (ds ++ [d]) prev cursor := by
  induction ds generalizing prev cursor with
  | nil => exact ⟨hd, trivial⟩
  | cons e rest ih => exact ⟨h.1, ih h.2 hd⟩

theorem Chain.of_append {later : List AuditDigest} (h : Chain sha256 events (ds ++ later) prev cursor) :
    Chain sha256 events ds prev cursor ∧
      Chain sha256 events later (endDigest ds prev) (endCursor ds cursor) := by
  induction ds generalizing prev cursor with
  | nil => exact ⟨trivial, h⟩
  | cons e rest ih =>
    obtain ⟨hfirst, hlater⟩ := ih h.2
    exact ⟨⟨h.1, hfirst⟩, hlater⟩

/-- Events that are appended leave a chain. -/
theorem Covers.extends (h : Covers sha256 events g prev cursor) (he : events.Extends events') :
    Covers sha256 events' g prev cursor := by
  obtain ⟨top, htop, hid⟩ := h.top
  have hsame : events'.between cursor g.up_to_id = events.between cursor g.up_to_id :=
    he.between fun r hr hnew => lt_of_eq_of_lt hid.symm (he.above hr hnew htop)
  refine ⟨h.ahead, h.safe, ⟨top, he.mem htop, hid⟩, ?_, h.prev_digest, ?_, ?_⟩
  · rw [hsame]
    exact h.few
  · rw [hsame]
    exact h.event_count
  · rw [hsame]
    exact h.digest

theorem Chain.extends (h : Chain sha256 events ds prev cursor) (he : events.Extends events') :
    Chain sha256 events' ds prev cursor := by
  induction ds generalizing prev cursor with
  | nil => trivial
  | cons e rest ih => exact ⟨h.1.extends he, ih h.2⟩

/-! ## Verification -/

/-- What the verification of one digest has found. -/
theorem verifyFrom_cons :
    (verifyFrom sha256 events (d :: ds) prev cursor checked).isOk = true ↔
      d.prev_digest = prev ∧
      ((events.between cursor (jsNumber d.up_to_id)).length : Int) = jsNumber d.event_count ∧
      computeSegmentDigest sha256 prev
        ((events.between cursor (jsNumber d.up_to_id)).map canonicalEntitlementEvent) = d.digest ∧
      (verifyFrom sha256 events ds d.digest (jsNumber d.up_to_id) (checked + 1)).isOk = true := by
  simp only [verifyFrom]
  by_cases h1 : d.prev_digest = prev
  · by_cases h2 : ((events.between cursor (jsNumber d.up_to_id)).length : Int) =
        jsNumber d.event_count
    · by_cases h3 : computeSegmentDigest sha256 prev
          ((events.between cursor (jsNumber d.up_to_id)).map canonicalEntitlementEvent) = d.digest
      · simp [h1, h2, h3]
      · simp [h1, h2, h3, Verification.isOk]
    · simp [h1, h2, Verification.isOk]
  · simp [h1, Verification.isOk]

/-- An id of a chain is read as it is. -/
theorem Covers.up_to (h : Covers sha256 events g prev cursor) (hc : 0 ≤ cursor) :
    jsNumber g.up_to_id = g.up_to_id := by
  have h1 := h.ahead
  have h2 := h.safe
  exact jsNumber_small (by omega) (by omega)

theorem Covers.count_small (h : Covers sha256 events g prev cursor) :
    0 ≤ g.event_count ∧ g.event_count < 2 ^ 53 := by
  have h1 := h.event_count
  have h2 := h.few
  unfold auditDigestBatch at h2
  omega

/-- A chain verifies. -/
theorem Chain.verifies (h : Chain sha256 events ds prev cursor) (hc : 0 ≤ cursor) :
    (verifyFrom sha256 events ds prev cursor checked).isOk = true := by
  induction ds generalizing prev cursor checked with
  | nil => rfl
  | cons d rest ih =>
    obtain ⟨hd, hrest⟩ := h
    have hcount := hd.count_small
    have hahead := hd.ahead
    refine verifyFrom_cons.mpr ⟨hd.prev_digest, ?_, ?_, ?_⟩
    · rw [hd.up_to hc, jsNumber_small (by omega) hcount.2]
      exact hd.event_count.symm
    · rw [hd.up_to hc]
      exact hd.digest.symm
    · rw [hd.up_to hc]
      exact ih hrest (by omega)

/-! ## Distinct digests -/

/-- Every id of the events is one that JavaScript reads as it is. -/
def SafeIds (events : RowidTable EntitlementEvent) : Prop := ∀ r ∈ events, 0 < r.id ∧ r.id < 2 ^ 53

/-- Events with the same values have the same id. -/
theorem id_of_values {r r' : EntitlementEvent} (hr : 0 < r.id ∧ r.id < 2 ^ 53)
    (h : eventValues r' = eventValues r) : r'.id = r.id := by
  have hid : jsNumber r'.id = jsNumber r.id := by
    have hfirst := congrArg List.head? h
    simpa [eventValues, canonicalFields, Scalar.value] using hfirst
  rw [jsNumber_small (n := r.id) (by omega) hr.2] at hid
  exact eq_of_jsNumber (by omega) hr.2 hid

/-- No segment of events after the cursor has this digest. -/
def Unused (sha256 : Bytes → Bytes) (p : String) (cursor : Int) : Prop :=
  ∀ (q : String) (rows : List EntitlementEvent), '\n' ∉ q.toList → rows ≠ [] →
    (∀ r ∈ rows, cursor < r.id ∧ 0 < r.id ∧ r.id < 2 ^ 53) →
    computeSegmentDigest sha256 q (rows.map canonicalEntitlementEvent) ≠ p

theorem Unused.mono {p : String} {cursor' : Int} (h : Unused sha256 p cursor)
    (hle : cursor ≤ cursor') : Unused sha256 p cursor' := by
  intro q rows hq hne hrows
  exact h q rows hq hne fun r hr => ⟨lt_of_le_of_lt hle (hrows r hr).1, (hrows r hr).2⟩

theorem unused_empty (h : CollisionFree sha256) : Unused sha256 "" cursor :=
  fun _ _ _ _ _ => h.digest_ne _

/-- The digest of a segment is none of a later one. -/
theorem Covers.unused (hfree : CollisionFree sha256) (hs : SafeIds events)
    (h : Covers sha256 events g prev cursor) (hp : '\n' ∉ prev.toList) :
    Unused sha256 g.digest g.up_to_id := by
  intro q rows hq hne hrows he
  rw [h.digest] at he
  obtain ⟨-, hvalues⟩ := hfree.segment hq hp hne h.covered he
  obtain ⟨r, hr⟩ := List.exists_mem_of_ne_nil rows hne
  have hmem : eventValues r ∈ (events.between cursor g.up_to_id).map eventValues :=
    hvalues ▸ List.mem_map_of_mem hr
  obtain ⟨r', hr', hsame⟩ := List.mem_map.mp hmem
  obtain ⟨hin, -, hle⟩ := RowidTable.mem_between.mp hr'
  have hid : r.id = r'.id := id_of_values (hs r' hin) hsame.symm
  have hlt := (hrows r hr).1
  have hle : r'.id ≤ g.up_to_id := hle
  omega

theorem Chain.digests_unused {p : String} (hs : SafeIds events)
    (h : Chain sha256 events ds prev cursor) (hp : '\n' ∉ prev.toList)
    (hu : Unused sha256 p cursor) : ∀ d ∈ ds, d.digest ≠ p := by
  induction ds generalizing prev cursor with
  | nil => simp
  | cons e rest ih =>
    obtain ⟨he, hrest⟩ := h
    intro d hd
    rcases List.mem_cons.mp hd with rfl | hd
    · rw [he.digest]
      refine hu _ _ hp he.covered fun r hr => ?_
      obtain ⟨hin, hlt, -⟩ := RowidTable.mem_between.mp hr
      exact ⟨hlt, hs r hin⟩
    · refine ih hrest ?_ (hu.mono he.ahead.le) d hd
      rw [he.digest]
      exact newline_not_mem_digest _

/-- A digest of a chain follows the first digest or one of the chain. -/
theorem Chain.prev_cases (h : Chain sha256 events ds prev cursor) (hd : d ∈ ds) :
    d.prev_digest = prev ∨ ∃ e ∈ ds, d.prev_digest = e.digest := by
  induction ds generalizing prev cursor with
  | nil => cases hd
  | cons e rest ih =>
    rcases List.mem_cons.mp hd with rfl | hd
    · exact .inl h.1.prev_digest
    · rcases ih h.2 hd with he | ⟨e', he', heq⟩
      · exact .inr ⟨e, List.mem_cons_self, he⟩
      · exact .inr ⟨e', List.mem_cons_of_mem _ he', heq⟩

/-- No two digests of a chain follow one digest. -/
theorem Chain.prevs_nodup (hfree : CollisionFree sha256) (hs : SafeIds events)
    (h : Chain sha256 events ds prev cursor) (hp : '\n' ∉ prev.toList)
    (hu : Unused sha256 prev cursor) : (ds.map (·.prev_digest)).Nodup := by
  induction ds generalizing prev cursor with
  | nil => simp
  | cons e rest ih =>
    have hall := h.digests_unused hs hp hu
    obtain ⟨he, hrest⟩ := h
    have hp' : '\n' ∉ e.digest.toList := by
      rw [he.digest]
      exact newline_not_mem_digest _
    rw [List.map_cons, List.nodup_cons]
    refine ⟨fun hmem => ?_, ih hrest hp' (he.unused hfree hs hp)⟩
    obtain ⟨d, hd, hsame⟩ := List.mem_map.mp hmem
    rw [he.prev_digest] at hsame
    rcases hrest.prev_cases hd with hprev | ⟨e', he', hprev⟩
    · exact hall e List.mem_cons_self (hprev.symm.trans hsame)
    · exact hall e' (List.mem_cons_of_mem _ he') (hprev.symm.trans hsame)

/-- No two digests of a chain are the same. -/
theorem Chain.digests_nodup (hfree : CollisionFree sha256) (hs : SafeIds events)
    (h : Chain sha256 events ds prev cursor) (hp : '\n' ∉ prev.toList) :
    (ds.map (·.digest)).Nodup := by
  induction ds generalizing prev cursor with
  | nil => simp
  | cons e rest ih =>
    obtain ⟨he, hrest⟩ := h
    have hp' : '\n' ∉ e.digest.toList := by
      rw [he.digest]
      exact newline_not_mem_digest _
    rw [List.map_cons, List.nodup_cons]
    refine ⟨fun hmem => ?_, ih hrest hp'⟩
    obtain ⟨d, hd, hsame⟩ := List.mem_map.mp hmem
    exact hrest.digests_unused hs hp' (he.unused hfree hs hp) d hd hsame

theorem Chain.le_end (h : Chain sha256 events ds prev cursor) : cursor ≤ endCursor ds cursor := by
  induction ds generalizing prev cursor with
  | nil => exact le_rfl
  | cons e rest ih => exact h.1.ahead.le.trans (ih h.2)

/-- The last events of the digests of a chain go up. -/
theorem Chain.up_to_lt (h : Chain sha256 events ds prev cursor) :
    (∀ d ∈ ds, cursor < d.up_to_id) ∧ ds.Pairwise fun a b => a.up_to_id < b.up_to_id := by
  induction ds generalizing prev cursor with
  | nil => simp
  | cons e rest ih =>
    obtain ⟨hall, hsorted⟩ := ih h.2
    refine ⟨fun d hd => ?_, List.pairwise_cons.mpr ⟨hall, hsorted⟩⟩
    rcases List.mem_cons.mp hd with rfl | hd
    · exact h.1.ahead
    · exact h.1.ahead.trans (hall d hd)

/-- A digest follows one that is not before any digest of the chain before it. -/
theorem Chain.prev_later (h : Chain sha256 events ds prev cursor) :
    ds.Pairwise fun d d' => ∃ e ∈ ds, e.digest = d'.prev_digest ∧ d.up_to_id ≤ e.up_to_id := by
  induction ds generalizing prev cursor with
  | nil => exact .nil
  | cons c rest ih =>
    obtain ⟨-, hrest⟩ := h
    refine .cons (fun d' hd' => ?_) ((ih hrest).imp fun hlater => ?_)
    · rcases hrest.prev_cases hd' with hprev | ⟨e, he, hprev⟩
      · exact ⟨c, List.mem_cons_self, hprev.symm, le_rfl⟩
      · exact ⟨e, List.mem_cons_of_mem _ he, hprev.symm, (hrest.up_to_lt.1 e he).le⟩
    · obtain ⟨e, he, hsame, hle⟩ := hlater
      exact ⟨e, List.mem_cons_of_mem _ he, hsame, hle⟩

end Licensecc.Audit
