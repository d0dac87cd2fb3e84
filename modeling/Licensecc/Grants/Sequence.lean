-- The revocation sequence of a grant. Every write of a grant raises the
-- sequence above the row and above every audit row of the same key.
import Licensecc.Schema.Store

open Licensecc.Sql

namespace Licensecc

/-- `SELECT MAX(revocation_seq) FROM entitlement_events` of one key. -/
def maxSeq (key : EntitlementKey) (events : List EntitlementEvent) : Option Int :=
  ((events.filter (·.toEntitlementKey = key)).map (·.revocation_seq)).max?

/-- `REVOCATION_SEQ_BUMP`. -/
def bumpSeq (events : List EntitlementEvent) (e : Entitlement) : Int :=
  max e.revocation_seq ((maxSeq e.toEntitlementKey events).getD e.revocation_seq) + 1

/-- The sequence of a row that a statement inserts. -/
def createSeq (events : List EntitlementEvent) (key : EntitlementKey) : Int :=
  match maxSeq key events with
  | some seq => seq + 1
  | none => 1

variable {events : List EntitlementEvent} {ev : EntitlementEvent} {e : Entitlement}

theorem le_maxSeq (h : ev ∈ events) :
    ∃ seq, maxSeq ev.toEntitlementKey events = some seq ∧ ev.revocation_seq ≤ seq := by
  have hmem : ev.revocation_seq ∈
      (events.filter (·.toEntitlementKey = ev.toEntitlementKey)).map (·.revocation_seq) :=
    List.mem_map_of_mem (List.mem_filter.mpr ⟨h, by simp⟩)
  unfold maxSeq
  cases hm : ((events.filter (·.toEntitlementKey = ev.toEntitlementKey)).map
      (·.revocation_seq)).max? with
  | none =>
    rw [List.max?_eq_none_iff.mp hm] at hmem
    cases hmem
  | some seq => exact ⟨seq, rfl, (List.max?_eq_some_iff.mp hm).2 _ hmem⟩

/-- A bump passes the row. -/
theorem lt_bumpSeq : e.revocation_seq < bumpSeq events e := by
  unfold bumpSeq
  omega

/-- A bump passes every audit row of the grant. -/
theorem event_lt_bumpSeq (h : ev ∈ events) (hk : ev.toEntitlementKey = e.toEntitlementKey) :
    ev.revocation_seq < bumpSeq events e := by
  obtain ⟨seq, hm, hle⟩ := le_maxSeq h
  unfold bumpSeq
  rw [← hk, hm]
  simp only [Option.getD_some]
  omega

/-- A new row passes every audit row of its key. -/
theorem event_lt_createSeq {key : EntitlementKey} (h : ev ∈ events)
    (hk : ev.toEntitlementKey = key) : ev.revocation_seq < createSeq events key := by
  obtain ⟨seq, hm, hle⟩ := le_maxSeq h
  unfold createSeq
  rw [← hk, hm]
  dsimp only
  omega

end Licensecc
