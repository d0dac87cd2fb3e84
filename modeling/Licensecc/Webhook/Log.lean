-- The laws of the log of deliveries. Each event is allowed by the events before it:
-- only the holder of a row records or stops it, once, and no claim follows a
-- cancellation.
import Licensecc.Webhook.Effect

open Licensecc.Sql

namespace Licensecc.Webhook

/-! ## What a log says of a row -/

/-- The row that an event is about. -/
def Event.row : Event → Int
  | .created id | .claimed id _ | .recorded id _ _ | .stopped id _ | .canceled id | .redriven id => id

/-- The status that an event gives to its row, when it gives one. -/
def Event.status : Event → Option DeliveryStatus
  | .created _ | .redriven _ | .recorded _ _ .retry => some .pending
  | .claimed _ _ => none
  | .recorded _ _ .delivered => some .delivered
  | .recorded _ _ .failed => some .failed
  | .stopped _ _ | .canceled _ => some .canceled

/-- The claim whose outcome an event is. -/
def Event.answers (e : Event) (n : Nat) : Prop :=
  (∃ id kind, e = .recorded id n kind) ∨ ∃ id, e = .stopped id n

/-- The status of a row after a log. -/
def statusOf : List Event → Int → Option DeliveryStatus
  | [], _ => none
  | e :: earlier, id =>
    if e.row = id then e.status.or (statusOf earlier id) else statusOf earlier id

/-- The last claim of a row since its last redrive. -/
def holder : List Event → Int → Option Nat
  | [], _ => none
  | .claimed row n :: earlier, id => if row = id then some n else holder earlier id
  | .redriven row :: earlier, id => if row = id then none else holder earlier id
  | _ :: earlier, id => holder earlier id

/-- The event is allowed after the events before it. -/
def Event.Lawful (e : Event) (earlier : List Event) : Prop :=
  match e with
  | .created id => statusOf earlier id = none
  | .claimed id n => statusOf earlier id = some .pending ∧ ∀ id', .claimed id' n ∉ earlier
  | .recorded id n kind => holder earlier id = some n ∧ (∀ x ∈ earlier, ¬ x.answers n) ∧
      (statusOf earlier id = some .pending ∨
        kind = .delivered ∧ statusOf earlier id = some .canceled)
  | .stopped id n => holder earlier id = some n ∧ (∀ x ∈ earlier, ¬ x.answers n) ∧
      statusOf earlier id = some .pending
  | .canceled id => statusOf earlier id = some .pending ∨ statusOf earlier id = some .failed
  | .redriven id => statusOf earlier id = some .failed

def LawfulLog : List Event → Prop
  | [] => True
  | e :: earlier => e.Lawful earlier ∧ LawfulLog earlier

variable {log earlier later : List Event} {e : Event} {id : Int} {n : Nat}

theorem statusOf_cons_of_ne (h : e.row ≠ id) : statusOf (e :: earlier) id = statusOf earlier id :=
  if_neg h

theorem statusOf_cons_self (h : e.row = id) :
    statusOf (e :: earlier) id = e.status.or (statusOf earlier id) := if_pos h

theorem holder_cons_of_ne (h : e.row ≠ id) : holder (e :: earlier) id = holder earlier id := by
  cases e with
  | claimed | redriven => exact if_neg h
  | _ => rfl

/-- Only a claim and a redrive change the holder of a row. -/
theorem holder_cons_of (hc : ∀ n, e ≠ .claimed id n) (hr : e ≠ .redriven id) :
    holder (e :: earlier) id = holder earlier id := by
  cases e with
  | claimed row n =>
    refine if_neg ?_
    rintro rfl
    exact hc n rfl
  | redriven row =>
    refine if_neg ?_
    rintro rfl
    exact hr rfl
  | _ => rfl

theorem LawfulLog.of_append (h : LawfulLog (later ++ earlier)) : LawfulLog earlier := by
  induction later with
  | nil => exact h
  | cons e later ih => exact ih h.2

theorem LawfulLog.event (h : LawfulLog (later ++ e :: earlier)) : e.Lawful earlier :=
  h.of_append.1

/-- The holder of a row has claimed it. -/
theorem claimed_of_holder (h : holder log id = some n) : .claimed id n ∈ log := by
  induction log with
  | nil => cases h
  | cons e log ih =>
    by_cases hrow : e.row = id
    · cases e with
      | claimed row m =>
        have hm : some m = some n := by
          rw [← h]
          exact (if_pos hrow).symm
        rw [← Option.some.inj hm, ← hrow]
        exact List.mem_cons_self
      | redriven row =>
        have hno : none = some n := by
          rw [← h]
          exact (if_pos hrow).symm
        cases hno
      | _ => exact List.mem_cons_of_mem _ (ih h)
    · rw [holder_cons_of_ne hrow] at h
      exact List.mem_cons_of_mem _ (ih h)

/-- A row of which a lawful log tells something has a status. -/
theorem known_of_mem (h : LawfulLog (later ++ .claimed id n :: earlier)) :
    statusOf (later ++ .claimed id n :: earlier) id ≠ none := by
  induction later with
  | nil =>
    have hp : statusOf earlier id = some .pending := h.1.1
    have hrow : (Event.claimed id n).row = id := rfl
    rw [List.nil_append, statusOf_cons_self hrow, hp]
    simp [Event.status]
  | cons e later ih =>
    have hrest := ih h.2
    by_cases hrow : e.row = id
    · rw [List.cons_append, statusOf_cons_self hrow]
      simp [hrest]
    · rw [List.cons_append, statusOf_cons_of_ne hrow]
      exact hrest

/-! ## What follows -/

/-- A delivered row has no further events. -/
theorem Event.Lawful.not_delivered (h : e.Lawful earlier) :
    statusOf earlier e.row ≠ some .delivered := by
  intro hd
  cases e with
  | created id => simp_all [Event.Lawful, Event.row]
  | claimed id n => simp_all [Event.Lawful, Event.row]
  | recorded id n kind => simp_all [Event.Lawful, Event.row]
  | stopped id n => simp_all [Event.Lawful, Event.row]
  | canceled id => simp_all [Event.Lawful, Event.row]
  | redriven id => simp_all [Event.Lawful, Event.row]

/-- The only event of a canceled row is that its send was acknowledged. -/
theorem Event.Lawful.of_canceled (h : e.Lawful earlier)
    (hc : statusOf earlier e.row = some .canceled) : ∃ n, e = .recorded e.row n .delivered := by
  cases e with
  | created id => simp_all [Event.Lawful, Event.row]
  | claimed id n => simp_all [Event.Lawful, Event.row]
  | recorded id n kind =>
    obtain ⟨-, -, hp | ⟨rfl, -⟩⟩ := h
    · rw [Event.row, hp] at hc
      cases hc
    · exact ⟨n, rfl⟩
  | stopped id n => simp_all [Event.Lawful, Event.row]
  | canceled id => simp_all [Event.Lawful, Event.row]
  | redriven id => simp_all [Event.Lawful, Event.row]

/-- After a cancellation a row stays canceled or is delivered. -/
theorem status_after_cancel (h : LawfulLog (later ++ earlier))
    (hc : statusOf earlier id = some .canceled) :
    statusOf (later ++ earlier) id = some .canceled ∨
      statusOf (later ++ earlier) id = some .delivered := by
  induction later with
  | nil => exact .inl hc
  | cons e later ih =>
    obtain ⟨he, hrest⟩ := h
    by_cases hrow : e.row = id
    · subst hrow
      rcases ih hrest with hs | hs
      · obtain ⟨n, hn⟩ := he.of_canceled hs
        rw [List.cons_append, statusOf_cons_self rfl, hn]
        exact .inr rfl
      · exact absurd hs he.not_delivered
    · rw [List.cons_append, statusOf_cons_of_ne hrow]
      exact ih hrest

/-- A canceled row is never claimed again. -/
theorem not_claimed_after_cancel (h : LawfulLog (later ++ earlier))
    (hc : statusOf earlier id = some .canceled) : .claimed id n ∉ later := by
  intro hmem
  obtain ⟨later', mid, rfl⟩ := List.append_of_mem hmem
  rw [List.append_assoc, List.cons_append] at h
  have hclaim : statusOf (mid ++ earlier) id = some .pending := h.event.1
  rcases status_after_cancel h.of_append.2 hc with hs | hs
  · rw [hs] at hclaim
    cases hclaim
  · rw [hs] at hclaim
    cases hclaim

/-- Each claim has at most one outcome. -/
theorem answers_once (h : LawfulLog log) : log.Pairwise fun e e' => ∀ n, e.answers n → ¬ e'.answers n := by
  induction log with
  | nil => exact .nil
  | cons e log ih =>
    refine .cons (fun e' he' n hn => ?_) (ih h.2)
    rcases hn with ⟨id, kind, rfl⟩ | ⟨id, rfl⟩
    · exact h.1.2.1 e' he'
    · exact h.1.2.1 e' he'

/-- Events that cancel different rows, all of which are pending or failed. -/
theorem lawful_cancels {ids : List Int} (hnodup : ids.Nodup)
    (hids : ∀ id ∈ ids, statusOf log id = some .pending ∨ statusOf log id = some .failed)
    (h : LawfulLog log) :
    LawfulLog (ids.map Event.canceled ++ log) ∧
      (∀ id, holder (ids.map Event.canceled ++ log) id = holder log id) ∧
      ∀ id, statusOf (ids.map Event.canceled ++ log) id =
        if id ∈ ids then some .canceled else statusOf log id := by
  induction ids with
  | nil => exact ⟨h, fun _ => rfl, fun _ => rfl⟩
  | cons i ids ih =>
    obtain ⟨hi, hrest⟩ := List.nodup_cons.mp hnodup
    obtain ⟨hlaw, hholder, hstatus⟩ := ih hrest fun id hid => hids id (List.mem_cons_of_mem _ hid)
    refine ⟨⟨?_, hlaw⟩, fun id => hholder id, fun id => ?_⟩
    · change statusOf (ids.map Event.canceled ++ log) i = some .pending ∨
        statusOf (ids.map Event.canceled ++ log) i = some .failed
      rw [hstatus, if_neg hi]
      exact hids i List.mem_cons_self
    · by_cases hid : (Event.canceled i).row = id
      · rw [List.map_cons, List.cons_append, statusOf_cons_self hid, ← hid]
        exact (if_pos List.mem_cons_self).symm
      · have hne : ¬ i = id := hid
        rw [List.map_cons, List.cons_append, statusOf_cons_of_ne hid, hstatus]
        simp [Ne.symm hne]

end Licensecc.Webhook
