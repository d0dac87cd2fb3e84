-- What the queue says of the events. However the ticks overlap, the payload of a queued
-- delivery names the project and the customer of its event.
import Licensecc.Conc.Stable
import Licensecc.Webhook.OrderReports
import Licensecc.Webhook.Scope

open Licensecc.Codec Licensecc.Sql Licensecc.Conc

namespace Licensecc.Webhook

variable {restate : Json.Tree → Json.Tree} {w : OutboxWorld} {i : OutboxIds} {source : EventSource}
  {endpoints : List WebhookEndpoint} {now : Int} {rows : List SourceRow} {row : SourceRow}

/-! ## The invariant -/

/-- The payload of a delivery names what its event names. -/
def Tells (db : OutboxDb) (d : Delivery) : Prop :=
  ∃ row ∈ db.events d.event_source, row.event_id = d.event_id ∧
    payloadData d.payload_json = row.data.eventData

def Faithful (db : OutboxDb) : Prop := ∀ d ∈ db.deliveries, Tells db d

/-- The event of a row that was read is still there. -/
def Recorded (source : EventSource) (row : SourceRow) (w : OutboxWorld) : Prop :=
  ∃ r ∈ w.db.events source, SameEvent row r

/-- A delivery is inserted for an event that is there. -/
def Honest (write : OutboxWrite) (w : OutboxWorld) : Prop :=
  match write with
  | .enqueue source row _ _ => Recorded source row w
  | _ => True

theorem Recorded.grown {w' : OutboxWorld} (h : Recorded source row w) (hg : Grown w w') :
    Recorded source row w' := by
  obtain ⟨r, hr, hsame⟩ := h
  obtain ⟨r', hr', hsame'⟩ := hg.events source r hr
  exact ⟨r', hr', hsame.trans hsame'⟩

theorem Tells.grown {w' : OutboxWorld} {d d' : Delivery} (h : Tells w.db d) (hg : Grown w w')
    (hd : d'.queued = d.queued) : Tells w'.db d' := by
  simp only [Delivery.queued, Prod.mk.injEq] at hd
  obtain ⟨-, -, hsource, hid, hpayload⟩ := hd
  obtain ⟨r, hr, hrow, hdata⟩ := h
  obtain ⟨r', hr', hsame⟩ := hg.events d.event_source r hr
  unfold Tells
  rw [hsource, hid, hpayload]
  exact ⟨r', hr', hsame.1.trans hrow, hdata.trans hsame.2.2.symm⟩

/-- Where the deliveries come from. -/
theorem of_mem_deliveries {write : OutboxWrite} {db : OutboxDb} {d : Delivery}
    (h : d ∈ (write.apply (reparse restate) i db).deliveries) :
    (∃ d' ∈ db.deliveries, d.queued = d'.queued) ∨
      ∃ source row endpoint_id now, write = .enqueue source row endpoint_id now ∧
        d = newDelivery (reparse restate) i.delivery source row endpoint_id now := by
  cases write with
  | event source columns =>
    simp only [OutboxWrite.apply] at h
    split at h
    · exact Or.inl ⟨d, h, rfl⟩
    · exact Or.inl ⟨d, h, rfl⟩
  | deliveries table =>
    simp only [OutboxWrite.apply] at h
    split at h
    · rename_i hqueued
      have hmem : d.queued ∈ db.deliveries.rows.map Delivery.queued :=
        hqueued ▸ List.mem_map_of_mem h
      obtain ⟨d', hd', heq⟩ := List.mem_map.mp hmem
      exact Or.inl ⟨d', hd', heq.symm⟩
    · exact Or.inl ⟨d, h, rfl⟩
  | enqueue source row endpoint_id now =>
    rcases of_mem_insertOrIgnore h with hd | ⟨hd, -⟩
    · exact Or.inl ⟨d, hd, rfl⟩
    · exact Or.inr ⟨source, row, endpoint_id, now, rfl, hd⟩
  | order id change => exact Or.inl ⟨d, h, rfl⟩
  | endpoints table => exact Or.inl ⟨d, h, rfl⟩
  | advance a => exact Or.inl ⟨d, h, rfl⟩

/-! ## The ticks -/

section
variable (restate)

abbrev enqueueSystem : System OutboxWorld OutboxWrite Unit OutboxIds Unit := outboxSystem (reparse restate)

abbrev Kept (w : OutboxWorld) : Prop := Faithful w.db

variable {restate}

theorem stable_faithful : (enqueueSystem restate).Stable Honest Kept Kept := by
  intro i write w hi hhonest hfaithful _ d hd
  have hgrown : Grown w (execOutbox (reparse restate) i write w).2 := exec_grown hi write
  rcases of_mem_deliveries hd with ⟨d', hd', hqueued⟩ | ⟨source, row, endpoint_id, now, rfl, rfl⟩
  · exact (hfaithful d' hd').grown hgrown hqueued
  · obtain ⟨r, hr, hsame⟩ := Recorded.grown hhonest hgrown
    exact ⟨r, hr, hsame.1, (payloadData_payload source row).trans hsame.2.2.symm⟩

theorem stable_recorded : (enqueueSystem restate).Stable Honest Kept (Recorded source row) :=
  fun _ write _ hi _ _ h => h.grown (exec_grown hi write)

/-- Every row was read from the events. -/
def AllRecorded (source : EventSource) (rows : List SourceRow) (w : OutboxWorld) : Prop :=
  ∀ row ∈ rows, Recorded source row w

theorem stable_allRecorded : (enqueueSystem restate).Stable Honest Kept (AllRecorded source rows) :=
  fun i write w hi hw hk h row hrow => stable_recorded i write w hi hw hk (h row hrow)

section
variable {K : OutboxWorld → Prop} (hK : (enqueueSystem restate).Stable Honest Kept K)
include hK

/-- The inserts for one event keep every fact that lasts. -/
theorem enqueueRow_ensures (hk : Kept w) (hs : K w) (hrow : ∀ w, K w → Recorded source row w) :
    (enqueueSystem restate).Ensures Honest Kept (fun _ => K) (enqueueRow source now row endpoints) w := by
  induction endpoints generalizing w with
  | nil => exact System.Ensures.done stable_faithful hk hK hs
  | cons endpoint rest ih =>
    unfold enqueueRow
    split
    · apply System.Ensures.bind
      · exact System.Ensures.request stable_faithful hk hK hs (fun _ => hK)
          (fun w' _ h => hrow w' h) (fun _ _ h => h)
          fun i w' hi hk' h => hK i _ w' hi (hrow w' h) hk' h
      · rintro (_ | _) w' hk' hs'
        · exact System.Ensures.done stable_faithful hk' hK hs'
        · exact ih hk' hs'
    · exact ih hk hs

theorem enqueueRows_ensures (hk : Kept w) (hs : K w)
    (hrows : ∀ w, K w → AllRecorded source rows w) :
    (enqueueSystem restate).Ensures Honest Kept (fun _ => K) (enqueueRows source now endpoints rows) w := by
  induction rows generalizing w with
  | nil => exact System.Ensures.done stable_faithful hk hK hs
  | cons row rest ih =>
    unfold enqueueRows
    apply System.Ensures.bind
    · exact enqueueRow_ensures hK hk hs fun w h => hrows w h row List.mem_cons_self
    · intro ok w' hk' hs'
      split
      · exact ih hk' hs' fun w h r hr => hrows w h r (List.mem_cons_of_mem _ hr)
      · exact System.Ensures.done stable_faithful hk' hK hs'

end

theorem enqueueSource_ensures (hk : Kept w) : (enqueueSystem restate).Ensures Honest Kept (fun _ _ => True)
    (enqueueSource source endpoints now) w := by
  have htrue : (enqueueSystem restate).Stable Honest Kept fun _ => True := System.stable_true
  have hdone : ∀ {α : Type} (a : α) {w'}, Kept w' →
      (enqueueSystem restate).Ensures Honest Kept (fun _ _ => True) (pure a) w' :=
    fun a _ hk' => System.Ensures.done stable_faithful hk' htrue trivial
  unfold enqueueSource
  apply System.Ensures.bind
  · exact System.Ensures.query stable_faithful hk htrue trivial (fun _ => htrue) fun _ _ _ => trivial
  intro cursor w' hk' _
  apply System.Ensures.bind
  · exact System.Ensures.query (F := fun rows => AllRecorded source rows) stable_faithful hk' htrue
      trivial (fun _ => stable_allRecorded) fun w' _ _ row hrow =>
        ⟨row, (RowidTable.mem_above.mp (List.mem_of_mem_take hrow)).1, .refl row⟩
  intro rows w' hk' hrows
  split
  · exact hdone _ hk'
  apply System.Ensures.bind
  · exact enqueueRows_ensures stable_allRecorded hk' hrows fun _ h => h
  intro ok w' hk' _
  split
  · exact hdone _ hk'
  split
  · apply System.Ensures.bind
    · exact System.Ensures.request (F := fun _ _ => True) stable_faithful hk' htrue trivial
        (fun _ => htrue) (fun _ _ _ => trivial) (fun _ _ _ => trivial) fun _ _ _ _ _ => trivial
    · rintro (_ | _) w' hk' _
      · exact hdone _ hk'
      · exact hdone _ hk'
  · exact hdone _ hk'

theorem enqueuePasses_ensures (throws : Nat → Bool) (n : Nat) (hk : Kept w) :
    (enqueueSystem restate).Ensures Honest Kept (fun _ _ => True)
      (enqueuePasses source endpoints now throws n) w := by
  induction n generalizing w with
  | zero => exact System.Ensures.done stable_faithful hk System.stable_true trivial
  | succ n ih =>
    unfold enqueuePasses
    split
    · exact System.Ensures.done stable_faithful hk System.stable_true trivial
    · apply System.Ensures.bind
      · exact enqueueSource_ensures hk
      · rintro (_ | scanned) w' hk' _
        · exact System.Ensures.done stable_faithful hk' System.stable_true trivial
        · dsimp only
          split
          · exact System.Ensures.done stable_faithful hk' System.stable_true trivial
          · exact ih hk'

theorem enqueueSources_ensures (throws : EventSource → Nat → Bool) (sources : List EventSource)
    (hk : Kept w) : (enqueueSystem restate).Ensures Honest Kept (fun _ _ => True)
      (enqueueSources endpoints now throws sources) w := by
  induction sources generalizing w with
  | nil => exact System.Ensures.done stable_faithful hk System.stable_true trivial
  | cons source rest ih =>
    unfold enqueueSources
    apply System.Ensures.bind
    · exact enqueuePasses_ensures (throws source) 4 hk
    · intro _ w' hk' _
      exact ih hk'

/-- Every program inserts only deliveries of events that are there. -/
theorem run_ensures {p : OutboxProg Unit} (hp : OutboxRun p) (hk : Kept w) :
    (enqueueSystem restate).Ensures Honest Kept (fun _ _ => True) p w := by
  have htrue : (enqueueSystem restate).Stable Honest Kept fun _ => True := System.stable_true
  cases hp with
  | tick now throws =>
    unfold enqueueWebhooks
    apply System.Ensures.bind
    · exact System.Ensures.query stable_faithful hk htrue trivial (fun _ => htrue)
        fun _ _ _ => trivial
    · intro endpoints w' hk' _
      split
      · exact System.Ensures.done stable_faithful hk' htrue trivial
      · exact enqueueSources_ensures throws _ hk'
  | outside write houtside =>
    have hhonest : ∀ w, Honest write w := by
      intro w
      cases write with
      | enqueue source row endpoint_id now => cases houtside
      | _ => trivial
    apply System.Ensures.bind
    · exact System.Ensures.request (F := fun _ _ => True) stable_faithful hk htrue trivial
        (fun _ => htrue) (fun _ _ _ => hhonest _) (fun _ _ _ => trivial) fun _ _ _ _ _ => trivial
    · intro _ w' hk' _
      exact System.Ensures.done stable_faithful hk' htrue trivial

/-- In every run of the ticks the payloads tell their events. -/
theorem reach_faithful {c : Config OutboxWorld OutboxWrite Unit Unit}
    (h0 : w.db.deliveries.rows = []) (h : (enqueueSystem restate).Reach ⟨w, []⟩ c) :
    Faithful c.state.db := by
  refine System.reach_inv stable_faithful (fun p hp w hk => run_ensures hp hk) ?_ h
  intro d hd
  have hd : d ∈ w.db.deliveries.rows := hd
  rw [h0] at hd
  cases hd

end

end Licensecc.Webhook
