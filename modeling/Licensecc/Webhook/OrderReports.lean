-- What the webhooks say of orders. The payload of a delivery is built from the order
-- event as the tick has read it, and no later change of the event comes to the receiver.
-- A delivery carries the outcome when the event had it before a tick has read it.
import Licensecc.Webhook.Cursor

open Licensecc.Codec Licensecc.Sql Licensecc.Conc

namespace Licensecc.Webhook

variable {reparse : String → Option (List Char)} {w w' : OutboxWorld} {i : OutboxIds}
  {db : OutboxDb}

/-! ## Outcomes -/

/-- The order event has its outcome. -/
def HasOutcome (row : SourceRow) : Prop :=
  ∃ o, row.data = .order o ∧ (o.status = .processed ∨ o.status = .rejected)

/-- In every state the endpoint was active and wanted the event. -/
def InScopeThroughout (w : OutboxWorld) (row : SourceRow) (endpoint_id : String) : Prop :=
  ∀ db ∈ w.states, ∃ endpoint ∈ db.endpoints, endpoint.id = endpoint_id ∧
    endpoint.status = .active ∧ endpoint.wants .order row = true

/-- Every order event with an outcome that the ticks have passed has, for each endpoint
that was in scope throughout, a delivery with the payload of the event as it is. -/
def OutcomesReported (reparse : String → Option (List Char)) (w : OutboxWorld) : Prop :=
  ∀ row ∈ w.db.events .order, HasOutcome row → row.event_id ≤ readCursor .order w.db →
    ∀ endpoint_id, InScopeThroughout w row endpoint_id →
      ∃ d ∈ w.db.deliveries, d.endpoint_id = endpoint_id ∧ d.event_source = .order ∧
        d.event_id = row.event_id ∧ d.payload_json = buildWebhookPayload reparse .order row

/-- A delivery of an order event is inserted from the event as it is then, and an order
event that changes has no delivery yet. -/
def Timely (e : OutboxEntry) : Prop :=
  match e.write with
  | .enqueue source row endpoint_id _ =>
    source = .order → ¬ IsQueued e.before .order row.event_id endpoint_id →
      row ∈ e.before.events .order
  | .order id change => (∃ row ∈ (e.before.events .order).rows, change.update id row ≠ row) →
      ¬ ∃ d ∈ e.before.deliveries, d.event_source = .order ∧ d.event_id = id
  | _ => True

instance (e : OutboxEntry) : Decidable (Timely e) := by
  unfold Timely IsQueued
  split
  · exact inferInstanceAs (Decidable (_ → ¬ _ → _ ∈ (e.before.events .order).rows))
  · infer_instance
  · infer_instance

/-- Every delivery of an order event has the payload of the event as it is. -/
def Current (reparse : String → Option (List Char)) (db : OutboxDb) : Prop :=
  ∀ d ∈ db.deliveries, d.event_source = .order → ∃ row ∈ db.events .order,
    row.event_id = d.event_id ∧ d.payload_json = buildWebhookPayload reparse .order row

/-! ## One write -/

theorem update_other {change : OrderChange} {id : Int} {row : SourceRow} (h : row.event_id ≠ id) :
    change.update id row = row := by
  unfold OrderChange.update
  split
  · rw [if_neg fun hboth => h hboth.1]
  · rfl

theorem of_mem_insertOrIgnore {row d : Delivery} {t : Table Delivery} (h : d ∈ insertOrIgnore row t) :
    d ∈ t ∨ d = row ∧ ∀ d' ∈ t, ¬ Schema.clash row d' := by
  unfold insertOrIgnore at h
  split at h
  · rename_i t' ht
    rcases (Table.mem_of_insert ht).mp h with rfl | h
    · exact .inr ⟨rfl, (Table.insert_eq_ok.mp ht).2.2.1⟩
    · exact .inl h
  · exact .inl h

theorem Current.write (h : Current reparse db) (write : OutboxWrite)
    (ht : Timely ⟨write, (), db, write.apply reparse i db⟩) :
    Current reparse (write.apply reparse i db) := by
  cases write with
  | event source columns =>
    simp only [OutboxWrite.apply]
    split
    · rename_i hnext
      intro d hd hsource
      obtain ⟨row, hrow, hid, hpayload⟩ := h d hd hsource
      refine ⟨row, ?_, hid, hpayload⟩
      by_cases hs : source = .order
      · subst hs
        simp only [Function.update_self]
        exact RowidTable.mem_append.mpr (.inl hrow)
      · simp only [Function.update_of_ne (Ne.symm hs)]
        exact hrow
    · exact h
  | order id change =>
    intro d hd hsource
    obtain ⟨row, hrow, hid, hpayload⟩ := h d hd hsource
    have hsame : change.update id row = row := by
      by_contra hne
      have hrowid : row.event_id = id := by
        by_contra hother
        exact hne (update_other hother)
      exact ht ⟨row, hrow, hne⟩ ⟨d, hd, hsource, hid ▸ hrowid⟩
    refine ⟨row, ?_, hid, hpayload⟩
    simp only [OutboxWrite.apply, Function.update_self]
    exact RowidTable.mem_modify.mpr ⟨row, hrow, hsame⟩
  | endpoints table => exact h
  | deliveries table =>
    simp only [OutboxWrite.apply]
    split
    · rename_i hqueued
      intro d hd hsource
      have hmem : d.queued ∈ db.deliveries.rows.map Delivery.queued :=
        hqueued ▸ List.mem_map_of_mem hd
      obtain ⟨d', hd', heq⟩ := List.mem_map.mp hmem
      simp only [Delivery.queued, Prod.mk.injEq] at heq
      obtain ⟨-, -, hs, hid, hp⟩ := heq
      obtain ⟨row, hrow, hrowid, hpayload⟩ := h d' hd' (hs.trans hsource)
      exact ⟨row, hrow, hrowid.trans hid, hp.symm.trans hpayload⟩
    · exact h
  | enqueue source row endpoint_id now =>
    intro d hd hsource
    rcases of_mem_insertOrIgnore hd with hd | ⟨rfl, hnew⟩
    · exact h d hd hsource
    · have hs : source = .order := hsource
      subst hs
      refine ⟨row, ht rfl fun hqueued => ?_, rfl, rfl⟩
      obtain ⟨d', hd', h1, h2, h3⟩ := hqueued
      exact hnew d' hd' (.inr ⟨h1.symm, h2.symm, h3.symm⟩)
  | advance a => exact h

/-! ## Runs -/

/-- A database in which nothing was enqueued, and which has no deliveries. -/
structure Unqueued (w : OutboxWorld) : Prop extends Unsent w where
  deliveries : w.db.deliveries.rows = []

theorem reach_current {c : Config OutboxWorld OutboxWrite Unit Unit} (h0 : Unqueued w)
    (h : (outboxSystem reparse).Reach ⟨w, []⟩ c) (ht : ∀ e ∈ c.state.log, Timely e) :
    Current reparse c.state.db := by
  refine System.reach_state (I := fun w => (∀ e ∈ w.log, Timely e) → Current reparse w.db)
    (fun i write w _ ih ht => ?_) h (fun _ d hd => ?_) ht
  · obtain ⟨hnew, hold⟩ := List.forall_mem_cons.mp ht
    exact (ih hold).write write hnew
  · have hd : d ∈ w.db.deliveries.rows := hd
    rw [h0.deliveries] at hd
    cases hd

/-- In every run in which order events get their outcomes before a tick has read them,
the deliveries carry the outcomes. -/
theorem outcomes_are_reported_when_timely {c : Config OutboxWorld OutboxWrite Unit Unit}
    (h0 : Unqueued w) (h : (outboxSystem reparse).Reach ⟨w, []⟩ c)
    (ht : ∀ e ∈ c.state.log, Timely e) : OutcomesReported reparse c.state := by
  have hdelivering := reach_delivering h0.toUnsent h
  intro row hrow _ hle endpoint_id hscope
  obtain ⟨e, he, a, ha, hsource, hlt, hmax⟩ := (hdelivering.known .order).passed row hrow hle
  have henqueued := hdelivering.enqueued e he a ha
  -- The endpoint is among those that the tick has read.
  obtain ⟨db, hdb, hread⟩ := henqueued.read
  obtain ⟨endpoint, hendpoint, hid, hactive, hwants⟩ := hscope db hdb
  have hin : endpoint ∈ a.endpoints := by
    rw [hread]
    exact List.mem_filter.mpr ⟨hendpoint, by simpa using hactive⟩
  have hqueued := henqueued.queued row (hsource ▸ hrow) hlt hmax endpoint hin (hsource ▸ hwants)
  obtain ⟨d, hd, hdid, hdsource, hdevent⟩ := hqueued
  rw [hsource] at hdsource
  obtain ⟨row', hrow', hrowid, hpayload⟩ := reach_current h0 h ht d hd hdsource
  have hsame : row' = row := RowidTable.unique hrow' hrow (hrowid.trans hdevent)
  rw [hsame] at hpayload
  exact ⟨d, hd, hdid.trans hid, hdsource, hdevent, hpayload⟩

/-! ## An outcome that comes after the tick -/

/-- An endpoint that wants everything, and nothing else. -/
def endpointOutbox : OutboxWorld := ⟨{ endpoints := oneEndpoint }, []⟩

theorem unqueued_endpoint : Unqueued endpointOutbox := by
  refine ⟨⟨fun _ => rfl, fun _ r hr => ?_, rfl⟩, rfl⟩
  cases hr

def acceptedOrder : OrderSource where
  order_event_id := "evt-1"
  subscription_id := "sub-1"
  project := "DEFAULT"
  feature := "DEFAULT"
  status := .accepted
  result_json := ""

def orderEvent (status : OrderStatus) (result_json : String) : SourceColumns where
  event_type := "subscription.active"
  occurred_at := 1700000000
  data := .order { acceptedOrder with status := status, result_json := result_json }

/-- What a refusal stores. -/
def refusedResult : String := "\x7b\"ok\":false,\"code\":\"entitlement_revoked\"\x7d"

def acceptedRow : SourceRow := { toSourceColumns := orderEvent .accepted "", event_id := 1 }

def rejectedRow : SourceRow :=
  { toSourceColumns := orderEvent .rejected refusedResult, event_id := 1 }

/-- A tick reads the accepted event, and then the event is refused. -/
def tickBeforeRefusal : List (System.Choice OutboxWorld OutboxWrite Unit OutboxIds Unit) :=
  let ids : Int → OutboxIds := fun delivery => ⟨fun _ => 2, delivery⟩
  [.start (Prog.request (.event .order (orderEvent .accepted "")) >>= fun _ => pure ()),
    .write 0 ⟨fun _ => 1, 1⟩,
    .start (enqueueWebhooks 1700000060 fun _ _ => false),
    .read 0, .read 0, .read 0, .read 0, .read 0, .read 0, .read 0,
    .write 0 (ids 1), .write 0 (ids 2),
    .start (Prog.request (.order 1 (.terminal .rejected refusedResult)) >>= fun _ => pure ()),
    .write 0 (ids 2)]

/-- What is left of the run. -/
structure ToldAccepted (reparse : String → Option (List Char)) (w : OutboxWorld) : Prop where
  rows : (w.db.events .order).rows = [rejectedRow]
  cursor : readCursor .order w.db = 1
  payloads : w.db.deliveries.rows.map (·.payload_json) =
    [buildWebhookPayload reparse .order acceptedRow]
  endpoints : w.states.map (·.endpoints.rows) = List.replicate 5 [globalEndpoint]

set_option maxRecDepth 20000 in
theorem tick_before_refusal (reparse : String → Option (List Char)) :
    ∃ c, (outboxSystem reparse).Reach ⟨endpointOutbox, []⟩ c ∧ ToldAccepted reparse c.state := by
  have hplay : ((outboxSystem reparse).playAll ⟨endpointOutbox, []⟩ tickBeforeRefusal).map
      (fun c => ((c.state.db.events .order).rows, readCursor .order c.state.db,
        c.state.db.deliveries.rows.map (·.payload_json), c.state.states.map (·.endpoints.rows))) =
      some ([rejectedRow], 1, [buildWebhookPayload reparse .order acceptedRow],
        List.replicate 5 [globalEndpoint]) := by
    rfl
  obtain ⟨c, hc, hleft⟩ := Option.map_eq_some_iff.mp hplay
  simp only [Prod.mk.injEq] at hleft
  obtain ⟨h1, h2, h3, h4⟩ := hleft
  refine ⟨c, System.reach_of_playAll hc ?_, h1, h2, h3, h4⟩
  exact ⟨.outside _ trivial, .tick _ _, .outside _ trivial, trivial⟩

theorem ToldAccepted.not_reported (h : ToldAccepted (fun _ => none) w) :
    ¬ OutcomesReported (fun _ => none) w := by
  intro hreported
  have hrow : rejectedRow ∈ w.db.events .order := by
    rw [RowidTable.mem_def, h.rows]
    exact List.mem_cons_self
  have hscope : InScopeThroughout w rejectedRow "whk-1" := by
    intro db hdb
    have hendpoints : db.endpoints.rows ∈ List.replicate 5 [globalEndpoint] :=
      h.endpoints ▸ List.mem_map_of_mem hdb
    refine ⟨globalEndpoint, ?_, rfl, rfl, rfl⟩
    rw [Table.mem_def, List.eq_of_mem_replicate hendpoints]
    exact List.mem_cons_self
  obtain ⟨d, hd, -, -, -, hpayload⟩ := hreported rejectedRow hrow ⟨_, rfl, .inr rfl⟩ h.cursor.ge
    "whk-1" hscope
  have hmem : d.payload_json ∈ [buildWebhookPayload (fun _ => none) .order acceptedRow] :=
    h.payloads ▸ List.mem_map_of_mem hd
  have htexts : buildWebhookPayload (fun _ => none) .order rejectedRow =
      buildWebhookPayload (fun _ => none) .order acceptedRow :=
    hpayload.symm.trans (List.mem_singleton.mp hmem)
  cases @payload_status (fun _ => none) "subscription.active" 1700000000 1 acceptedOrder .rejected
    .accepted refusedResult "" htexts

theorem an_outcome_after_the_tick_is_not_reported : ¬ ∀ reparse w c, Unqueued w →
    (outboxSystem reparse).Reach ⟨w, []⟩ c → OutcomesReported reparse c.state := by
  intro hall
  obtain ⟨c, hreach, htold⟩ := tick_before_refusal fun _ => none
  exact htold.not_reported (hall _ _ c unqueued_endpoint hreach)

/-- The event is refused, and then a tick reads it. -/
def refusalBeforeTick : List (System.Choice OutboxWorld OutboxWrite Unit OutboxIds Unit) :=
  let ids : Int → OutboxIds := fun delivery => ⟨fun _ => 2, delivery⟩
  [.start (Prog.request (.event .order (orderEvent .accepted "")) >>= fun _ => pure ()),
    .write 0 ⟨fun _ => 1, 1⟩,
    .start (Prog.request (.order 1 (.terminal .rejected refusedResult)) >>= fun _ => pure ()),
    .write 0 (ids 1),
    .start (enqueueWebhooks 1700000060 fun _ _ => false),
    .read 0, .read 0, .read 0, .read 0, .read 0, .read 0, .read 0,
    .write 0 (ids 1), .write 0 (ids 2)]

set_option maxRecDepth 20000 in
theorem an_outcome_before_the_tick_is_reported :
    ∃ c, (outboxSystem fun text => some text.toList).Reach ⟨endpointOutbox, []⟩ c ∧
      (c.state.db.events .order).rows = [rejectedRow] ∧
      OutcomesReported (fun text => some text.toList) c.state := by
  have hplay : ((outboxSystem fun text => some text.toList).playAll ⟨endpointOutbox, []⟩
      refusalBeforeTick).map (fun c => ((c.state.db.events .order).rows,
        decide (∀ e ∈ c.state.log, Timely e))) = some ([rejectedRow], true) := by
    rfl
  obtain ⟨c, hc, hleft⟩ := Option.map_eq_some_iff.mp hplay
  simp only [Prod.mk.injEq, decide_eq_true_eq] at hleft
  have hreach := System.reach_of_playAll hc
    ⟨.outside _ trivial, .outside _ trivial, .tick _ _, trivial⟩
  exact ⟨c, hreach, hleft.1, outcomes_are_reported_when_timely unqueued_endpoint hreach hleft.2⟩

end Licensecc.Webhook
