-- The laws of the cursors. Whatever overlaps, the events up to a cursor are queued for
-- the endpoints that their tick has read. A cursor moves back exactly when a tick
-- writes it that another tick has overtaken.
import Licensecc.Webhook.Enqueue

open Licensecc.Codec Licensecc.Sql Licensecc.Conc

namespace Licensecc.Webhook

variable {reparse : String → Option (List Char)} {w w' : OutboxWorld} {i : OutboxIds}
  {source : EventSource} {a : Advance}

/-! ## The dispatch keeps what is queued -/

/-- Every statement that keeps the columns of a queued delivery is one that the system
has. -/
theorem queued_of_updateReturning {sel : Delivery → Prop} [DecidablePred sel]
    {set : Delivery → Delivery} {t t' : Table Delivery} (h : updateReturning sel set t = some t')
    (hset : ∀ d, (set d).queued = d.queued) :
    t'.rows.map Delivery.queued = t.rows.map Delivery.queued := by
  rw [(of_updateReturning h).2, List.map_map]
  refine List.map_congr_left fun d _ => ?_
  by_cases hd : sel d
  · simp [hd, hset]
  · simp [hd]

theorem claim_queued {t t' : Table Delivery} {id dueAt claimUntil : Int}
    (h : claimPendingWebhookDelivery t id dueAt claimUntil = some t') :
    t'.rows.map Delivery.queued = t.rows.map Delivery.queued :=
  queued_of_updateReturning h fun _ => rfl

theorem outcome_queued {t t' : Table Delivery} {o : Outcome}
    (h : persistWebhookDeliveryOutcome t o = some t') :
    t'.rows.map Delivery.queued = t.rows.map Delivery.queued := by
  refine queued_of_updateReturning h fun d => ?_
  unfold Outcome.set
  split
  · rfl
  · split
    · rfl
    · rfl

theorem cancel_queued {t t' : Table Delivery} {id claimUntil : Int}
    (h : cancelOutOfScopeWebhookDelivery t id claimUntil = some t') :
    t'.rows.map Delivery.queued = t.rows.map Delivery.queued :=
  queued_of_updateReturning h fun _ => rfl

theorem redrive_queued {t t' : Table Delivery} {id now : Int}
    (h : redriveDelivery t id now = some t') :
    t'.rows.map Delivery.queued = t.rows.map Delivery.queued :=
  queued_of_updateReturning h fun _ => rfl

/-! ## What grows -/

/-- Two rows are of one event: what the endpoints look at is the same. -/
def SameEvent (r r' : SourceRow) : Prop :=
  r'.event_id = r.event_id ∧ r'.event_type = r.event_type ∧ r'.data.eventData = r.data.eventData

theorem SameEvent.refl (r : SourceRow) : SameEvent r r := ⟨rfl, rfl, rfl⟩

theorem SameEvent.trans {r r' r'' : SourceRow} (h : SameEvent r r') (h' : SameEvent r' r'') :
    SameEvent r r'' := ⟨h'.1.trans h.1, h'.2.1.trans h.2.1, h'.2.2.trans h.2.2⟩

theorem SameEvent.wants {r r' : SourceRow} (h : SameEvent r r') (endpoint : WebhookEndpoint) :
    endpoint.wants source r' = endpoint.wants source r := by
  unfold WebhookEndpoint.wants
  rw [h.2.1, h.2.2]

/-- The event is queued for the endpoint. -/
def IsQueued (db : OutboxDb) (source : EventSource) (id : Int) (endpoint_id : String) : Prop :=
  ∃ d ∈ db.deliveries, d.endpoint_id = endpoint_id ∧ d.event_source = source ∧ d.event_id = id

/-- The databases that there were, the newest first. -/
def OutboxWorld.states (w : OutboxWorld) : List OutboxDb := w.db :: w.log.map (·.before)

/-- What every write keeps. -/
structure Grown (w w' : OutboxWorld) : Prop where
  events : ∀ source, ∀ r ∈ w.db.events source, ∃ r' ∈ w'.db.events source, SameEvent r r'
  new : ∀ source, ∀ r' ∈ w'.db.events source, (∃ r ∈ w.db.events source, SameEvent r r') ∨
    0 < r'.event_id ∧ ∀ r ∈ w.db.events source, r.event_id < r'.event_id
  queued : ∀ source id endpoint_id, IsQueued w.db source id endpoint_id →
    IsQueued w'.db source id endpoint_id
  log : w.log <:+ w'.log
  states : w.states <:+ w'.states

theorem Grown.refl (w : OutboxWorld) : Grown w w :=
  ⟨fun _ r hr => ⟨r, hr, .refl r⟩, fun _ r hr => .inl ⟨r, hr, .refl r⟩, fun _ _ _ h => h,
    List.suffix_refl _, List.suffix_refl _⟩

theorem Grown.trans {w'' : OutboxWorld} (h : Grown w w') (h' : Grown w' w'') : Grown w w'' := by
  refine ⟨fun source r hr => ?_, fun source r'' hr'' => ?_,
    fun source id endpoint_id hq => h'.queued source id endpoint_id (h.queued source id endpoint_id hq),
    h.log.trans h'.log, h.states.trans h'.states⟩
  · obtain ⟨r', hr', hsame⟩ := h.events source r hr
    obtain ⟨r'', hr'', hsame'⟩ := h'.events source r' hr'
    exact ⟨r'', hr'', hsame.trans hsame'⟩
  · rcases h'.new source r'' hr'' with ⟨r', hr', hsame'⟩ | ⟨hpos, hnew⟩
    · rcases h.new source r' hr' with ⟨r, hr, hsame⟩ | ⟨hpos, hnew⟩
      · exact .inl ⟨r, hr, hsame.trans hsame'⟩
      · right
        rw [hsame'.1]
        exact ⟨hpos, hnew⟩
    · refine .inr ⟨hpos, fun r hr => ?_⟩
      obtain ⟨r', hr', hsame⟩ := h.events source r hr
      rw [← hsame.1]
      exact hnew r' hr'

/-! ## The writes -/

theorem update_same (change : OrderChange) (id : Int) (r : SourceRow) :
    SameEvent r (change.update id r) := by
  unfold OrderChange.update
  split
  · rename_i o ho
    split
    · refine ⟨rfl, rfl, ?_⟩
      cases change with
      | terminal => simp [OrderChange.set, SourceData.eventData, ho]
      | finalize => simp [OrderChange.set, SourceData.eventData, ho]
    · exact .refl r
  · exact .refl r

theorem mem_of_insertOrIgnore {row d : Delivery} {t : Table Delivery} (h : d ∈ t) :
    d ∈ insertOrIgnore row t := by
  unfold insertOrIgnore
  split
  · rename_i t' ht
    exact (Table.mem_of_insert ht).mpr (.inr h)
  · exact h

/-- After the insert the event is queued, by this insert or by one before. -/
theorem queued_of_insertOrIgnore {row : Delivery} {t : Table Delivery} (hnew : ∀ d ∈ t, d.id < row.id) :
    ∃ d ∈ insertOrIgnore row t, d.endpoint_id = row.endpoint_id ∧
      d.event_source = row.event_source ∧ d.event_id = row.event_id := by
  by_cases hclash : ∀ d ∈ t, ¬ Schema.clash row d
  · obtain ⟨t', ht⟩ := Table.insert_ok rfl trivial hclash
    refine ⟨row, ?_, rfl, rfl, rfl⟩
    unfold insertOrIgnore
    rw [ht]
    exact (Table.mem_of_insert ht).mpr (.inl rfl)
  · simp only [not_forall, not_not] at hclash
    obtain ⟨d, hd, hsame⟩ := hclash
    refine ⟨d, mem_of_insertOrIgnore hd, ?_⟩
    rcases hsame with hid | ⟨h1, h2, h3⟩
    · exact absurd (hnew d hd) (by omega)
    · exact ⟨h1.symm, h2.symm, h3.symm⟩

/-- The rows of the other sources stay. -/
theorem events_update {events : EventSource → RowidTable SourceRow} {t : RowidTable SourceRow}
    {source other : EventSource} (hkeep : ∀ r ∈ events source, ∃ r' ∈ t, SameEvent r r')
    (hnew : ∀ r' ∈ t, (∃ r ∈ events source, SameEvent r r') ∨
      0 < r'.event_id ∧ ∀ r ∈ events source, r.event_id < r'.event_id) :
    (∀ r ∈ events other, ∃ r' ∈ Function.update events source t other, SameEvent r r') ∧
      ∀ r' ∈ Function.update events source t other, (∃ r ∈ events other, SameEvent r r') ∨
        0 < r'.event_id ∧ ∀ r ∈ events other, r.event_id < r'.event_id := by
  by_cases h : other = source
  · subst h
    rw [Function.update_self]
    exact ⟨hkeep, hnew⟩
  · rw [Function.update_of_ne h]
    exact ⟨fun r hr => ⟨r, hr, .refl r⟩, fun r hr => .inl ⟨r, hr, .refl r⟩⟩

/-- What a write keeps of the rows. -/
structure Keeps (db db' : OutboxDb) : Prop where
  events : ∀ source, (∀ r ∈ db.events source, ∃ r' ∈ db'.events source, SameEvent r r') ∧
    ∀ r' ∈ db'.events source, (∃ r ∈ db.events source, SameEvent r r') ∨
      0 < r'.event_id ∧ ∀ r ∈ db.events source, r.event_id < r'.event_id
  queued : ∀ source id endpoint_id, IsQueued db source id endpoint_id →
    IsQueued db' source id endpoint_id

theorem apply_keeps (hi : i.Admits w) (write : OutboxWrite) :
    Keeps w.db (write.apply reparse i w.db) := by
  have hrest : ∀ source, (∀ r ∈ w.db.events source, ∃ r' ∈ w.db.events source, SameEvent r r') ∧
      ∀ r' ∈ w.db.events source, (∃ r ∈ w.db.events source, SameEvent r r') ∨
        0 < r'.event_id ∧ ∀ r ∈ w.db.events source, r.event_id < r'.event_id :=
    fun source => ⟨fun r hr => ⟨r, hr, .refl r⟩, fun r hr => .inl ⟨r, hr, .refl r⟩⟩
  cases write with
  | event source columns =>
    have hnext : (w.db.events source).Next
        ({ toSourceColumns := columns, event_id := i.event source } : SourceRow) :=
      hi.event_above source
    simp only [OutboxWrite.apply, dif_pos hnext]
    refine ⟨fun other => events_update (fun r hr => ?_) fun r' hr' => ?_, fun _ _ _ h => h⟩
    · exact ⟨r, RowidTable.mem_append.mpr (.inl hr), .refl r⟩
    · rcases (RowidTable.mem_append (h := hnext)).mp hr' with hr | rfl
      · exact .inl ⟨r', hr, .refl r'⟩
      · exact .inr ⟨hi.event_pos source, fun r hr => hnext r hr⟩
  | order id change =>
    refine ⟨fun other => events_update (fun r hr => ?_) fun r' hr' => ?_, fun _ _ _ h => h⟩
    · exact ⟨_, RowidTable.mem_modify.mpr ⟨r, hr, rfl⟩, update_same change id r⟩
    · obtain ⟨r, hr, rfl⟩ := RowidTable.mem_modify.mp hr'
      exact .inl ⟨r, hr, update_same change id r⟩
  | endpoints table => exact ⟨hrest, fun _ _ _ h => h⟩
  | deliveries table =>
    simp only [OutboxWrite.apply]
    split
    · rename_i hsame
      refine ⟨hrest, fun source id endpoint_id ⟨d, hd, hkey⟩ => ?_⟩
      have hmem : d.queued ∈ table.rows.map Delivery.queued := hsame ▸ List.mem_map_of_mem hd
      obtain ⟨d', hd', heq⟩ := List.mem_map.mp hmem
      simp only [Delivery.queued, Prod.mk.injEq] at heq
      refine ⟨d', hd', ?_⟩
      rw [heq.2.1, heq.2.2.1, heq.2.2.2.1]
      exact hkey
    · exact ⟨hrest, fun _ _ _ h => h⟩
  | enqueue source row endpoint_id now =>
    exact ⟨hrest, fun _ _ _ ⟨d, hd, hkey⟩ => ⟨d, mem_of_insertOrIgnore hd, hkey⟩⟩
  | advance a => exact ⟨hrest, fun _ _ _ h => h⟩

/-- One write. -/
theorem exec_grown (hi : i.Admits w) (write : OutboxWrite) :
    Grown w (execOutbox reparse i write w).2 := by
  have hkeeps : Keeps w.db (write.apply reparse i w.db) := apply_keeps hi write
  exact ⟨fun source => (hkeeps.events source).1, fun source => (hkeeps.events source).2,
    hkeeps.queued, List.suffix_cons _ _, List.suffix_cons _ _⟩

/-! ## What a cursor says -/

/-- The move of the cursor passed the event. -/
def Passes (source : EventSource) (id : Int) (e : OutboxEntry) : Prop :=
  ∃ a, e.write = .advance a ∧ a.source = source ∧ a.cursor < id ∧ id ≤ a.maxId

/-- No later event has an id up to here. -/
def Settled (source : EventSource) (v : Int) (db : OutboxDb) : Prop :=
  v ≤ 0 ∨ ∃ r ∈ db.events source, v ≤ r.event_id

/-- A value that the cursor has had: every event up to it was passed. -/
structure Known (source : EventSource) (v : Int) (w : OutboxWorld) : Prop where
  settled : Settled source v w.db
  passed : ∀ r ∈ w.db.events source, r.event_id ≤ v → ∃ e ∈ w.log, Passes source r.event_id e

/-- What a tick has done before it moves a cursor. -/
structure Enqueued (a : Advance) (w : OutboxWorld) : Prop where
  read : ∃ db ∈ w.states, a.endpoints = loadActiveEndpoints db
  settled : Settled a.source a.maxId w.db
  queued : ∀ r ∈ w.db.events a.source, a.cursor < r.event_id → r.event_id ≤ a.maxId →
    ∀ endpoint ∈ a.endpoints, endpoint.wants a.source r = true →
      IsQueued w.db a.source r.event_id endpoint.id

theorem Grown.settled {v : Int} (h : Grown w w') (hv : Settled source v w.db) :
    Settled source v w'.db := by
  rcases hv with hv | ⟨r, hr, hle⟩
  · exact .inl hv
  · obtain ⟨r', hr', hsame⟩ := h.events source r hr
    exact .inr ⟨r', hr', hsame.1 ▸ hle⟩

/-- An event up to a settled id was there. -/
theorem Grown.was {v : Int} (h : Grown w w') (hv : Settled source v w.db) {r' : SourceRow}
    (hr' : r' ∈ w'.db.events source) (hle : r'.event_id ≤ v) :
    ∃ r ∈ w.db.events source, SameEvent r r' := by
  rcases h.new source r' hr' with hold | ⟨hpos, hnew⟩
  · exact hold
  · rcases hv with hv | ⟨top, htop, htopv⟩
    · omega
    · have := hnew top htop
      omega

theorem Known.grown {v : Int} (h : Known source v w) (hg : Grown w w') : Known source v w' := by
  refine ⟨hg.settled h.settled, fun r' hr' hle => ?_⟩
  obtain ⟨r, hr, hsame⟩ := hg.was h.settled hr' hle
  rw [hsame.1] at hle ⊢
  obtain ⟨e, he, hpass⟩ := h.passed r hr hle
  exact ⟨e, hg.log.subset he, hpass⟩

theorem Enqueued.grown (h : Enqueued a w) (hg : Grown w w') : Enqueued a w' := by
  obtain ⟨db, hdb, hread⟩ := h.read
  refine ⟨⟨db, hg.states.subset hdb, hread⟩, hg.settled h.settled,
    fun r' hr' hlt hle endpoint hendpoint hwants => ?_⟩
  obtain ⟨r, hr, hsame⟩ := hg.was h.settled hr' hle
  rw [hsame.wants endpoint] at hwants
  rw [hsame.1] at hlt hle ⊢
  exact hg.queued _ _ _ (h.queued r hr hlt hle endpoint hendpoint hwants)

/-! ## The invariant -/

/-- Every move of a cursor was one over enqueued events, and every event up to a cursor
was passed. -/
structure Delivering (w : OutboxWorld) : Prop where
  known : ∀ source, Known source (readCursor source w.db) w
  enqueued : ∀ e ∈ w.log, ∀ a, e.write = .advance a → Enqueued a w

/-- A tick moves a cursor over what it has enqueued, from a value that the cursor has
had. -/
def Proper : OutboxWrite → OutboxWorld → Prop
  | .advance a, w => Enqueued a w ∧ Known a.source a.cursor w
  | _, _ => True

theorem readCursor_advance (db : OutboxDb) :
    readCursor source ((OutboxWrite.advance a).apply reparse i db) =
      if a.source = source then a.maxId else readCursor source db := by
  unfold readCursor
  simp only [OutboxWrite.apply]
  by_cases h : a.source = source
  · subst h
    rw [if_pos rfl, Function.update_self]
    rfl
  · rw [if_neg h, Function.update_of_ne (Ne.symm h)]

/-- Only a tick writes a cursor. -/
theorem readCursor_other {write : OutboxWrite} (db : OutboxDb) (h : ∀ a, write ≠ .advance a) :
    readCursor source (write.apply reparse i db) = readCursor source db := by
  unfold readCursor
  cases write with
  | event =>
    simp only [OutboxWrite.apply]
    split <;> rfl
  | deliveries =>
    simp only [OutboxWrite.apply]
    split <;> rfl
  | advance a => exact absurd rfl (h a)
  | _ => rfl

/-- What a move passes is known from then on. -/
theorem Known.advance (hi : i.Admits w) (henqueued : Enqueued a w)
    (hknown : Known a.source a.cursor w) :
    Known a.source a.maxId (execOutbox reparse i (.advance a) w).2 := by
  have hg : Grown w (execOutbox reparse i (.advance a) w).2 := exec_grown hi _
  refine ⟨hg.settled henqueued.settled, fun r' hr' hle => ?_⟩
  obtain ⟨r, hr, hsame⟩ := hg.was henqueued.settled hr' hle
  rw [hsame.1] at hle ⊢
  by_cases hlt : a.cursor < r.event_id
  · exact ⟨_, List.mem_cons_self, a, rfl, rfl, hlt, hle⟩
  · obtain ⟨e, he, hpass⟩ := hknown.passed r hr (not_lt.mp hlt)
    exact ⟨e, List.mem_cons_of_mem _ he, hpass⟩

theorem Delivering.write (hi : i.Admits w) (h : Delivering w) {write : OutboxWrite}
    (hp : Proper write w) : Delivering (execOutbox reparse i write w).2 := by
  have hg : Grown w (execOutbox reparse i write w).2 := exec_grown hi write
  refine ⟨fun source => ?_, fun e he a ha => ?_⟩
  · by_cases hmove : ∃ a, write = .advance a ∧ a.source = source
    · obtain ⟨a, rfl, rfl⟩ := hmove
      change Known a.source (readCursor a.source ((OutboxWrite.advance a).apply reparse i w.db)) _
      rw [readCursor_advance, if_pos rfl]
      exact Known.advance hi hp.1 hp.2
    · have hsame : readCursor source (write.apply reparse i w.db) = readCursor source w.db := by
        cases write with
        | advance a => rw [readCursor_advance, if_neg fun hs => hmove ⟨a, rfl, hs⟩]
        | _ => exact readCursor_other w.db nofun
      change Known source (readCursor source (write.apply reparse i w.db)) _
      rw [hsame]
      exact (h.known source).grown hg
  · rcases List.mem_cons.mp he with rfl | he
    · have hp : Proper (.advance a) w := ha ▸ hp
      exact hp.1.grown hg
    · exact (h.enqueued e he a ha).grown hg

/-! ## The ticks -/

section
variable (reparse) {endpoints : List WebhookEndpoint} {now : Int} {rows : List SourceRow}
  {cursor : Int}

/-- What the others do meanwhile. -/
def Meanwhile (w w' : OutboxWorld) : Prop := Grown w w' ∧ (Delivering w → Delivering w')

/-- What the programs share. -/
def outboxEnv : Prog.Env OutboxWorld OutboxWrite Unit OutboxIds :=
  (outboxSystem reparse).env Meanwhile

variable {reparse}

theorem le_maxId (rows : List SourceRow) (cursor : Int) : cursor ≤ maxId cursor rows := by
  induction rows generalizing cursor with
  | nil => exact le_rfl
  | cons row rest ih =>
    refine le_trans ?_ (ih _)
    split
    · omega
    · exact le_rfl

theorem mem_le_maxId {r : SourceRow} (h : r ∈ rows) : r.event_id ≤ maxId cursor rows := by
  induction rows generalizing cursor with
  | nil => cases h
  | cons row rest ih =>
    rcases List.mem_cons.mp h with rfl | h
    · refine le_trans ?_ (le_maxId rest _)
      split
      · exact le_rfl
      · omega
    · exact ih h

theorem maxId_cases (rows : List SourceRow) (cursor : Int) :
    maxId cursor rows = cursor ∨ ∃ r ∈ rows, r.event_id = maxId cursor rows := by
  induction rows generalizing cursor with
  | nil => exact .inl rfl
  | cons row rest ih =>
    rcases ih (if cursor < row.event_id then row.event_id else cursor) with h | ⟨r, hr, h⟩
    · by_cases hlt : cursor < row.event_id
      · rw [if_pos hlt] at h
        refine .inr ⟨row, List.mem_cons_self, ?_⟩
        simp only [maxId, if_pos hlt]
        exact h.symm
      · rw [if_neg hlt] at h
        simp only [maxId, if_neg hlt]
        exact .inl h
    · exact .inr ⟨r, List.mem_cons_of_mem _ hr, h⟩

/-- What the SELECT of a pass says from then on: it has every event from the cursor up
to its highest id. -/
structure Scanned (source : EventSource) (cursor : Int) (rows : List SourceRow) (w : OutboxWorld) :
    Prop where
  settled : Settled source (maxId cursor rows) w.db
  all : ∀ r ∈ w.db.events source, cursor < r.event_id → r.event_id ≤ maxId cursor rows →
    ∃ r' ∈ rows, SameEvent r' r

theorem scanned_select (h : Settled source cursor w.db) :
    Scanned source cursor (selectRows source cursor w.db) w := by
  have hin : ∀ r ∈ selectRows source cursor w.db, r ∈ w.db.events source :=
    fun r hr => (RowidTable.mem_above.mp (List.mem_of_mem_take hr)).1
  refine ⟨?_, fun r hr hlt hle => ?_⟩
  · rcases maxId_cases (selectRows source cursor w.db) cursor with hmax | ⟨r, hr, hmax⟩
    · rw [hmax]
      exact h
    · exact .inr ⟨r, hin r hr, hmax.ge⟩
  · have habove : r ∈ (w.db.events source).above cursor := RowidTable.mem_above.mpr ⟨hr, hlt⟩
    have hsorted := RowidTable.sorted_above cursor (w.db.events source)
    rw [← List.take_append_drop WEBHOOK_ENQUEUE_BATCH ((w.db.events source).above cursor)]
      at habove hsorted
    rcases List.mem_append.mp habove with htake | hdrop
    · exact ⟨r, htake, .refl r⟩
    · -- The rows after the batch are above its highest id.
      exfalso
      rcases maxId_cases (selectRows source cursor w.db) cursor with hmax | ⟨r', hr', hmax⟩
      · omega
      · have hlater : r'.event_id < r.event_id :=
          (List.pairwise_append.mp hsorted).2.2 r' hr' r hdrop
        omega

theorem Scanned.grown (h : Scanned source cursor rows w) (hg : Grown w w') :
    Scanned source cursor rows w' := by
  refine ⟨hg.settled h.settled, fun r' hr' hlt hle => ?_⟩
  obtain ⟨r, hr, hsame⟩ := hg.was h.settled hr' hle
  rw [hsame.1] at hlt hle
  obtain ⟨r₀, hr₀, hsame₀⟩ := h.all r hr hlt hle
  exact ⟨r₀, hr₀, hsame₀.trans hsame⟩

/-- The row is queued for these endpoints. -/
def RowQueued (source : EventSource) (endpoints : List WebhookEndpoint) (row : SourceRow)
    (w : OutboxWorld) : Prop :=
  ∀ endpoint ∈ endpoints, endpoint.wants source row = true →
    IsQueued w.db source row.event_id endpoint.id

theorem RowQueued.grown {row : SourceRow} (h : RowQueued source endpoints row w) (hg : Grown w w') :
    RowQueued source endpoints row w' :=
  fun endpoint he hw => hg.queued _ _ _ (h endpoint he hw)

/-- The frame rule for what grows. -/
theorem keep_safe {α : Type} {F : OutboxWorld → Prop} {Q : α → OutboxWorld → Prop}
    (hF : ∀ {w w'}, Grown w w' → F w → F w') {p : OutboxProg α} {w : OutboxWorld}
    (h : p.Safe (outboxEnv reparse) Proper Q w) (hw : F w) :
    p.Safe (outboxEnv reparse) Proper (fun a w => Q a w ∧ F w) w :=
  h.frame (fun {w w'} (hm : Meanwhile w w') => hF hm.1) (fun hi _ => hF (exec_grown hi _)) hw

theorem enqueue_safe (row : SourceRow) (endpoint_id : String) (w : OutboxWorld) :
    (Prog.request (.enqueue source row endpoint_id now)).Safe (outboxEnv reparse) Proper
      (fun r w => r = some () → IsQueued w.db source row.event_id endpoint_id) w := by
  refine Prog.Safe.request (fun _ _ => trivial) (fun _ _ _ _ => nofun) fun w₁ w₂ i _ hi hg _ => ?_
  have hnew : ∀ d ∈ w₁.db.deliveries,
      d.id < (newDelivery reparse i.delivery source row endpoint_id now).id := hi.delivery_above
  obtain ⟨d, hd, hkey⟩ := queued_of_insertOrIgnore hnew
  exact hg.1.queued _ _ _ ⟨d, hd, hkey⟩

theorem enqueueRow_safe (row : SourceRow) (w : OutboxWorld) :
    (enqueueRow source now row endpoints).Safe (outboxEnv reparse) Proper
      (fun ok w => ok = true → RowQueued source endpoints row w) w := by
  induction endpoints generalizing w with
  | nil => exact fun _ _ _ => nofun
  | cons endpoint rest ih =>
    unfold enqueueRow
    split
    · refine (enqueue_safe row endpoint.id w).bind fun r w₁ hr => ?_
      cases r with
      | none => exact fun _ _ => nofun
      | some u =>
        refine (keep_safe (fun hg => hg.queued _ _ _) (ih w₁) (hr w₁ ⟨.refl w₁, id⟩ rfl)).mono
          (fun _ _ h => h) fun ok w' h hok e he hwants => ?_
        rcases List.mem_cons.mp he with rfl | he
        · exact h.2
        · exact h.1 hok e he hwants
    · rename_i hnot
      refine (ih w).mono (fun _ _ h => h) fun ok w' h hok e he hwants => ?_
      rcases List.mem_cons.mp he with rfl | he
      · exact absurd hwants hnot
      · exact h hok e he hwants

theorem enqueueRows_safe (w : OutboxWorld) :
    (enqueueRows source now endpoints rows).Safe (outboxEnv reparse) Proper
      (fun ok w => ok = true → ∀ row ∈ rows, RowQueued source endpoints row w) w := by
  induction rows generalizing w with
  | nil => exact fun _ _ _ => nofun
  | cons row rest ih =>
    unfold enqueueRows
    refine (enqueueRow_safe row w).bind fun ok w₁ hrow => ?_
    cases ok with
    | false => exact fun _ _ => nofun
    | true =>
      refine (keep_safe (fun hg h => RowQueued.grown h hg) (ih w₁) (hrow w₁ ⟨.refl w₁, id⟩ rfl)).mono
        (fun _ _ h => h) fun ok w' h hok r hr => ?_
      rcases List.mem_cons.mp hr with rfl | hr
      · exact h.2
      · exact h.1 hok r hr

/-- A tick is under way, over endpoints that were active in some state. -/
structure Ticking (endpoints : List WebhookEndpoint) (w : OutboxWorld) : Prop where
  delivering : Delivering w
  read : ∃ db ∈ w.states, endpoints = loadActiveEndpoints db

theorem Ticking.meanwhile (h : Ticking endpoints w) (hm : Meanwhile w w') : Ticking endpoints w' := by
  obtain ⟨db, hdb, hread⟩ := h.read
  exact ⟨hm.2 h.delivering, db, hm.1.states.subset hdb, hread⟩

/-- A tick stays under way while its programs run. -/
theorem tick_safe {α : Type} {Q : α → OutboxWorld → Prop} {p : OutboxProg α}
    (h : p.Safe (outboxEnv reparse) Proper Q w) (hw : Ticking endpoints w) :
    p.Safe (outboxEnv reparse) Proper (fun a w => Q a w ∧ Ticking endpoints w) w := by
  refine h.frame (fun hm h => h.meanwhile hm) (fun {i write w} hi hp h => ?_) hw
  exact h.meanwhile ⟨exec_grown hi write, fun hd => hd.write hi hp⟩

/-- A pass moves the cursor only over what it has enqueued. -/
theorem enqueueSource_safe (hw : Ticking endpoints w) :
    (enqueueSource source endpoints now).Safe (outboxEnv reparse) Proper (fun _ _ => True) w := by
  unfold enqueueSource
  refine (tick_safe (Q := fun cursor w => Known source cursor w) (Prog.Safe.query
    fun w₁ w₂ h1 h2 => ((hw.meanwhile h1).delivering.known source).grown h2.1) hw).bind
    fun cursor w₁ hcursor => ?_
  have hknown : ∀ {w}, Meanwhile w₁ w → Known source cursor w := fun h => (hcursor _ h).1
  have hw₁ : Ticking endpoints w₁ := (hcursor w₁ ⟨.refl w₁, id⟩).2
  refine (tick_safe (Q := fun rows w => Scanned source cursor rows w ∧ Known source cursor w)
    (Prog.Safe.query fun w₂ w₃ h2 h3 => ⟨(scanned_select (hknown h2).settled).grown h3.1,
      (hknown h2).grown h3.1⟩) hw₁).bind fun rows w₂ hrows => ?_
  obtain ⟨⟨hscanned, hknown₂⟩, hw₂⟩ := hrows w₂ ⟨.refl w₂, id⟩
  split
  · exact fun _ _ => trivial
  refine (keep_safe (F := fun w => Scanned source cursor rows w ∧ Known source cursor w)
    (fun hg h => ⟨h.1.grown hg, h.2.grown hg⟩) (tick_safe (enqueueRows_safe w₂) hw₂)
    ⟨hscanned, hknown₂⟩).bind fun ok w₃ hok => ?_
  cases ok with
  | false => exact fun _ _ => trivial
  | true =>
    rw [if_neg (by simp)]
    split
    swap
    · exact fun _ _ => trivial
    refine (Prog.Safe.request (Q := fun _ _ => True) (fun w₄ h4 => ?_) (fun _ _ _ _ => trivial)
      fun _ _ _ _ _ _ => trivial).bind fun r w₄ _ => ?_
    · obtain ⟨⟨hqueued, htick⟩, hscanned, hknown₄⟩ := hok w₄ h4
      refine ⟨⟨htick.read, hscanned.settled, fun r hr hlt hle endpoint he hwants => ?_⟩, hknown₄⟩
      obtain ⟨r', hr', hsame⟩ := hscanned.all r hr hlt hle
      rw [hsame.wants endpoint] at hwants
      rw [hsame.1]
      exact hqueued rfl r' hr' endpoint he hwants
    · cases r with
      | none => exact fun _ _ => trivial
      | some => exact fun _ _ => trivial

theorem enqueuePasses_safe (throws : Nat → Bool) (n : Nat) (hw : Ticking endpoints w) :
    (enqueuePasses source endpoints now throws n).Safe (outboxEnv reparse) Proper
      (fun _ _ => True) w := by
  induction n generalizing w with
  | zero => exact fun _ _ => trivial
  | succ n ih =>
    unfold enqueuePasses
    split
    · exact fun _ _ => trivial
    refine (tick_safe (enqueueSource_safe hw) hw).bind fun scanned w₁ h => ?_
    cases scanned with
    | none => exact fun _ _ => trivial
    | some scanned =>
      dsimp only
      split
      · exact fun _ _ => trivial
      · exact ih (h w₁ ⟨.refl w₁, id⟩).2

theorem enqueueSources_safe (throws : EventSource → Nat → Bool) (sources : List EventSource)
    (hw : Ticking endpoints w) :
    (enqueueSources endpoints now throws sources).Safe (outboxEnv reparse) Proper
      (fun _ _ => True) w := by
  induction sources generalizing w with
  | nil => exact fun _ _ => trivial
  | cons source rest ih =>
    unfold enqueueSources
    exact (tick_safe (enqueuePasses_safe (throws source) 4 hw) hw).bind fun _ w₁ h =>
      ih (h w₁ ⟨.refl w₁, id⟩).2

theorem run_safe {p : OutboxProg Unit} (hp : OutboxRun p) (hw : Delivering w) :
    p.Safe (outboxEnv reparse) Proper (fun _ _ => True) w := by
  cases hp with
  | tick now throws =>
    unfold enqueueWebhooks
    refine (Prog.Safe.query (Q := Ticking) fun w₁ w₂ h1 h2 => ?_).bind fun endpoints w₁ h => ?_
    · have htick : Ticking (loadActiveEndpoints w₁.db) w₁ :=
        ⟨h1.2 hw, w₁.db, List.mem_cons_self, rfl⟩
      exact htick.meanwhile h2
    · split
      · exact fun _ _ => trivial
      · exact enqueueSources_safe throws _ (h w₁ ⟨.refl w₁, id⟩)
  | outside write hwrite =>
    refine (Prog.Safe.request (Q := fun _ _ => True) (fun w₁ _ => ?_) (fun _ _ _ _ => trivial)
      fun _ _ _ _ _ _ => trivial).bind fun _ _ _ _ _ => trivial
    cases write with
    | advance => cases hwrite
    | _ => trivial

end

/-! ## Runs -/

/-- A database in which nothing was enqueued. -/
structure Unsent (w : OutboxWorld) : Prop where
  cursor : ∀ source, w.db.webhook_cursor source = none
  ids : ∀ source, ∀ r ∈ w.db.events source, 0 < r.event_id
  log : w.log = []

theorem Unsent.delivering (h : Unsent w) : Delivering w := by
  refine ⟨fun source => ?_, fun e he => ?_⟩
  · have hcursor : readCursor source w.db = 0 := by
      unfold readCursor
      rw [h.cursor source]
      rfl
    rw [hcursor]
    refine ⟨.inl le_rfl, fun r hr hle => ?_⟩
    have := h.ids source r hr
    omega
  · rw [h.log] at he
    cases he

theorem reach_delivering {c : Config OutboxWorld OutboxWrite Unit Unit} (h0 : Unsent w)
    (h : (outboxSystem reparse).Reach ⟨w, []⟩ c) : Delivering c.state := by
  have hkeeps : (outboxSystem reparse).Keeps Meanwhile Proper Delivering :=
    ⟨fun w _ => ⟨.refl w, id⟩, fun h h' => ⟨h.1.trans h'.1, h'.2 ∘ h.2⟩,
      fun i write w hi hp h => h.write hi hp,
      fun i write w hi hp h => ⟨exec_grown hi write, fun h => h.write hi hp⟩⟩
  exact (System.reach_safe hkeeps (fun p hp w hw => run_safe hp hw) h0.delivering h).inv

/-- No cursor has moved back from one state to a later one. -/
def Forward (w : OutboxWorld) : Prop :=
  w.states.Pairwise fun newer older => ∀ source, readCursor source older ≤ readCursor source newer

/-- No other tick has moved the cursor beyond what the tick that writes it has read. -/
def NotOvertaken (e : OutboxEntry) : Prop :=
  ∀ a, e.write = .advance a → readCursor a.source e.before ≤ a.maxId

theorem forward_write {write : OutboxWrite} (db : OutboxDb) :
    (∀ source, readCursor source db ≤ readCursor source (write.apply reparse i db)) ↔
      NotOvertaken ⟨write, (), db, write.apply reparse i db⟩ := by
  by_cases hmove : ∃ a, write = .advance a
  · obtain ⟨a, rfl⟩ := hmove
    constructor
    · rintro h a' ⟨⟩
      have hsource := h a.source
      rw [readCursor_advance, if_pos rfl] at hsource
      exact hsource
    · intro h source
      rw [readCursor_advance]
      split
      · rename_i hsource
        subst hsource
        exact h a rfl
      · exact le_rfl
  · constructor
    · intro _ a ha
      exact absurd ⟨a, ha⟩ hmove
    · intro _ source
      rw [readCursor_other db fun a ha => hmove ⟨a, ha⟩]

theorem reach_forward {c : Config OutboxWorld OutboxWrite Unit Unit} (h0 : Unsent w)
    (h : (outboxSystem reparse).Reach ⟨w, []⟩ c) :
    Forward c.state ↔ ∀ e ∈ c.state.log, NotOvertaken e := by
  refine System.reach_state (I := fun w => Forward w ↔ ∀ e ∈ w.log, NotOvertaken e)
    (fun i write w _ ih => ?_) h ?_
  · have hcons : Forward (execOutbox reparse i write w).2 ↔
        (∀ source, readCursor source w.db ≤ readCursor source (write.apply reparse i w.db)) ∧
          Forward w := by
      unfold Forward
      refine (List.pairwise_cons).trans ⟨fun hall => ⟨hall.1 w.db List.mem_cons_self, hall.2⟩,
        fun ⟨hnext, hpast⟩ => ⟨fun db hdb source => ?_, hpast⟩⟩
      rcases List.mem_cons.mp hdb with rfl | hdb
      · exact hnext source
      · exact ((List.pairwise_cons.mp hpast).1 db hdb source).trans (hnext source)
    refine hcons.trans ?_
    rw [forward_write, ih]
    exact List.forall_mem_cons.symm
  · simp [Forward, OutboxWorld.states, h0.log]

/-- What the enqueue promises: one delivery for an endpoint and an event; every event up
to a cursor was passed by a move of the cursor, and a move that passes an event has it
queued for every endpoint that its tick has read and that wants it; and no cursor moves
back. -/
structure EnqueueLaw (w : OutboxWorld) : Prop where
  once : ∀ d ∈ w.db.deliveries, ∀ d' ∈ w.db.deliveries, d.endpoint_id = d'.endpoint_id →
    d.event_source = d'.event_source → d.event_id = d'.event_id → d = d'
  passed : ∀ source, ∀ r ∈ w.db.events source, r.event_id ≤ readCursor source w.db →
    ∃ e ∈ w.log, Passes source r.event_id e
  complete : ∀ e ∈ w.log, ∀ a, e.write = .advance a →
    (∃ db ∈ w.states, a.endpoints = loadActiveEndpoints db) ∧
      ∀ r ∈ w.db.events a.source, a.cursor < r.event_id → r.event_id ≤ a.maxId →
        ∀ endpoint ∈ a.endpoints, endpoint.wants a.source r = true →
          IsQueued w.db a.source r.event_id endpoint.id
  forward : Forward w

/-- Whatever overlaps and fails, the enqueue keeps its promise exactly when no tick
writes a cursor that another tick has moved beyond what it has read. -/
theorem enqueue_keeps_its_law_when_no_tick_is_overtaken
    {c : Config OutboxWorld OutboxWrite Unit Unit} (h0 : Unsent w)
    (h : (outboxSystem reparse).Reach ⟨w, []⟩ c) :
    EnqueueLaw c.state ↔ ∀ e ∈ c.state.log, NotOvertaken e := by
  have hdelivering := reach_delivering h0 h
  rw [← reach_forward h0 h]
  refine ⟨fun hlaw => hlaw.forward, fun hforward => ⟨fun d hd d' hd' h1 h2 h3 => ?_,
    fun source => (hdelivering.known source).passed, fun e he a ha => ?_, hforward⟩⟩
  · exact Table.unique hd hd' (.inr ⟨h1, h2, h3⟩)
  · have henqueued := hdelivering.enqueued e he a ha
    exact ⟨henqueued.read, henqueued.queued⟩

/-! ## Two ticks at once -/

/-- The database without events. -/
def emptyOutbox : OutboxWorld := ⟨{}, []⟩

theorem unsent_empty : Unsent emptyOutbox := by
  refine ⟨fun _ => rfl, fun _ r hr => ?_, rfl⟩
  cases hr

def disabledEvent : SourceColumns where
  event_type := "disable"
  occurred_at := 1700000000
  data := .customer ⟨"cus-1", "active", "disabled"⟩

def globalEndpoint : WebhookEndpoint where
  id := "whk-1"
  url := "https://hooks.example.com/"
  status := .active
  scope_kind := .global

def oneEndpoint : Table WebhookEndpoint :=
  ⟨[globalEndpoint], by simp [Schema.check, Scope.Valid, globalEndpoint], List.pairwise_singleton _ _⟩

instance (i : OutboxIds) (w : OutboxWorld) : Decidable ((outboxSystem reparse).admits i w) := by
  have hall : ∀ source, source ∈ WEBHOOK_EVENT_SOURCES := by
    intro source
    cases source <;> decide
  exact decidable_of_iff
    ((∀ source ∈ WEBHOOK_EVENT_SOURCES, (∀ r ∈ (w.db.events source).rows, r.event_id < i.event source) ∧
      0 < i.event source) ∧ ∀ d ∈ w.db.deliveries.rows, d.id < i.delivery)
    ⟨fun h => ⟨fun source => (h.1 source (hall source)).1, fun source => (h.1 source (hall source)).2,
      h.2⟩, fun h => ⟨fun source _ => ⟨h.event_above source, h.event_pos source⟩, h.delivery_above⟩⟩

/-- The first tick reads one event. Before it writes the cursor a second tick reads two
events and moves the cursor beyond both. -/
def overtakingTicks : List (System.Choice OutboxWorld OutboxWrite Unit OutboxIds Unit) :=
  let none := fun _ _ => false
  let ids : Int → Int → OutboxIds := fun event delivery => ⟨fun _ => event, delivery⟩
  [.start (Prog.request (.endpoints oneEndpoint) >>= fun _ => pure ()), .write 0 (ids 1 1),
    .start (Prog.request (.event .customer disabledEvent) >>= fun _ => pure ()), .write 0 (ids 1 1),
    .start (enqueueWebhooks 1700000060 none),
    .read 0, .read 0, .read 0, .read 0, .read 0,
    .start (Prog.request (.event .customer disabledEvent) >>= fun _ => pure ()), .write 0 (ids 2 1),
    .start (enqueueWebhooks 1700000120 none),
    .read 0, .read 0, .read 0, .read 0, .read 0,
    .write 0 (ids 3 1), .write 0 (ids 3 2), .write 0 (ids 3 3),
    .write 2 (ids 3 3), .write 2 (ids 3 3)]

set_option maxRecDepth 20000 in
theorem overtaking (reparse : String → Option (List Char)) :
    ∃ c, (outboxSystem reparse).Reach ⟨emptyOutbox, []⟩ c ∧
      c.state.states.map (readCursor .customer) = [1, 2, 2, 0, 0, 0, 0, 0, 0] := by
  have hplay : ((outboxSystem reparse).playAll ⟨emptyOutbox, []⟩ overtakingTicks).map
      (fun c => c.state.states.map (readCursor .customer)) = some [1, 2, 2, 0, 0, 0, 0, 0, 0] := by
    rfl
  obtain ⟨c, hc, hcursors⟩ := Option.map_eq_some_iff.mp hplay
  refine ⟨c, System.reach_of_playAll hc ?_, hcursors⟩
  exact ⟨.outside _ trivial, .outside _ trivial, .tick _ _, .outside _ trivial, .tick _ _, trivial⟩

theorem Forward.customer {cursors : List Int} (h : Forward w)
    (hc : w.states.map (readCursor .customer) = cursors) :
    cursors.Pairwise fun newer older => older ≤ newer := by
  rw [← hc]
  exact List.pairwise_map.mpr (h.imp fun hall => hall .customer)

theorem an_overtaken_tick_moves_the_cursor_back : ¬ ∀ reparse w c, Unsent w →
    (outboxSystem reparse).Reach ⟨w, []⟩ c → EnqueueLaw c.state := by
  intro hall
  obtain ⟨c, hreach, hcursors⟩ := overtaking fun _ => none
  have hsorted := (hall _ _ c unsent_empty hreach).forward.customer hcursors
  revert hsorted
  decide

theorem an_overtaken_tick_is_in_the_log :
    ∃ c, (outboxSystem fun _ => none).Reach ⟨emptyOutbox, []⟩ c ∧
      ¬ ∀ e ∈ c.state.log, NotOvertaken e := by
  obtain ⟨c, hreach, hcursors⟩ := overtaking fun _ => none
  refine ⟨c, hreach, fun hall => ?_⟩
  have hsorted := ((enqueue_keeps_its_law_when_no_tick_is_overtaken unsent_empty hreach).mpr
    hall).forward.customer hcursors
  revert hsorted
  decide

end Licensecc.Webhook
