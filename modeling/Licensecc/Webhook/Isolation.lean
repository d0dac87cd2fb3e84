-- The isolation of the scopes. Ticks that enqueue, workers that dispatch and operators
-- who edit the endpoints all go on at once, and a delivery is sent only when the scope
-- that its endpoint had as the worker read the row admits its event.
import Licensecc.Webhook.Queued

open Licensecc.Codec Licensecc.Sql Licensecc.Conc

namespace Licensecc.Webhook

/-! ## The system -/

/-- One request that a worker has sent, with the database that it has read the row from. -/
structure Sending where
  delivery : Due
  read : OutboxDb

/-- The outbox with its programs, and the workers of the dispatch. What a worker has read
its rows from, and what was sent, is for the laws only. -/
structure Service where
  outbox : Config OutboxWorld OutboxWrite Unit Unit
  workers : Nat → Option Worker := fun _ => none
  reads : Nat → OutboxDb := fun _ => {}
  sent : List Sending := []

/-- The endpoints as the dispatch sees them. -/
def destinations (t : Table WebhookEndpoint) : Table Endpoint where
  rows := t.rows.map (·.toEndpoint)
  checked := by
    intro e he
    obtain ⟨a, ha, rfl⟩ := List.mem_map.mp he
    exact t.checked a ha
  distinct := List.pairwise_map.mpr t.distinct

namespace Service

def db (s : Service) : OutboxDb := s.outbox.state.db

/-- What the dispatch works on. -/
def view (s : Service) : State where
  deliveries := s.db.deliveries
  endpoints := destinations s.db.endpoints
  workers := s.workers

/-- The claim that a worker holds. -/
def claimOf (s : Service) (w : Nat) : Option Claim := (s.workers w).bind (·.claim)

section
variable (restate : Json.Tree → Json.Tree) (newUrl : String → Option Url)

/-- The parsers, with the model of `JSON.parse`. -/
def parsers : Parsers := ⟨newUrl, payloadData⟩

/-- `deliverOne` comes to its request. -/
def Sends (c : Claim) (signed : Bool) : Prop :=
  safeWebhookUrl (parsers newUrl) c.delivery.url ≠ none ∧
    deliveryWithinEndpointScope (parsers newUrl) c.delivery = true ∧ signed = true

instance (c : Claim) (signed : Bool) : Decidable (Sends newUrl c signed) :=
  inferInstanceAs (Decidable (_ ∧ _ ∧ _))

/-- The actions of the workers. -/
def OfWorker : Action → Prop
  | .tick .. | .claim .. | .deliver .. | .stop _ => True
  | _ => False

/-- The databases that the workers have read after an action. -/
def readsAfter (s : Service) : Action → Nat → OutboxDb
  | .tick w _ => if s.workers w = none then Function.update s.reads w s.db else s.reads
  | _ => s.reads

/-- What an action sends. -/
def sends (s : Service) : Action → List Sending
  | .deliver w signed _ _ _ =>
    match s.claimOf w with
    | some c => if Sends newUrl c signed then [⟨c.delivery, s.reads w⟩] else []
    | none => []
  | _ => []

/-- An action of a worker. Its statement is one of the outbox, as a program of its own. -/
def dispatch (i : OutboxIds) (a : Action) (s : Service) : Service :=
  let after := act (parsers newUrl) a s.view
  { outbox := ⟨(execOutbox (reparse restate) i (.deliveries after.deliveries) s.outbox.state).2,
      pure () :: s.outbox.threads⟩
    workers := after.workers
    reads := s.readsAfter a
    sent := s.sends newUrl a ++ s.sent }

inductive Step : Service → Service → Prop
  | outbox {s : Service} {c : Config OutboxWorld OutboxWrite Unit Unit} :
      (enqueueSystem restate).Step s.outbox c → Step s { s with outbox := c }
  | dispatch {s : Service} {i : OutboxIds} {a : Action} : OfWorker a → i.Admits s.outbox.state →
      Step s (s.dispatch restate newUrl i a)

def Reach : Service → Service → Prop := Relation.ReflTransGen (Step restate newUrl)

/-- Nothing has started yet. -/
def idle (w : OutboxWorld) : Service := { outbox := ⟨w, []⟩ }

end

end Service

/-! ## The law -/

/-- The endpoint that the request went to had, in the database that the row was read from, a
scope that admits the event of the delivery. -/
def InScope (x : Sending) : Prop :=
  ∃ d ∈ x.read.deliveries, d.id = x.delivery.id ∧
    ∃ e ∈ x.read.endpoints, e.id = d.endpoint_id ∧ e.url = x.delivery.url ∧
      ∃ row ∈ x.read.events d.event_source, row.event_id = d.event_id ∧
        endpointScopeMatches e.toScope d.event_source row.data.eventData = true

/-- The row is a delivery joined with its endpoint. -/
def ReadFrom (db : OutboxDb) (due : Due) : Prop :=
  ∃ d ∈ db.deliveries, Tells db d ∧ ∃ e ∈ db.endpoints, e.id = d.endpoint_id ∧
    due = State.dueRow d e.toEndpoint

/-- The worker holds the row. -/
def Holds (workers : Nat → Option Worker) (n : Nat) (due : Due) : Prop :=
  ∃ worker, workers n = some worker ∧
    (due ∈ worker.due ∨ ∃ c, worker.claim = some c ∧ c.delivery = due)

namespace Service

/-- What every run keeps. -/
structure Scoped (s : Service) : Prop where
  held : ∀ n due, Holds s.workers n due → ReadFrom (s.reads n) due
  sent : ∀ x ∈ s.sent, InScope x

variable {restate : Json.Tree → Json.Tree} {newUrl : String → Option Url} {s s' : Service}
  {i : OutboxIds}

theorem holds_update {workers : Nat → Option Worker} {w n : Nat} {worker : Option Worker} {due : Due}
    (h : Holds (Function.update workers w worker) n due) :
    n ≠ w ∧ Holds workers n due ∨
      n = w ∧ ∃ a, worker = some a ∧ (due ∈ a.due ∨ ∃ c, a.claim = some c ∧ c.delivery = due) := by
  obtain ⟨a, ha, hdue⟩ := h
  by_cases hn : n = w
  · subst hn
    rw [Function.update_self] at ha
    exact Or.inr ⟨rfl, a, ha, hdue⟩
  · rw [Function.update_of_ne hn] at ha
    exact Or.inl ⟨hn, a, ha, hdue⟩

/-- The due SELECT joins deliveries with their endpoints. -/
theorem readFrom_dueRows (h : Faithful s.db) {now : Int} {due : Due}
    (hdue : due ∈ s.view.dueRows now) : ReadFrom s.db due := by
  obtain ⟨d, hd, hjoin⟩ := List.mem_filterMap.mp hdue
  obtain ⟨e, he, rfl⟩ := Option.map_eq_some_iff.mp hjoin
  have hmem : d ∈ s.db.deliveries :=
    (List.mem_filter.mp ((List.perm_insertionSort _ _).subset (List.mem_of_mem_take hd))).1
  obtain ⟨hfound, hid, -⟩ := Table.find?_some he
  obtain ⟨a, ha, rfl⟩ := List.mem_map.mp hfound
  exact ⟨d, hmem, h d hmem, a, ha, hid, rfl⟩

/-- A worker that claims or sends holds no row that it did not hold. -/
theorem holds_claim {t : State} {w n : Nat} {clock : Reading} {io : Io} {due : Due}
    (h : Holds (t.claim w clock io).workers n due) : Holds t.workers n due := by
  unfold State.claim at h
  split at h
  · rename_i now delivery rest hw
    dsimp only at h
    have hrest : ∀ {claim : Option Claim}, (∀ c, claim = some c → c.delivery = delivery) →
        Holds (Function.update t.workers w (some ⟨now, rest, claim⟩)) n due →
        Holds t.workers n due := by
      intro claim hclaim hheld
      rcases holds_update hheld with ⟨-, hother⟩ | ⟨rfl, a, ha, hdue⟩
      · exact hother
      · obtain rfl := Option.some.inj ha
        refine ⟨_, hw, Or.inl ?_⟩
        rcases hdue with hdue | ⟨c, hc, rfl⟩
        · exact List.mem_cons_of_mem _ hdue
        · rw [hclaim c hc]
          exact List.mem_cons_self
    split at h
    · exact hrest (by simp) h
    · cases io with
      | ran => exact hrest (by simp) h
      | lost => exact hrest (by simp) h
      | failed => exact hrest (by simp) h
  · exact h

theorem holds_deliver {t : State} {w n : Nat} {signed : Bool} {fetched : Fetched} {clock : Reading}
    {io : Io} {due : Due} {p : Parsers}
    (h : Holds (t.deliver p w signed fetched clock io).workers n due) : Holds t.workers n due := by
  unfold State.deliver at h
  split at h
  · rename_i now rest c hw
    dsimp only at h
    have hidle : Holds (Function.update t.workers w (some ⟨now, rest, none⟩)) n due →
        Holds t.workers n due := by
      intro hheld
      rcases holds_update hheld with ⟨-, hother⟩ | ⟨rfl, a, ha, hdue⟩
      · exact hother
      · obtain rfl := Option.some.inj ha
        rcases hdue with hdue | ⟨c, hc, -⟩
        · exact ⟨_, hw, Or.inl hdue⟩
        · cases hc
    have hcommit : ∀ {result : Option (Table Delivery)} {e : Event},
        Holds ((t.setWorker w (some ⟨now, rest, none⟩)).commit io result e).workers n due →
          Holds t.workers n due := by
      intro result e hheld
      apply hidle
      unfold State.commit at hheld
      split at hheld
      · exact hheld
      · split at hheld
        · exact hheld
        · exact hheld
    split at h
    · exact hidle h
    · exact hcommit h
    · exact hcommit h
  · exact h

/-- Where the rows of a worker come from. -/
theorem holds_act {a : Action} (ha : OfWorker a) {n : Nat} {due : Due}
    (h : Holds (act (parsers newUrl) a s.view).workers n due) (hfaithful : Faithful s.db)
    (hs : s.Scoped) : ReadFrom (s.readsAfter a n) due := by
  cases a with
  | tick w now =>
    unfold act at h
    dsimp only at h
    unfold readsAfter
    dsimp only
    by_cases hfree : s.workers w = none
    · rw [if_pos (show s.view.workers w = none from hfree)] at h
      rw [if_pos hfree]
      rcases holds_update h with ⟨hn, hother⟩ | ⟨rfl, b, hb, hdue⟩
      · rw [Function.update_of_ne hn]
        exact hs.held n due hother
      · obtain rfl := Option.some.inj hb
        rw [Function.update_self]
        rcases hdue with hdue | ⟨c, hc, -⟩
        · exact readFrom_dueRows hfaithful hdue
        · cases hc
    · rw [if_neg (show ¬ s.view.workers w = none from hfree)] at h
      rw [if_neg hfree]
      exact hs.held n due h
  | claim w clock io => exact hs.held n due (holds_claim h)
  | deliver w signed fetched clock io => exact hs.held n due (holds_deliver h)
  | stop w =>
    rcases holds_update h with ⟨-, hother⟩ | ⟨-, b, hb, -⟩
    · exact hs.held n due hother
    · cases hb
  | _ => cases ha

/-- A request goes out only within the scope that was read. -/
theorem inScope_sends {a : Action} (hs : s.Scoped) : ∀ x ∈ s.sends newUrl a, InScope x := by
  intro x hx
  unfold sends at hx
  split at hx
  · rename_i w signed fetched clock io
    split at hx
    · rename_i c hc
      split at hx
      · rename_i hsends
        obtain rfl := List.mem_singleton.mp hx
        obtain ⟨worker, hworker, hclaim⟩ := Option.bind_eq_some_iff.mp hc
        obtain ⟨d, hd, ⟨row, hrow, hid, hdata⟩, e, he, heid, hdue⟩ :=
          hs.held w c.delivery ⟨worker, hworker, Or.inr ⟨c, hclaim, rfl⟩⟩
        have hwithin := hsends.2.1
        unfold deliveryWithinEndpointScope at hwithin
        rw [hdue] at hwithin
        refine ⟨d, hd, ?_, e, he, heid, ?_, row, hrow, hid, ?_⟩
        · rw [hdue]
          rfl
        · rw [hdue]
          rfl
        · rw [← hdata]
          exact hwithin
      · cases hx
    · cases hx
  · cases hx

theorem Scoped.step (hs : s.Scoped) (hfaithful : Faithful s.db)
    (h : Step restate newUrl s s') : s'.Scoped := by
  cases h with
  | outbox => exact ⟨hs.held, hs.sent⟩
  | dispatch ha hi =>
    refine ⟨fun n due hdue => holds_act ha hdue hfaithful hs, fun x hx => ?_⟩
    rcases List.mem_append.mp hx with hx | hx
    · exact inScope_sends hs x hx
    · exact hs.sent x hx

/-- The statements of the workers are among those that the outbox allows. -/
theorem Step.outbox_reach (h : Step restate newUrl s s') :
    (enqueueSystem restate).Reach s.outbox s'.outbox := by
  cases h with
  | outbox hstep => exact .single hstep
  | @dispatch i a ha hi =>
    let started : Config OutboxWorld OutboxWrite Unit Unit :=
      ⟨s.outbox.state, (Prog.request (.deliveries (act (parsers newUrl) a s.view).deliveries) >>=
        fun _ => pure ()) :: s.outbox.threads⟩
    have hstart : (enqueueSystem restate).Step s.outbox started := .start (.outside _ trivial)
    have hwrite : (enqueueSystem restate).Step started (s.dispatch restate newUrl i a).outbox :=
      @System.Step.write _ _ _ _ _ (enqueueSystem restate) started 0 _ (fun _ => pure ()) i rfl hi
    exact .tail (.single hstart) hwrite

theorem Reach.outbox (h : Reach restate newUrl s s') :
    (enqueueSystem restate).Reach s.outbox s'.outbox := by
  induction h with
  | refl => exact .refl
  | tail _ hstep ih => exact ih.trans hstep.outbox_reach

theorem reach_scoped {w : OutboxWorld} (h0 : w.db.deliveries.rows = [])
    (h : Reach restate newUrl (idle w) s) : s.Scoped := by
  induction h with
  | refl =>
    refine ⟨fun n due hdue => ?_, fun x hx => ?_⟩
    · obtain ⟨worker, hworker, -⟩ := hdue
      cases hworker
    · cases hx
  | tail hreach hstep ih =>
    exact ih.step (reach_faithful h0 (Reach.outbox hreach)) hstep

end Service

/-- Whatever the order of the ticks, the workers and the edits, no delivery is sent out of
scope, and the check at the dispatch agrees with the one at the tick for every event. -/
theorem webhooks_stay_in_scope (restate : Json.Tree → Json.Tree) (newUrl : String → Option Url)
    {w : OutboxWorld} (h0 : w.db.deliveries.rows = []) :
    (∀ s, Service.Reach restate newUrl (Service.idle w) s → ∀ x ∈ s.sent, InScope x) ∧
      ∀ (due : Due) (row : SourceRow),
        due.payload_json = buildWebhookPayload (reparse restate) due.event_source row →
          deliveryWithinEndpointScope (Service.parsers newUrl) due =
            endpointScopeMatches due.toScope due.event_source row.data.eventData := by
  refine ⟨fun s h => (Service.reach_scoped h0 h).sent, fun due row hpayload => ?_⟩
  unfold deliveryWithinEndpointScope Service.parsers
  dsimp only
  rw [hpayload, payloadData_payload]

/-! ## A delivery in scope -/

/-- An endpoint of one project. -/
def projectEndpoint : Table WebhookEndpoint :=
  ⟨[{ globalEndpoint with scope_kind := .project, scope_project := some "DEFAULT" }],
    by simp [Schema.check, Scope.Valid, globalEndpoint], List.pairwise_singleton _ _⟩

def projectEvent : SourceColumns where
  event_type := "update"
  occurred_at := 1700000000
  data := .entitlement ⟨"DEFAULT", "DEFAULT", "fp", "active", "a \"note\"", "", "\x7b\"a\": [1]\x7d"⟩

/-- An event, and a tick that enqueues it. -/
def enqueueProjectEvent : List (System.Choice OutboxWorld OutboxWrite Unit OutboxIds Unit) :=
  let ids : OutboxIds := ⟨fun _ => 2, 1⟩
  [.start (Prog.request (.event .entitlement projectEvent) >>= fun _ => pure ()),
    .write 0 ⟨fun _ => 1, 1⟩,
    .start (enqueueWebhooks 1700000060 fun _ _ => false),
    .read 0, .read 0, .read 0, .write 0 ids]

def anyUrl : String → Option Url :=
  fun value => some ⟨"https:", "", "", "hooks.example.com", value⟩

/-- A worker reads the delivery, claims it and sends it. -/
def sendFirst (i : OutboxIds) (s : Service) : Service :=
  let read := s.dispatch id anyUrl i (.tick 0 1700000100)
  let claimed := read.dispatch id anyUrl i (.claim 0 none .ran)
  claimed.dispatch id anyUrl i (.deliver 0 true (.response 200 "") none .ran)

/-- The ids that the outbox can give are the same after a statement of a worker. -/
def AdmitsAll (i : OutboxIds) (s : Service) : Prop :=
  i.Admits s.outbox.state ∧
    i.Admits (s.dispatch id anyUrl i (.tick 0 1700000100)).outbox.state ∧
    i.Admits ((s.dispatch id anyUrl i (.tick 0 1700000100)).dispatch id anyUrl i
      (.claim 0 none .ran)).outbox.state

instance (i : OutboxIds) (w : OutboxWorld) : Decidable (i.Admits w) :=
  inferInstanceAs (Decidable ((enqueueSystem id).admits i w))

instance (i : OutboxIds) (s : Service) : Decidable (AdmitsAll i s) :=
  inferInstanceAs (Decidable (_ ∧ _ ∧ _))

theorem reach_sendFirst {i : OutboxIds} {s : Service} (h : AdmitsAll i s) :
    Service.Reach id anyUrl s (sendFirst i s) := by
  obtain ⟨htick, hclaim, hdeliver⟩ := h
  have hread := @Service.Step.dispatch id anyUrl s i (.tick 0 1700000100) trivial htick
  have hclaimed := @Service.Step.dispatch id anyUrl _ i (.claim 0 none .ran) trivial hclaim
  have hsent := @Service.Step.dispatch id anyUrl _ i (.deliver 0 true (.response 200 "") none .ran)
    trivial hdeliver
  exact .tail (.tail (.single hread) hclaimed) hsent

theorem reach_of_outbox {restate : Json.Tree → Json.Tree} {newUrl : String → Option Url}
    {s : Service} {c : Config OutboxWorld OutboxWrite Unit Unit}
    (h : (enqueueSystem restate).Reach s.outbox c) :
    Service.Reach restate newUrl s { s with outbox := c } := by
  induction h with
  | refl => exact .refl
  | tail _ hstep ih => exact .tail ih (.outbox hstep)

theorem a_delivery_is_sent_in_scope : ∃ s,
    Service.Reach id anyUrl (Service.idle ⟨{ endpoints := projectEndpoint }, []⟩) s ∧
      s.sent.map (·.delivery.id) = [1] ∧ ∀ x ∈ s.sent, InScope x := by
  let w : OutboxWorld := ⟨{ endpoints := projectEndpoint }, []⟩
  let ids : OutboxIds := ⟨fun _ => 2, 2⟩
  have hplay : ((enqueueSystem id).playAll ⟨w, []⟩ enqueueProjectEvent).map (fun c =>
      (decide (AdmitsAll ids { Service.idle w with outbox := c }),
        (sendFirst ids { Service.idle w with outbox := c }).sent.map (·.delivery.id))) =
      some (true, [1]) := by
    decide +kernel
  obtain ⟨c, hc, hleft⟩ := Option.map_eq_some_iff.mp hplay
  simp only [Prod.mk.injEq, decide_eq_true_eq] at hleft
  have hreach : Service.Reach id anyUrl (Service.idle w)
      (sendFirst ids { Service.idle w with outbox := c }) := by
    apply Relation.ReflTransGen.trans
    · exact reach_of_outbox (System.reach_of_playAll hc ⟨.outside _ trivial, .tick _ _, trivial⟩)
    · exact reach_sendFirst hleft.1
  exact ⟨_, hreach, hleft.2, (webhooks_stay_in_scope id anyUrl rfl).1 _ hreach⟩

end Licensecc.Webhook
