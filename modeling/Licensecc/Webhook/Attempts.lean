-- The attempts of a delivery. An acknowledged send adds one to the column, but a failed
-- one writes one more than the worker read before its claim, so the column counts the
-- outcomes exactly when no other outcome came between.
import Licensecc.Webhook.Lease

open Licensecc.Sql Licensecc.Conc

namespace Licensecc.Webhook

/-! ## Counting -/

/-- The outcomes of a row since its creation or its last redrive. -/
def outcomes : List Event → Int → Nat
  | [], _ => 0
  | .recorded row _ _ :: earlier, id => outcomes earlier id + if row = id then 1 else 0
  | .created row :: earlier, id | .redriven row :: earlier, id =>
    if row = id then 0 else outcomes earlier id
  | .claimed _ _ :: earlier, id | .stopped _ _ :: earlier, id | .canceled _ :: earlier, id =>
    outcomes earlier id

/-- The row has failed for good since its creation or its last redrive. -/
def dead : List Event → Int → Bool
  | [], _ => false
  | .recorded row _ kind :: earlier, id => (row = id && kind = .failed) || dead earlier id
  | .created row :: earlier, id | .redriven row :: earlier, id =>
    if row = id then false else dead earlier id
  | .claimed _ _ :: earlier, id | .stopped _ _ :: earlier, id | .canceled _ :: earlier, id =>
    dead earlier id

/-- The column counts the outcomes of every row. -/
def AttemptsExact (s : State) : Prop := ∀ d ∈ s.deliveries, d.attempts = outcomes s.log d.id

/-- No row has more than the maximum of attempts before it is dead, or when it becomes
so. -/
def AttemptsBounded (s : State) : Prop := ∀ d ∈ s.deliveries,
  (d.status = .failed ∨ dead s.log d.id = false) → d.attempts ≤ WEBHOOK_MAX_ATTEMPTS

/-- A failed outcome that is recorded finds in its row the attempts that the worker read
before its claim. -/
def AttemptsRead (parsers : Parsers) (a : Action) (s : State) : Prop :=
  match a with
  | .deliver w signed fetched clock io => ∀ c o, s.claimOf w = some c →
      deliverOne parsers c signed fetched clock = .outcome o → o.ok = false → io ≠ .failed →
      ∀ d ∈ s.deliveries, o.Selects d → d.attempts = c.delivery.attempts
  | _ => True

/-! ## The limit -/

/-- What bounds the attempts of a row. -/
structure Limited (log : List Event) (d : Delivery) : Prop where
  pending : d.status = .pending → d.attempts < WEBHOOK_MAX_ATTEMPTS
  canceled : d.status = .canceled → dead log d.id = false → d.attempts < WEBHOOK_MAX_ATTEMPTS
  alive : d.status = .failed ∨ dead log d.id = false → d.attempts ≤ WEBHOOK_MAX_ATTEMPTS
  failed : d.status = .failed → dead log d.id = true

/-- A worker has read fewer attempts than the maximum. -/
structure Reads (worker : Worker) : Prop where
  due : ∀ d ∈ worker.due, d.attempts < WEBHOOK_MAX_ATTEMPTS
  claim : ∀ c, worker.claim = some c → c.delivery.attempts < WEBHOOK_MAX_ATTEMPTS

structure Limits (s : State) : Prop where
  rows : ∀ d ∈ s.deliveries, Limited s.log d
  reads : ∀ w worker, s.workers w = some worker → Reads worker

variable {parsers : Parsers} {s s' : State} {a : Action} {e : Event} {log : List Event} {id : Int}

theorem Limits.claim (h : Limits s) {w : Nat} {c : Claim} (hc : s.claimOf w = some c) :
    c.delivery.attempts < WEBHOOK_MAX_ATTEMPTS := by
  obtain ⟨worker, hw, hclaim⟩ := Option.bind_eq_some_iff.mp hc
  exact (h.reads w worker hw).claim c hclaim

theorem dueRows_attempts (h : Limits s) {now : Int} {due : Due} (hdue : due ∈ s.dueRows now) :
    due.attempts < WEBHOOK_MAX_ATTEMPTS := by
  unfold State.dueRows at hdue
  obtain ⟨d, hd, hrow⟩ := List.mem_filterMap.mp hdue
  have hmem := (List.mem_insertionSort _).mp (List.mem_of_mem_take hd)
  obtain ⟨hd, hsel⟩ := List.mem_filter.mp hmem
  obtain ⟨e, -, rfl⟩ := Option.map_eq_some_iff.mp hrow
  exact (h.rows d hd).pending (of_decide_eq_true hsel).1

theorem reads_setWorker (h : Limits s) {w : Nat} {worker : Option Worker}
    (hworker : ∀ x, worker = some x → Reads x) :
    ∀ w' x, Function.update s.workers w worker w' = some x → Reads x := by
  intro w' x hx
  by_cases hw : w' = w
  · rw [hw, Function.update_self] at hx
    exact hworker x hx
  · rw [Function.update_of_ne hw] at hx
    exact h.reads w' x hx

/-- The workers of the state after a statement on the deliveries. -/
theorem commit_workers (s : State) (io : Io) (t : Option (Table Delivery)) (e : Event) :
    (s.commit io t e).workers = s.workers := by
  unfold State.commit
  split
  · rfl
  · split_ifs <;> rfl

/-- The rows that the workers have read keep below the maximum. -/
theorem Limits.reads_act (h : Limits s) (parsers : Parsers) (a : Action) :
    ∀ w worker, (act parsers a s).workers w = some worker → Reads worker := by
  cases a with
  | tick w now =>
    unfold act
    dsimp only
    split_ifs
    · refine reads_setWorker h ?_
      rintro x ⟨⟩
      exact ⟨fun d hd => dueRows_attempts h hd, fun c hc => by cases hc⟩
    · exact h.reads
  | claim w clock io =>
    unfold act State.claim
    dsimp only
    split
    swap
    · exact h.reads
    rename_i now delivery rest hw
    have hread := h.reads w _ hw
    have hrest : ∀ d ∈ rest, d.attempts < WEBHOOK_MAX_ATTEMPTS :=
      fun d hd => hread.due d (List.mem_cons_of_mem _ hd)
    have hidle : Reads ⟨now, rest, none⟩ := ⟨hrest, fun c hc => by cases hc⟩
    split
    · refine reads_setWorker h ?_
      rintro x ⟨⟩
      exact hidle
    cases io with
    | failed =>
      refine reads_setWorker h ?_
      rintro x ⟨⟩
      exact hidle
    | lost =>
      refine reads_setWorker h ?_
      rintro x ⟨⟩
      exact hidle
    | ran =>
      refine reads_setWorker h ?_
      rintro x ⟨⟩
      refine ⟨hrest, ?_⟩
      rintro c ⟨⟩
      exact hread.due delivery List.mem_cons_self
  | deliver w signed fetched clock io =>
    unfold act State.deliver
    dsimp only
    split
    swap
    · exact h.reads
    rename_i now due c hw
    have hidle : ∀ w' x, Function.update s.workers w (some ⟨now, due, none⟩) w' = some x → Reads x := by
      refine reads_setWorker h ?_
      rintro x ⟨⟩
      exact ⟨(h.reads w _ hw).due, fun c hc => by cases hc⟩
    split
    · exact hidle
    · rw [commit_workers]
      exact hidle
    · rw [commit_workers]
      exact hidle
  | stop w =>
    refine reads_setWorker h ?_
    rintro x ⟨⟩
  | redriveWrite k now io =>
    unfold act
    dsimp only
    split
    · exact h.reads
    · rw [commit_workers]
      exact h.reads
  | redriveRead k id =>
    unfold act
    dsimp only
    split_ifs
    · exact h.reads
    · exact h.reads
  | patch endpointId change =>
    unfold act State.patchEndpoint
    dsimp only
    split
    · exact h.reads
    split
    · exact h.reads
    · exact h.reads
  | endpointStatus endpointId status =>
    unfold act
    dsimp only
    split
    · exact h.reads
    · exact h.reads
  | endpointInsert row =>
    unfold act
    dsimp only
    split
    · exact h.reads
    · exact h.reads
  | enqueue endpoint_id source eventId event_type payloadJson now =>
    unfold act State.enqueue
    dsimp only
    split
    · exact h.reads
    · exact h.reads

/-! ## One event -/

/-- An event of another row changes no count. -/
theorem counts_cons_of_ne (h : e.row ≠ id) :
    outcomes (e :: log) id = outcomes log id ∧ dead (e :: log) id = dead log id := by
  unfold Event.row at h
  cases e with
  | recorded row n kind =>
    have hrow : ¬ row = id := h
    exact ⟨by simp [outcomes, hrow], by simp [dead, hrow]⟩
  | created row => exact ⟨if_neg h, if_neg h⟩
  | redriven row => exact ⟨if_neg h, if_neg h⟩
  | _ => exact ⟨rfl, rfl⟩

theorem Limited.of_dead {d : Delivery} {log' : List Event} (h : Limited log d)
    (hdead : dead log' d.id = dead log d.id) : Limited log' d := by
  refine ⟨h.pending, ?_, ?_, ?_⟩
  · rw [hdead]
    exact h.canceled
  · rw [hdead]
    exact h.alive
  · rw [hdead]
    exact h.failed

theorem Limited.of_ne {d : Delivery} (h : Limited log d) (hrow : e.row ≠ d.id) :
    Limited (e :: log) d := h.of_dead (counts_cons_of_ne hrow).2

/-- Cancellations change no count. -/
theorem counts_cancels (rows : List Delivery) (id : Int) :
    outcomes (rows.map (fun d => .canceled d.id) ++ log) id = outcomes log id ∧
      dead (rows.map (fun d => .canceled d.id) ++ log) id = dead log id := by
  induction rows with
  | nil => exact ⟨rfl, rfl⟩
  | cons d rows ih => exact ih

theorem Limited.cancel {d : Delivery} (h : Limited log d)
    (hs : d.status = .pending ∨ d.status = .failed) : Limited log (cancel d) := by
  refine ⟨nofun, fun _ hdead => ?_, fun hor => ?_, nofun⟩
  · rcases hs with hp | hf
    · exact h.pending hp
    · exact absurd (h.failed hf) (by rw [show d.id = (Webhook.cancel d).id from rfl, hdead]; simp)
  · rcases hor with hf | hdead
    · cases hf
    · exact h.alive (.inr hdead)

/-- An outcome leaves a row that is limited. -/
theorem Limited.record {d : Delivery} {c : Claim} {o : Outcome} (h : Limited log d)
    (hread : c.delivery.attempts < WEBHOOK_MAX_ATTEMPTS) (ho : OutcomeOf c o) (hd : o.Selects d)
    (n : Nat) : Limited (.recorded d.id n o.kind :: log) (o.set d) := by
  have hattempts := ho.attempts
  obtain ⟨-, hstatus, -⟩ := hd
  by_cases hok : o.ok = true
  · -- An acknowledged send: the row was pending, or canceled and alive.
    have hkind : o.kind = .delivered := if_pos hok
    have hset : o.set d = { d with
        status := .delivered, attempts := d.attempts + 1, last_status := o.statusCode,
        last_error := "", delivered_at := some o.now } := if_pos hok
    rw [hkind, hset]
    refine ⟨nofun, nofun, fun hor => ?_, nofun⟩
    rcases hor with hf | hdead
    · cases hf
    · have hdead' : dead log d.id = false := by simpa [dead] using hdead
      rcases hstatus with hp | ⟨-, hc⟩
      · exact h.pending hp
      · exact h.canceled hc hdead'
  by_cases hterminal : o.terminal = true
  · have hkind : o.kind = .failed := by
      unfold Outcome.kind
      rw [if_neg hok, if_pos hterminal]
    have hset : o.set d = { d with
        status := .failed, attempts := o.attempts, last_status := o.statusCode,
        last_error := o.errorText } := by
      unfold Outcome.set
      rw [if_neg hok, if_pos hterminal]
    rw [hkind, hset]
    refine ⟨nofun, nofun, fun _ => ?_, fun _ => ?_⟩
    · change o.attempts ≤ WEBHOOK_MAX_ATTEMPTS
      omega
    · simp [dead]
  · have hkind : o.kind = .retry := by
      unfold Outcome.kind
      rw [if_neg hok, if_neg hterminal]
    have hpending : d.status = .pending := hstatus.resolve_right fun hc => hok hc.1
    have hset : o.set d = { d with
        attempts := o.attempts, last_status := o.statusCode, last_error := o.errorText,
        next_attempt_at := o.retryAt.getD 0 } := by
      unfold Outcome.set
      rw [if_neg hok, if_neg hterminal]
    have hlt := (ho.retry hkind).1
    rw [hkind, hset]
    refine ⟨fun _ => hlt, fun _ _ => hlt, fun _ => le_of_lt hlt, fun hf => ?_⟩
    rw [hpending] at hf
    cases hf

/-- Every action keeps the limits. -/
theorem Limits.act (h : Limits s) (parsers : Parsers) (a : Action) : Limits (act parsers a s) := by
  refine ⟨?_, h.reads_act parsers a⟩
  cases act_effect parsers a s with
  | quiet hd hlog _ =>
    rw [hd, hlog]
    exact h.rows
  | claimed _ _ _ _ _ hupdated hlog _ =>
    obtain ⟨d₀, hd₀, -, -, hrows⟩ := hupdated.one fun d hd => hd.1
    rw [hlog]
    intro d' hd'
    rcases (hrows d').mp hd' with rfl | ⟨hd', -⟩
    · have hlim := h.rows d₀ hd₀
      exact ⟨hlim.pending, hlim.canceled, hlim.alive, hlim.failed⟩
    · exact (h.rows d' hd').of_dead rfl
  | @recorded w signed fetched clock io c o _ hheld _ _ ho hupdated hlog _ =>
    obtain ⟨d₀, hd₀, hsel, hid₀, hrows⟩ := hupdated.one fun d hd => hd.1
    rw [hlog, ← hid₀]
    intro d' hd'
    rcases (hrows d').mp hd' with rfl | ⟨hd', hne⟩
    · exact (h.rows d₀ hd₀).record (h.claim hheld) ho hsel c.number
    · refine (h.rows d' hd').of_ne ?_
      rw [hid₀]
      exact hne.symm
  | stopped _ hupdated hlog _ =>
    obtain ⟨d₀, hd₀, hsel, -, hrows⟩ := hupdated.one fun d hd => hd.1
    rw [hlog]
    intro d' hd'
    rcases (hrows d').mp hd' with rfl | ⟨hd', -⟩
    · exact ((h.rows d₀ hd₀).cancel (.inl hsel.2.1)).of_dead rfl
    · exact (h.rows d' hd').of_dead rfl
  | redriven _ _ hupdated hlog _ =>
    obtain ⟨d₀, hd₀, -, hid₀, hrows⟩ := hupdated.one fun d hd => hd.1
    rw [hlog]
    intro d' hd'
    rcases (hrows d').mp hd' with rfl | ⟨hd', hne⟩
    · exact ⟨fun _ => Nat.zero_lt_succ _, fun _ _ => Nat.zero_lt_succ _, fun _ => Nat.zero_le _, nofun⟩
    · exact (h.rows d' hd').of_ne hne.symm
  | moved hrows hlog _ =>
    intro d' hd'
    obtain ⟨d, hd, rfl⟩ := (mem_of_rows hrows).mp hd'
    rw [hlog]
    refine Limited.of_dead ?_ (counts_cancels _ _).2
    split_ifs with hq
    · exact (h.rows d hd).cancel hq.2.1
    · exact h.rows d hd
  | created hfresh hstatus hattempts hrows hlog _ =>
    intro d' hd'
    rw [Table.mem_def, hrows, List.mem_cons] at hd'
    rw [hlog]
    rcases hd' with rfl | hd'
    · have hlt : d'.attempts < WEBHOOK_MAX_ATTEMPTS := by
        rw [hattempts]
        exact Nat.zero_lt_succ _
      refine ⟨fun _ => hlt, fun _ _ => hlt, fun _ => le_of_lt hlt, fun hf => ?_⟩
      rw [hstatus] at hf
      cases hf
    · exact (h.rows d' hd').of_ne (hfresh d' hd').symm

/-! ## The count -/

/-- A statement on one delivery that finds its row returns it: no key is set. -/
theorem updateReturning_some {sel : Delivery → Prop} [DecidablePred sel] {set : Delivery → Delivery}
    {t : Table Delivery} (hsel : ∃ d ∈ t, sel d)
    (hset : ∀ d, (set d).id = d.id ∧ (set d).endpoint_id = d.endpoint_id ∧
      (set d).event_source = d.event_source ∧ (set d).event_id = d.event_id) :
    ∃ t', updateReturning sel set t = some t' := by
  have hkey : ∀ d, ∀ d' : Delivery, d' = (if sel d then set d else d) → d'.id = d.id ∧
      d'.endpoint_id = d.endpoint_id ∧ d'.event_source = d.event_source ∧
      d'.event_id = d.event_id := by
    rintro d d' rfl
    split_ifs
    · exact hset d
    · exact ⟨rfl, rfl, rfl, rfl⟩
  obtain ⟨t', ht'⟩ := @Table.update_ok Delivery _ 0 sel _ set t
    (fun _ _ _ => rfl) (fun _ _ _ => trivial) (by
      intro a _ b _ h
      obtain ⟨h1, h2, h3, h4⟩ := hkey a _ rfl
      obtain ⟨h1', h2', h3', h4'⟩ := hkey b _ rfl
      rcases h with h | ⟨he, hs, hi⟩
      · exact .inl (h1.symm.trans (h.trans h1'))
      · exact .inr ⟨h2.symm.trans (he.trans h2'), h3.symm.trans (hs.trans h3'),
          h4.symm.trans (hi.trans h4')⟩)
  refine ⟨t', ?_⟩
  unfold updateReturning
  rw [ht']
  split
  · rename_i hzero
    obtain ⟨d, hd, hs⟩ := hsel
    have hcount := (Prod.mk.inj (Except.ok.inj hzero)).1
    exact absurd hs (Table.count_eq_zero.mp hcount d hd)
  · rename_i hok
    exact congrArg some (Prod.mk.inj (Except.ok.inj hok)).2.symm
  · rename_i herr
    cases herr

theorem Outcome.set_key (o : Outcome) (d : Delivery) : (o.set d).id = d.id ∧
    (o.set d).endpoint_id = d.endpoint_id ∧ (o.set d).event_source = d.event_source ∧
    (o.set d).event_id = d.event_id := by
  unfold Outcome.set
  split_ifs
  · exact ⟨rfl, rfl, rfl, rfl⟩
  · exact ⟨rfl, rfl, rfl, rfl⟩
  · exact ⟨rfl, rfl, rfl, rfl⟩

theorem Outcome.set_attempts (o : Outcome) (d : Delivery) :
    (o.set d).attempts = if o.ok then d.attempts + 1 else o.attempts := by
  unfold Outcome.set
  split_ifs <;> rfl

/-- The outcome that a worker writes is recorded when the row still has its deadline. -/
theorem deliver_recorded {w : Nat} {signed : Bool} {fetched : Fetched} {clock : Reading} {io : Io}
    {c : Claim} {o : Outcome} {d : Delivery} (hc : s.claimOf w = some c)
    (ho : deliverOne parsers c signed fetched clock = .outcome o) (hio : io ≠ .failed)
    (hd : d ∈ s.deliveries) (hsel : o.Selects d) :
    Updated o.Selects o.set s.deliveries (act parsers (.deliver w signed fetched clock io) s).deliveries ∧
      (act parsers (.deliver w signed fetched clock io) s).log =
        .recorded d.id c.number o.kind :: s.log := by
  obtain ⟨worker, hw, hclaim⟩ := Option.bind_eq_some_iff.mp hc
  obtain ⟨now, due, claim⟩ := worker
  obtain rfl : claim = some c := hclaim
  obtain ⟨t, ht⟩ := updateReturning_some ⟨d, hd, hsel⟩ o.set_key
  have hact : act parsers (.deliver w signed fetched clock io) s =
      { s.setWorker w (some ⟨now, due, none⟩) with
        deliveries := t, log := .recorded o.deliveryId c.number o.kind :: s.log } := by
    unfold act State.deliver
    simp only [hw, ho]
    unfold persistWebhookDeliveryOutcome State.commit
    rw [ht]
    exact if_neg hio
  rw [hact, hsel.1]
  exact ⟨updated_of ht, rfl⟩

theorem AttemptsExact.of_rows (h : AttemptsExact s)
    (hrows : ∀ d' ∈ s'.deliveries, ∃ d ∈ s.deliveries, d'.id = d.id ∧ d'.attempts = d.attempts)
    (hlog : ∀ i, outcomes s'.log i = outcomes s.log i) : AttemptsExact s' := by
  intro d' hd'
  obtain ⟨d, hd, hid, hattempts⟩ := hrows d' hd'
  rw [hattempts, hlog, hid]
  exact h d hd

/-- One event on one row keeps the count when it keeps it for that row. -/
theorem AttemptsExact.event (h : AttemptsExact s) {d₀ d₁ : Delivery}
    (hrows : ∀ d', d' ∈ s'.deliveries ↔ d' = d₁ ∨ d' ∈ s.deliveries ∧ d'.id ≠ d₀.id)
    (hid : d₁.id = d₀.id) (hlog : s'.log = e :: s.log) (hrow : e.row = d₀.id) :
    AttemptsExact s' ↔ d₁.attempts = outcomes (e :: s.log) d₀.id := by
  constructor
  · intro h'
    have h1 := h' d₁ ((hrows d₁).mpr (.inl rfl))
    rwa [hlog, hid] at h1
  · intro h1 d' hd'
    rw [hlog]
    rcases (hrows d').mp hd' with rfl | ⟨hd', hne⟩
    · rw [hid]
      exact h1
    · rw [(counts_cons_of_ne (hrow ▸ hne.symm)).1]
      exact h d' hd'

/-- An outcome keeps the count exactly when it finds the attempts that were read, or
when it counts for itself. -/
theorem record_exact (h : AttemptsExact s) {c : Claim} {o : Outcome} {d₀ : Delivery}
    (hd₀ : d₀ ∈ s.deliveries) (ho : OutcomeOf c o)
    (hrows : ∀ d', d' ∈ s'.deliveries ↔ d' = o.set d₀ ∨ d' ∈ s.deliveries ∧ d'.id ≠ d₀.id)
    (hlog : s'.log = .recorded d₀.id c.number o.kind :: s.log) :
    AttemptsExact s' ↔ (o.ok = false → d₀.attempts = c.delivery.attempts) := by
  rw [h.event hrows (o.set_key d₀).1 hlog rfl, o.set_attempts, ho.attempts]
  have hcount : outcomes (.recorded d₀.id c.number o.kind :: s.log) d₀.id = d₀.attempts + 1 := by
    simp [outcomes, h d₀ hd₀]
  rw [hcount]
  by_cases hok : o.ok = true
  · simp [hok]
  · simp only [hok]
    simp [eq_comm]

/-- An action keeps the count exactly when it meets the condition. -/
theorem exact_act (h : AttemptsExact s) :
    AttemptsRead parsers a s ↔ AttemptsExact (act parsers a s) := by
  constructor
  · intro hread
    cases act_effect parsers a s with
    | quiet hd hlog _ =>
      refine h.of_rows ?_ fun i => by rw [hlog]
      rw [hd]
      exact fun d hd' => ⟨d, hd', rfl, rfl⟩
    | claimed _ _ _ _ _ hupdated hlog _ =>
      obtain ⟨d₀, hd₀, -, -, hrows⟩ := hupdated.one fun d hd => hd.1
      refine h.of_rows (fun d' hd' => ?_) fun i => by rw [hlog]; rfl
      rcases (hrows d').mp hd' with rfl | ⟨hd', -⟩
      · exact ⟨d₀, hd₀, rfl, rfl⟩
      · exact ⟨d', hd', rfl, rfl⟩
    | recorded haction hheld hwritten hran ho hupdated hlog _ =>
      obtain ⟨d₀, hd₀, hsel, hid₀, hrows⟩ := hupdated.one fun d hd => hd.1
      rw [← hid₀] at hlog hrows
      refine (record_exact h hd₀ ho hrows hlog).mpr fun hok => ?_
      rw [haction] at hread
      exact hread _ _ hheld hwritten hok hran d₀ hd₀ hsel
    | stopped _ hupdated hlog _ =>
      obtain ⟨d₀, hd₀, -, -, hrows⟩ := hupdated.one fun d hd => hd.1
      refine h.of_rows (fun d' hd' => ?_) fun i => by rw [hlog]; rfl
      rcases (hrows d').mp hd' with rfl | ⟨hd', -⟩
      · exact ⟨d₀, hd₀, rfl, rfl⟩
      · exact ⟨d', hd', rfl, rfl⟩
    | @redriven k now io id _ _ hupdated hlog _ =>
      obtain ⟨d₀, hd₀, -, hid₀, hrows⟩ := hupdated.one fun d hd => hd.1
      rw [← hid₀] at hlog hrows
      refine (h.event hrows rfl hlog rfl).mpr ?_
      simp [outcomes]
    | moved hrows hlog _ =>
      refine h.of_rows (fun d' hd' => ?_) fun i => by rw [hlog]; exact (counts_cancels _ _).1
      obtain ⟨d, hd, rfl⟩ := (mem_of_rows hrows).mp hd'
      refine ⟨d, hd, ?_, ?_⟩
      · split_ifs <;> rfl
      · split_ifs <;> rfl
    | created hfresh _ hattempts hrows hlog _ =>
      intro d' hd'
      rw [Table.mem_def, hrows, List.mem_cons] at hd'
      rw [hlog]
      rcases hd' with rfl | hd'
      · simp [outcomes, hattempts]
      · rw [(counts_cons_of_ne (e := .created _) (hfresh d' hd').symm).1]
        exact h d' hd'
  · intro h'
    unfold AttemptsRead
    split
    · rename_i w signed fetched clock io
      intro c o hc ho hok hio d hd hsel
      obtain ⟨hupdated, hlog⟩ := deliver_recorded hc ho hio hd hsel
      obtain ⟨d₀, hd₀, hsel₀, -, hrows⟩ := hupdated.one fun x (hx : o.Selects x) => hx.1
      obtain rfl := unique_id hd hd₀ (hsel.1.trans hsel₀.1.symm)
      rw [← hsel.1] at hrows
      exact (record_exact h hd (outcomeOf_of_deliverOne ho) hrows hlog).mp h' hok
    · trivial

theorem limits_empty : Limits {} :=
  ⟨fun d hd => absurd hd Table.not_mem_empty, fun w worker hw => by cases hw⟩

/-- The attempts of every row are the outcomes recorded for it since its creation or its
last redrive, and at most the maximum before it is dead, in every state of a run exactly
when each failed outcome of the run finds the attempts that its worker had read. -/
theorem attempts_count_the_outcomes (parsers : Parsers) (actions : List Action) :
    Machine.Always (act parsers) (fun s => AttemptsExact s ∧ AttemptsBounded s) {} actions ↔
      Machine.Meets (act parsers) (AttemptsRead parsers) {} actions := by
  have hempty : AttemptsExact {} := fun d hd => absurd hd Table.not_mem_empty
  have hbounded : ∀ {s : State}, Limits s → AttemptsBounded s := fun h d hd => (h.rows d hd).alive
  refine Machine.always_iff_meets (I := fun s => AttemptsExact s ∧ Limits s) ?_ ?_
    ⟨hempty, hbounded limits_empty⟩ ⟨hempty, limits_empty⟩
  · rintro a s ⟨hexact, hlimits⟩
    rw [exact_act hexact]
    exact ⟨fun h => ⟨h, hbounded (hlimits.act parsers a)⟩, fun h => h.1⟩
  · rintro a s ⟨hexact, hlimits⟩ hread
    exact ⟨(exact_act hexact).mp hread, hlimits.act parsers a⟩

/-- Parsers that find one public host in every URL. -/
def oneHost : Parsers := ⟨fun value => some ⟨"https:", "", "", "hooks.example", value⟩, fun _ => {}⟩

/-- Two workers read a row before either has claimed it, and both sends fail. -/
def overlap : List Action :=
  [.endpointInsert
      { id := "e", url := "https://hooks.example", status := .active, scope_kind := .global },
    .enqueue "e" .order 1 "order.applied" "" 100, .tick 0 100, .tick 1 100,
    .claim 0 (some 100) .ran, .deliver 0 true (.response 500 "") (some 100) .ran,
    .claim 1 (some 130) .ran, .deliver 1 true (.response 500 "") (some 130) .ran]

/-- The second outcome writes the first attempt again. -/
theorem two_readers_count_one_attempt : ¬ Machine.Always (act oneHost)
    (fun s => AttemptsExact s ∧ AttemptsBounded s) {} overlap := by
  intro h
  have hlast := h.last.1
  have hrow : ∃ d ∈ (Machine.run (act oneHost) {} overlap).deliveries, d.id = 1 ∧ d.attempts = 1 := by
    decide
  have hcount : outcomes (Machine.run (act oneHost) {} overlap).log 1 = 2 := by decide
  obtain ⟨d, hd, hid, hone⟩ := hrow
  have := hlast d hd
  rw [hid, hcount, hone] at this
  cases this

end Licensecc.Webhook
