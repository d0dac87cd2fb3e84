-- What one action of the dispatch can do: each action claims, records, cancels,
-- redrives or creates, and the log says which, or it changes no delivery.
import Licensecc.Webhook.Dispatch

open Licensecc.Sql

namespace Licensecc.Webhook

namespace State

/-- The claim that a worker holds. -/
def claimOf (s : State) (w : Nat) : Option Claim := (s.workers w).bind (·.claim)

theorem claimOf_setWorker (s : State) (w w' : Nat) (worker : Option Worker) :
    (s.setWorker w worker).claimOf w' = if w' = w then worker.bind (·.claim) else s.claimOf w' := by
  unfold claimOf setWorker
  by_cases h : w' = w
  · subst h
    simp
  · simp [h]

end State

/-- A statement has matched a row and has set every row that it matches. -/
structure Updated (sel : Delivery → Prop) [DecidablePred sel] (set : Delivery → Delivery)
    (t t' : Table Delivery) : Prop where
  matched : ∃ d ∈ t, sel d
  rows : t'.rows = t.rows.map fun d => if sel d then set d else d

section
variable {sel : Delivery → Prop} [DecidablePred sel] {set : Delivery → Delivery}
  {t t' : Table Delivery}

theorem mem_of_rows (h : t'.rows = t.rows.map fun d => if sel d then set d else d) {d' : Delivery} :
    d' ∈ t' ↔ ∃ d ∈ t, d' = if sel d then set d else d := by
  rw [Table.mem_def, h]
  simp [Table.mem_def, eq_comm]

/-- A statement on one delivery sets its row and leaves the others. -/
theorem Updated.one {id : Int} (h : Updated sel set t t') (hsel : ∀ d, sel d → d.id = id) :
    ∃ d₀ ∈ t, sel d₀ ∧ d₀.id = id ∧ ∀ d', d' ∈ t' ↔ d' = set d₀ ∨ d' ∈ t ∧ d'.id ≠ id := by
  obtain ⟨d₀, hd₀, hs₀⟩ := h.matched
  have hid₀ := hsel d₀ hs₀
  refine ⟨d₀, hd₀, hs₀, hid₀, fun d' => ?_⟩
  rw [mem_of_rows h.rows]
  constructor
  · rintro ⟨d, hd, rfl⟩
    by_cases hs : sel d
    · rw [if_pos hs, unique_id hd hd₀ ((hsel d hs).trans hid₀.symm)]
      exact .inl rfl
    · rw [if_neg hs]
      refine .inr ⟨hd, fun hid => hs ?_⟩
      rwa [unique_id hd hd₀ (hid.trans hid₀.symm)]
  · rintro (rfl | ⟨hd, hid⟩)
    · exact ⟨d₀, hd₀, (if_pos hs₀).symm⟩
    · exact ⟨d', hd, (if_neg fun hs => hid (hsel d' hs)).symm⟩

end

/-- The outcomes that a worker can write for its claim. -/
structure OutcomeOf (c : Claim) (o : Outcome) : Prop where
  deliveryId : o.deliveryId = c.delivery.id
  claimUntil : o.claimUntil = c.claimUntil
  attempts : o.attempts = c.delivery.attempts + 1
  retry : o.kind = .retry → o.attempts < WEBHOOK_MAX_ATTEMPTS ∧
    c.attemptNow + 30 ≤ o.retryAt.getD 0

/-- The workers hold the claims that they held, but for one. -/
structure Takes (w : Nat) (c : Option Claim) (s s' : State) : Prop where
  own : s'.claimOf w = c
  others : ∀ w', w' ≠ w → s'.claimOf w' = s.claimOf w'

/-- What an action can do. -/
inductive Effect (parsers : Parsers) (a : Action) (s s' : State) : Prop
  | quiet (deliveries : s'.deliveries = s.deliveries) (log : s'.log = s.log)
      (claims : ∀ w, s'.claimOf w = s.claimOf w ∨ s'.claimOf w = none)
  | claimed {w : Nat} {clock : Reading} {io : Io} {c : Claim} (action : a = .claim w clock io)
      (due : ∃ worker, s.workers w = some worker ∧ c.delivery ∈ worker.due)
      (free : s.claimOf w = none)
      (until_ : c.claimUntil = c.attemptNow + WEBHOOK_CLAIM_TTL_SECONDS)
      (number : c.number = s.log.length)
      (updated : Updated (Claimable c.delivery.id c.attemptNow)
        (fun d => { d with next_attempt_at := c.claimUntil }) s.deliveries s'.deliveries)
      (log : s'.log = .claimed c.delivery.id c.number :: s.log)
      (claims : Takes w (some c) s s' ∨ Takes w none s s')
  | recorded {w : Nat} {signed : Bool} {fetched : Fetched} {clock : Reading} {io : Io} {c : Claim}
      {o : Outcome} (action : a = .deliver w signed fetched clock io) (held : s.claimOf w = some c)
      (written : deliverOne parsers c signed fetched clock = .outcome o) (ran : io ≠ .failed)
      (outcome : OutcomeOf c o) (updated : Updated o.Selects o.set s.deliveries s'.deliveries)
      (log : s'.log = .recorded o.deliveryId c.number o.kind :: s.log) (claims : Takes w none s s')
  | stopped {w : Nat} {c : Claim} (held : s.claimOf w = some c)
      (updated : Updated (Held c.delivery.id c.claimUntil) cancel s.deliveries s'.deliveries)
      (log : s'.log = .stopped c.delivery.id c.number :: s.log) (claims : Takes w none s s')
  | redriven {k : Nat} {now : Int} {io : Io} {id : Int} (action : a = .redriveWrite k now io)
      (asked : s.redrives k = some id)
      (updated : Updated (fun d => d.id = id ∧ d.status = .failed)
        (fun d => { d with status := .pending, attempts := 0, last_error := "", next_attempt_at := now })
        s.deliveries s'.deliveries)
      (log : s'.log = .redriven id :: s.log) (claims : s'.workers = s.workers)
  | moved {endpointId : String} {change : WebhookDestinationChange}
      (rows : s'.deliveries.rows = s.deliveries.rows.map fun d =>
        if Queued s.endpoints endpointId change d then cancel d else d)
      (log : s'.log = ((s.deliveries.rows.filter (Queued s.endpoints endpointId change ·)).map
        fun d => .canceled d.id) ++ s.log)
      (claims : s'.workers = s.workers)
  | created {row : Delivery} (fresh : ∀ d ∈ s.deliveries, d.id ≠ row.id)
      (status : row.status = .pending) (attempts : row.attempts = 0) (rows : s'.deliveries.rows = row :: s.deliveries.rows)
      (log : s'.log = .created row.id :: s.log) (claims : s'.workers = s.workers)

/-! ## The outcomes of a claim -/

theorem refusal_of (c : Claim) : OutcomeOf c (refusal c) :=
  ⟨rfl, rfl, rfl, fun h => by cases h⟩

theorem sent_of (c : Claim) (fetched : Fetched) (clock : Reading) :
    OutcomeOf c (sent c fetched clock) := by
  refine ⟨rfl, rfl, rfl, fun h => ?_⟩
  have hkind : (sent c fetched clock).ok = false ∧ (sent c fetched clock).terminal = false := by
    unfold Outcome.kind at h
    split_ifs at h with h1 h2
    exact ⟨Bool.eq_false_iff.mpr h1, Bool.eq_false_iff.mpr h2⟩
  obtain ⟨hok, hterminal⟩ := hkind
  have hretry : (sent c fetched clock).retryAt =
      some (readWebhookClock clock c.attemptNow + nextBackoff (c.delivery.attempts + 1)) := by
    unfold sent at hok hterminal ⊢
    dsimp only at hok hterminal ⊢
    rw [hok] at hterminal
    rw [hok, hterminal]
    rfl
  refine ⟨?_, ?_⟩
  · unfold sent at hok hterminal ⊢
    dsimp only at hok hterminal ⊢
    rw [hok] at hterminal
    simpa using hterminal
  · have h1 := le_readWebhookClock clock c.attemptNow
    have h2 := nextBackoff_ge (c.delivery.attempts + 1)
    rw [hretry, Option.getD_some]
    omega

theorem outcomeOf_of_deliverOne {parsers : Parsers} {c : Claim} {signed : Bool} {fetched : Fetched}
    {clock : Reading} {o : Outcome} (h : deliverOne parsers c signed fetched clock = .outcome o) :
    OutcomeOf c o := by
  unfold deliverOne at h
  split_ifs at h
  · obtain rfl := Written.outcome.inj h
    exact refusal_of c
  · obtain rfl := Written.outcome.inj h
    exact sent_of c fetched clock

/-! ## The effect of an action -/

section
variable {parsers : Parsers} {s : State}

theorem takes_of {s' : State} {w : Nat} {worker : Option Worker} {c : Option Claim}
    (hworkers : s'.workers = Function.update s.workers w worker)
    (hc : worker.bind (·.claim) = c) : Takes w c s s' where
  own := by
    unfold State.claimOf
    rw [hworkers, Function.update_self]
    exact hc
  others w' hw := by
    unfold State.claimOf
    rw [hworkers, Function.update_of_ne hw]

theorem quiet_setWorker {a : Action} (w : Nat) (worker : Option Worker)
    (h : worker.bind (·.claim) = s.claimOf w ∨ worker.bind (·.claim) = none) :
    Effect parsers a s (s.setWorker w worker) := by
  refine .quiet rfl rfl fun w' => ?_
  rw [s.claimOf_setWorker]
  by_cases hw : w' = w
  · rw [if_pos hw, hw]
    exact h
  · rw [if_neg hw]
    exact .inl rfl

theorem updated_of {sel : Delivery → Prop} [DecidablePred sel] {set : Delivery → Delivery}
    {t t' : Table Delivery} (h : updateReturning sel set t = some t') : Updated sel set t t' :=
  ⟨(of_updateReturning h).1, (of_updateReturning h).2⟩

theorem claim_effect (parsers : Parsers) (s : State) (w : Nat) (clock : Reading) (io : Io) :
    Effect parsers (.claim w clock io) s (s.claim w clock io) := by
  unfold State.claim
  split
  swap
  · exact .quiet rfl rfl fun w => .inl rfl
  rename_i now delivery rest hw
  have hfree : s.claimOf w = none := by simp [State.claimOf, hw]
  dsimp only
  split
  · exact quiet_setWorker w _ (.inr rfl)
  rename_i t ht
  have hdue : ∃ worker, s.workers w = some worker ∧ delivery ∈ worker.due :=
    ⟨_, hw, List.mem_cons_self⟩
  cases io with
  | failed => exact quiet_setWorker w _ (.inr rfl)
  | lost =>
    exact .claimed (c := ⟨delivery, _, _, s.log.length⟩) rfl hdue hfree rfl rfl (updated_of ht) rfl
      (.inr (takes_of rfl rfl))
  | ran =>
    exact .claimed (c := ⟨delivery, _, _, s.log.length⟩) rfl hdue hfree rfl rfl (updated_of ht) rfl
      (.inl (takes_of rfl rfl))

theorem deliver_effect (parsers : Parsers) (s : State) (w : Nat) (signed : Bool) (fetched : Fetched)
    (clock : Reading) (io : Io) : Effect parsers (.deliver w signed fetched clock io) s
      (s.deliver parsers w signed fetched clock io) := by
  unfold State.deliver
  split
  swap
  · exact .quiet rfl rfl fun w => .inl rfl
  rename_i now due c hw
  have hheld : s.claimOf w = some c := by simp [State.claimOf, hw]
  have hidle : ∀ a, Effect parsers a s (s.setWorker w (some ⟨now, due, none⟩)) :=
    fun a => quiet_setWorker w _ (.inr rfl)
  dsimp only
  split
  · exact hidle _
  · rename_i o ho
    unfold State.commit
    split
    · exact hidle _
    rename_i t ht
    by_cases hio : io = .failed
    · rw [if_pos hio]
      exact hidle _
    · rw [if_neg hio]
      exact .recorded rfl hheld ho hio (outcomeOf_of_deliverOne ho) (updated_of ht) rfl
        (takes_of rfl rfl)
  · unfold State.commit
    split
    · exact hidle _
    rename_i t ht
    by_cases hio : io = .failed
    · rw [if_pos hio]
      exact hidle _
    · rw [if_neg hio]
      exact .stopped hheld (updated_of ht) rfl (takes_of rfl rfl)

/-- Every action has one of the effects. -/
theorem act_effect (parsers : Parsers) (a : Action) (s : State) : Effect parsers a s (act parsers a s) := by
  have hsame : Effect parsers a s s := .quiet rfl rfl fun w => .inl rfl
  cases a with
  | tick w now =>
    unfold act
    dsimp only
    by_cases h : s.workers w = none
    · rw [if_pos h]
      exact quiet_setWorker w _ (.inr rfl)
    · rw [if_neg h]
      exact hsame
  | claim w clock io => exact claim_effect parsers s w clock io
  | deliver w signed fetched clock io => exact deliver_effect parsers s w signed fetched clock io
  | stop w => exact quiet_setWorker w _ (.inr rfl)
  | redriveRead k id =>
    unfold act
    dsimp only
    split_ifs
    · exact .quiet rfl rfl fun w => .inl rfl
    · exact hsame
  | redriveWrite k now io =>
    unfold act
    dsimp only
    split
    · exact hsame
    rename_i id hid
    unfold State.commit
    split
    · exact .quiet rfl rfl fun w => .inl rfl
    rename_i t ht
    split_ifs
    · exact .quiet rfl rfl fun w => .inl rfl
    · exact .redriven rfl hid (updated_of ht) rfl rfl
  | patch endpointId change =>
    unfold act State.patchEndpoint
    dsimp only
    split
    · exact hsame
    split
    · exact hsame
    rename_i t ht
    exact .moved (Table.rows_of_update ht) rfl rfl
  | endpointStatus endpointId status =>
    unfold act
    dsimp only
    split
    · exact hsame
    · exact .quiet rfl rfl fun w => .inl rfl
  | endpointInsert row =>
    unfold act
    dsimp only
    split
    · exact hsame
    · exact .quiet rfl rfl fun w => .inl rfl
  | enqueue endpoint_id source eventId event_type payloadJson now =>
    unfold act State.enqueue
    dsimp only
    split
    · exact hsame
    rename_i t ht
    obtain ⟨-, -, hclash, hrows⟩ := Table.insert_eq_ok.mp ht
    exact .created (fun d hd hid => hclash d hd (.inl hid.symm)) rfl rfl hrows rfl rfl

end

end Licensecc.Webhook
