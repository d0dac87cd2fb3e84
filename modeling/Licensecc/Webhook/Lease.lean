-- The lease of a delivery. The claims of a row have rising deadlines, so a claim that
-- another claim has passed never meets the deadline in the row again, as long as no
-- redrive sets that deadline back.
import Licensecc.Webhook.Log

open Licensecc.Sql Licensecc.Conc

namespace Licensecc.Webhook

/-! ## The invariant -/

/-- The log tells the statuses of the rows. -/
structure Logged (s : State) : Prop where
  lawful : LawfulLog s.log
  status : ∀ d ∈ s.deliveries, statusOf s.log d.id = some d.status
  known : ∀ id, statusOf s.log id ≠ none → ∃ d ∈ s.deliveries, d.id = id
  numbers : ∀ id n, .claimed id n ∈ s.log → n < s.log.length

/-- Every claim in flight is in the log, without an outcome. -/
structure InFlight (s : State) : Prop where
  claimed : ∀ w c, s.claimOf w = some c → .claimed c.delivery.id c.number ∈ s.log
  open_ : ∀ w c, s.claimOf w = some c → ∀ e ∈ s.log, ¬ e.answers c.number
  until_ : ∀ w c, s.claimOf w = some c → c.claimUntil = c.attemptNow + WEBHOOK_CLAIM_TTL_SECONDS
  apart : ∀ w w' c c', s.claimOf w = some c → s.claimOf w' = some c' → c.number = c'.number → w = w'

/-- The claim holds its row. -/
def Owns (log : List Event) (c : Claim) : Prop := holder log c.delivery.id = some c.number

/-- What a claim in flight can say of its row. A claim that holds the row has its
deadline there. A claim that was passed is behind by more than a backoff, and behind a
holder by more still. -/
structure Deadlines (s : State) (d : Delivery) : Prop where
  owned : ∀ w c, s.claimOf w = some c → c.delivery.id = d.id → Owns s.log c →
    d.next_attempt_at = c.claimUntil
  passed : ∀ w c, s.claimOf w = some c → c.delivery.id = d.id → ¬ Owns s.log c →
    c.claimUntil ≠ d.next_attempt_at ∧ c.claimUntil < d.next_attempt_at + 30
  under : ∀ w c w' c', s.claimOf w = some c → c.delivery.id = d.id → Owns s.log c →
    s.claimOf w' = some c' → c'.delivery.id = d.id → ¬ Owns s.log c' →
    c'.claimUntil + 30 < d.next_attempt_at

structure Leased (s : State) : Prop where
  logged : Logged s
  inFlight : InFlight s
  deadlines : ∀ d ∈ s.deliveries, Deadlines s d

/-- A redrive at `now` is apart from every claim in flight of its row: no deadline of
such a claim is `now`, or later than `now` by a backoff or more. -/
def RedriveApart (a : Action) (s : State) : Prop :=
  match a with
  | .redriveWrite k now _ => ∀ id, s.redrives k = some id → ∀ w c, s.claimOf w = some c →
      c.delivery.id = id → c.claimUntil ≠ now ∧ c.claimUntil < now + 30
  | _ => True

variable {s s' : State} {a : Action} {e : Event} {id : Int}

/-! ## The log after an event -/

/-- One lawful event on one row keeps the log. -/
theorem Logged.event (h : Logged s) {d₀ : Delivery} (d₁ : Delivery) (hd₀ : d₀ ∈ s.deliveries)
    (hrows : ∀ d', d' ∈ s'.deliveries ↔ d' = d₁ ∨ d' ∈ s.deliveries ∧ d'.id ≠ d₀.id)
    (hid : d₁.id = d₀.id) (hlog : s'.log = e :: s.log) (hrow : e.row = d₀.id)
    (he : e.Lawful s.log) (hstatus : e.status.or (some d₀.status) = some d₁.status)
    (hnumber : ∀ i n, e = .claimed i n → n ≤ s.log.length) : Logged s' where
  lawful := by
    rw [hlog]
    exact ⟨he, h.lawful⟩
  status d' hd' := by
    rw [hlog]
    rcases (hrows d').mp hd' with rfl | ⟨hd', hne⟩
    · rw [statusOf_cons_self (hrow.trans hid.symm), hid, h.status d₀ hd₀]
      exact hstatus
    · rw [statusOf_cons_of_ne (hrow ▸ hne.symm)]
      exact h.status d' hd'
  known i hi := by
    by_cases hi0 : i = d₀.id
    · exact ⟨d₁, (hrows d₁).mpr (.inl rfl), hid.trans hi0.symm⟩
    · rw [hlog, statusOf_cons_of_ne (hrow ▸ Ne.symm hi0)] at hi
      obtain ⟨d, hd, rfl⟩ := h.known i hi
      exact ⟨d, (hrows d).mpr (.inr ⟨hd, hi0⟩), rfl⟩
  numbers i n hin := by
    rw [hlog] at hin ⊢
    rcases List.mem_cons.mp hin with heq | hin
    · have := hnumber i n heq.symm
      simp only [List.length_cons]
      omega
    · have := h.numbers i n hin
      simp only [List.length_cons]
      omega

/-! ## Claims -/

/-- A claim that is still in flight after an event was in flight before it. -/
theorem InFlight.event (h : InFlight s) (hlog : s'.log = e :: s.log)
    (hclaims : ∀ w c, s'.claimOf w = some c → s.claimOf w = some c ∧ ¬ e.answers c.number) :
    InFlight s' where
  claimed w c hc := by
    rw [hlog]
    exact List.mem_cons_of_mem _ (h.claimed w c (hclaims w c hc).1)
  open_ w c hc x hx := by
    rw [hlog] at hx
    rcases List.mem_cons.mp hx with rfl | hx
    · exact (hclaims w c hc).2
    · exact h.open_ w c (hclaims w c hc).1 x hx
  until_ w c hc := h.until_ w c (hclaims w c hc).1
  apart w w' c c' hc hc' := h.apart w w' c c' (hclaims w c hc).1 (hclaims w' c' hc').1

theorem Takes.of_none {w : Nat} (h : Takes w none s s') {w' : Nat} {c : Claim}
    (hc : s'.claimOf w' = some c) : w' ≠ w ∧ s.claimOf w' = some c := by
  by_cases hw : w' = w
  · rw [hw, h.own] at hc
    cases hc
  · rw [h.others w' hw] at hc
    exact ⟨hw, hc⟩

/-- The outcome of one claim answers no other claim in flight. -/
theorem InFlight.not_answers (h : InFlight s) {w : Nat} {c : Claim} (hc : s.claimOf w = some c)
    (htakes : Takes w none s s') (he : ∀ n, e.answers n → n = c.number) {w' : Nat} {c' : Claim}
    (hc' : s'.claimOf w' = some c') : s.claimOf w' = some c' ∧ ¬ e.answers c'.number := by
  obtain ⟨hw, hc'⟩ := htakes.of_none hc'
  refine ⟨hc', fun hans => hw ?_⟩
  exact h.apart w' w c' c hc' hc (he _ hans)

/-- A deadline in the row that is a claim's deadline is the holder's. -/
theorem Deadlines.owns {d : Delivery} (h : Deadlines s d) {w : Nat} {c : Claim}
    (hc : s.claimOf w = some c) (hid : c.delivery.id = d.id)
    (hnext : d.next_attempt_at = c.claimUntil) : Owns s.log c := by
  by_contra hno
  exact (h.passed w c hc hid hno).1 hnext.symm

/-- Two claims that hold one row are of one worker. -/
theorem InFlight.owner_unique (h : InFlight s) {w w' : Nat} {c c' : Claim}
    (hc : s.claimOf w = some c) (hc' : s.claimOf w' = some c')
    (hid : c.delivery.id = c'.delivery.id) (ho : Owns s.log c) (ho' : Owns s.log c') : w = w' := by
  unfold Owns at ho ho'
  rw [← hid, ho] at ho'
  exact h.apart w w' c c' hc hc' (Option.some.inj ho')

/-- An event that is no claim and no redrive of a row leaves its owner. -/
theorem owns_cons (hc : ∀ i n, e ≠ .claimed i n) (hr : ∀ i, e ≠ .redriven i) {c : Claim} :
    Owns (e :: s.log) c ↔ Owns s.log c := by
  unfold Owns
  rw [holder_cons_of (fun n => hc _ n) (hr _)]

/-- Fewer claims in flight and the same owners keep the deadlines of a row whose
deadline is the same. -/
theorem Deadlines.same {d d' : Delivery} (h : Deadlines s d) (hid : d'.id = d.id)
    (hnext : d'.next_attempt_at = d.next_attempt_at)
    (hclaims : ∀ w c, s'.claimOf w = some c → c.delivery.id = d.id → s.claimOf w = some c)
    (howns : ∀ c, c.delivery.id = d.id → (Owns s'.log c ↔ Owns s.log c)) : Deadlines s' d' where
  owned w c hc hcid ho := by
    rw [hid] at hcid
    rw [hnext]
    exact h.owned w c (hclaims w c hc hcid) hcid ((howns c hcid).mp ho)
  passed w c hc hcid ho := by
    rw [hid] at hcid
    rw [hnext]
    exact h.passed w c (hclaims w c hc hcid) hcid (ho ∘ (howns c hcid).mpr)
  under w c w' c' hc hcid ho hc' hcid' ho' := by
    rw [hid] at hcid hcid'
    rw [hnext]
    exact h.under w c w' c' (hclaims w c hc hcid) hcid ((howns c hcid).mp ho)
      (hclaims w' c' hc' hcid') hcid' (ho' ∘ (howns c' hcid').mpr)

/-! ## The steps -/

theorem Leased.quiet (h : Leased s) (hd : s'.deliveries = s.deliveries) (hlog : s'.log = s.log)
    (hclaims : ∀ w, s'.claimOf w = s.claimOf w ∨ s'.claimOf w = none) : Leased s' := by
  have hback : ∀ w c, s'.claimOf w = some c → s.claimOf w = some c := by
    intro w c hc
    rcases hclaims w with hw | hw
    · rwa [hw] at hc
    · rw [hw] at hc
      cases hc
  refine ⟨⟨?_, ?_, ?_, ?_⟩, ⟨?_, ?_, ?_, ?_⟩, ?_⟩
  · rw [hlog]
    exact h.logged.lawful
  · rw [hlog, hd]
    exact h.logged.status
  · rw [hlog, hd]
    exact h.logged.known
  · rw [hlog]
    exact h.logged.numbers
  · intro w c hc
    rw [hlog]
    exact h.inFlight.claimed w c (hback w c hc)
  · intro w c hc
    rw [hlog]
    exact h.inFlight.open_ w c (hback w c hc)
  · intro w c hc
    exact h.inFlight.until_ w c (hback w c hc)
  · intro w w' c c' hc hc'
    exact h.inFlight.apart w w' c c' (hback w c hc) (hback w' c' hc')
  · intro d hd'
    rw [hd] at hd'
    refine (h.deadlines d hd').same rfl rfl (fun w c hc _ => hback w c hc) fun c _ => ?_
    rw [hlog]

/-- The number of a new claim is on no event of the log. -/
theorem Logged.fresh (h : Logged s) {n : Nat} (hn : s.log.length ≤ n) :
    (∀ id, .claimed id n ∉ s.log) ∧ ∀ e ∈ s.log, ¬ e.answers n := by
  have hclaimed : ∀ id, .claimed id n ∉ s.log := by
    intro id hid
    have := h.numbers id n hid
    omega
  refine ⟨hclaimed, fun e he hans => ?_⟩
  obtain ⟨later, earlier, hlog⟩ := List.append_of_mem he
  have hlaw := h.lawful
  rw [hlog] at hlaw
  have hholder : ∃ id, holder earlier id = some n := by
    rcases hans with ⟨id, kind, rfl⟩ | ⟨id, rfl⟩
    · exact ⟨id, hlaw.event.1⟩
    · exact ⟨id, hlaw.event.1⟩
  obtain ⟨id, hid⟩ := hholder
  refine hclaimed id ?_
  rw [hlog]
  exact List.mem_append_right _ (List.mem_cons_of_mem _ (claimed_of_holder hid))

/-- A claim passes every earlier claim of its row: their deadlines are no later than
the time of the claim, or less than a backoff later. -/
theorem Leased.claimed (h : Leased s) {w : Nat} {c : Claim}
    (huntil : c.claimUntil = c.attemptNow + WEBHOOK_CLAIM_TTL_SECONDS)
    (hnumber : c.number = s.log.length)
    (hupdated : Updated (Claimable c.delivery.id c.attemptNow)
      (fun d => { d with next_attempt_at := c.claimUntil }) s.deliveries s'.deliveries)
    (hlog : s'.log = .claimed c.delivery.id c.number :: s.log)
    (hclaims : Takes w (some c) s s' ∨ Takes w none s s') : Leased s' := by
  obtain ⟨d₀, hd₀, ⟨-, hpending, hdue⟩, hid₀, hrows⟩ := hupdated.one fun d hd => hd.1
  obtain ⟨hnew, hunanswered⟩ := h.logged.fresh (le_of_eq hnumber.symm)
  have hback : ∀ w' c', s'.claimOf w' = some c' → (w' = w ∧ c' = c) ∨
      (w' ≠ w ∧ s.claimOf w' = some c') := by
    intro w' c' hc'
    by_cases hw : w' = w
    · rcases hclaims with ht | ht
      · rw [hw, ht.own] at hc'
        exact .inl ⟨hw, (Option.some.inj hc').symm⟩
      · rw [hw, ht.own] at hc'
        cases hc'
    · refine .inr ⟨hw, ?_⟩
      rcases hclaims with ht | ht
      · rwa [ht.others w' hw] at hc'
      · rwa [ht.others w' hw] at hc'
  have hfresh : ∀ w' c', s.claimOf w' = some c' → c'.number ≠ c.number := by
    intro w' c' hc' heq
    refine hnew c'.delivery.id ?_
    rw [← heq]
    exact h.inFlight.claimed w' c' hc'
  -- The row belongs to the new claim only.
  have howner : ∀ c', c'.delivery.id = c.delivery.id → (Owns s'.log c' ↔ c'.number = c.number) := by
    intro c' hid'
    unfold Owns
    rw [hlog, hid']
    have hself : holder (.claimed c.delivery.id c.number :: s.log) c.delivery.id = some c.number :=
      if_pos rfl
    rw [hself]
    exact ⟨fun he => (Option.some.inj he).symm, fun he => by rw [he]⟩
  have hpassed : ∀ w' c', s.claimOf w' = some c' → c'.delivery.id = c.delivery.id →
      c'.claimUntil + 30 < c.claimUntil := by
    intro w' c' hc' hid'
    have hrow : c'.delivery.id = d₀.id := hid'.trans hid₀.symm
    have hdead := h.deadlines d₀ hd₀
    unfold WEBHOOK_CLAIM_TTL_SECONDS at huntil
    by_cases ho : Owns s.log c'
    · have := hdead.owned w' c' hc' hrow ho
      omega
    · have := (hdead.passed w' c' hc' hrow ho).2
      omega
  refine ⟨?_, ⟨?_, ?_, ?_, ?_⟩, ?_⟩
  · refine h.logged.event { d₀ with next_attempt_at := c.claimUntil } hd₀ ?_ rfl hlog
      hid₀.symm ⟨?_, hnew⟩ rfl ?_
    · intro d'
      rw [hrows, hid₀]
    · rw [← hid₀, h.logged.status d₀ hd₀, hpending]
    · intro i n he
      cases he
      exact le_of_eq hnumber
  · intro w' c' hc'
    rw [hlog]
    rcases hback w' c' hc' with ⟨-, rfl⟩ | ⟨-, hc'⟩
    · exact List.mem_cons_self
    · exact List.mem_cons_of_mem _ (h.inFlight.claimed w' c' hc')
  · intro w' c' hc' x hx
    rw [hlog] at hx
    rcases List.mem_cons.mp hx with rfl | hold
    · rintro (⟨i, kind, he⟩ | ⟨i, he⟩)
      · cases he
      · cases he
    · rcases hback w' c' hc' with ⟨-, rfl⟩ | ⟨-, hc'⟩
      · exact hunanswered x hold
      · exact h.inFlight.open_ w' c' hc' x hold
  · intro w' c' hc'
    rcases hback w' c' hc' with ⟨-, rfl⟩ | ⟨-, hc'⟩
    · exact huntil
    · exact h.inFlight.until_ w' c' hc'
  · intro w₁ w₂ c₁ c₂ hc₁ hc₂ heq
    rcases hback w₁ c₁ hc₁ with ⟨hw₁, rfl⟩ | ⟨-, hc₁⟩
    · rcases hback w₂ c₂ hc₂ with ⟨hw₂, -⟩ | ⟨-, hc₂⟩
      · rw [hw₁, hw₂]
      · exact absurd heq.symm (hfresh w₂ c₂ hc₂)
    · rcases hback w₂ c₂ hc₂ with ⟨-, rfl⟩ | ⟨-, hc₂⟩
      · exact absurd heq (hfresh w₁ c₁ hc₁)
      · exact h.inFlight.apart w₁ w₂ c₁ c₂ hc₁ hc₂ heq
  · intro d' hd'
    rcases (hrows d').mp hd' with rfl | ⟨hd', hne⟩
    · have hrow : ∀ {c' : Claim}, c'.delivery.id = d₀.id → c'.delivery.id = c.delivery.id :=
        fun hid' => hid'.trans hid₀
      refine ⟨fun w' c' hc' hid' ho => ?_, fun w' c' hc' hid' ho => ?_, ?_⟩
      · rcases hback w' c' hc' with ⟨-, rfl⟩ | ⟨-, hc'⟩
        · rfl
        · exact absurd ((howner c' (hrow hid')).mp ho) (hfresh w' c' hc')
      · rcases hback w' c' hc' with ⟨-, rfl⟩ | ⟨-, hc'⟩
        · exact absurd ((howner c' (hrow hid')).mpr rfl) ho
        · have := hpassed w' c' hc' (hrow hid')
          dsimp only
          omega
      · intro w₁ c₁ w₂ c₂ _ _ _ hc₂ hid₂ ho₂
        rcases hback w₂ c₂ hc₂ with ⟨-, rfl⟩ | ⟨-, hc₂⟩
        · exact absurd ((howner c₂ (hrow hid₂)).mpr rfl) ho₂
        · exact hpassed w₂ c₂ hc₂ (hrow hid₂)
    · -- Another row: the new claim is not about it.
      refine (h.deadlines d' hd').same rfl rfl (fun w' c' hc' hid' => ?_) fun c' hid' => ?_
      · rcases hback w' c' hc' with ⟨-, rfl⟩ | ⟨-, hc'⟩
        · exact absurd hid'.symm hne
        · exact hc'
      · unfold Owns
        rw [hlog, holder_cons_of_ne]
        rw [hid']
        exact hne.symm

/-- The outcome of a claim is written by the holder of the row, and a retry leaves a
deadline that no passed claim has. -/
theorem Leased.recorded (h : Leased s) {w : Nat} {c : Claim} {o : Outcome}
    (hheld : s.claimOf w = some c) (ho : OutcomeOf c o)
    (hupdated : Updated o.Selects o.set s.deliveries s'.deliveries)
    (hlog : s'.log = .recorded o.deliveryId c.number o.kind :: s.log)
    (hclaims : Takes w none s s') : Leased s' := by
  obtain ⟨d₀, hd₀, ⟨-, hstatus, hnext⟩, hid₀, hrows⟩ := hupdated.one fun d hd => hd.1
  have hrow : c.delivery.id = d₀.id := ho.deliveryId.symm.trans hid₀.symm
  rw [ho.claimUntil] at hnext
  have howns := (h.deadlines d₀ hd₀).owns hheld hrow hnext
  have hset : (o.set d₀).id = d₀.id := by
    unfold Outcome.set
    split_ifs <;> rfl
  have hsame : ∀ c', Owns s'.log c' ↔ Owns s.log c' := by
    intro c'
    rw [hlog]
    exact owns_cons (fun i n he => by cases he) fun i he => by cases he
  refine ⟨?_, ?_, ?_⟩
  · refine h.logged.event (o.set d₀) hd₀ ?_ hset hlog hid₀.symm ⟨?_, ?_, ?_⟩ ?_ nofun
    · intro d'
      rw [hrows, hid₀]
    · rw [ho.deliveryId]
      exact howns
    · exact h.inFlight.open_ w c hheld
    · rw [← hid₀, h.logged.status d₀ hd₀]
      rcases hstatus with hp | ⟨hok, hc⟩
      · exact .inl (congrArg some hp)
      · refine .inr ⟨?_, congrArg some hc⟩
        unfold Outcome.kind
        rw [if_pos hok]
    · unfold Outcome.kind Outcome.set
      split_ifs with h1 h2
      · rfl
      · rfl
      · rcases hstatus with hp | ⟨hok, -⟩
        · exact congrArg some hp.symm
        · exact absurd hok h1
  · refine h.inFlight.event hlog fun w' c' hc' => ?_
    refine h.inFlight.not_answers hheld hclaims ?_ hc'
    rintro n (⟨i, kind, he⟩ | ⟨i, he⟩)
    · cases he
      rfl
    · cases he
  · intro d' hd'
    rcases (hrows d').mp hd' with rfl | ⟨hd', -⟩
    · by_cases hretry : o.kind = .retry
      · -- The only deadline that changes: it is a backoff after the claim at least.
        have hnext' : (o.set d₀).next_attempt_at = o.retryAt.getD 0 := by
          unfold Outcome.kind at hretry
          unfold Outcome.set
          split_ifs at hretry ⊢
          rfl
        have hbackoff := (ho.retry hretry).2
        have huntil := h.inFlight.until_ w c hheld
        unfold WEBHOOK_CLAIM_TTL_SECONDS at huntil
        have hnone : ∀ w' c', s'.claimOf w' = some c' → c'.delivery.id = d₀.id →
            s.claimOf w' = some c' ∧ ¬ Owns s.log c' := by
          intro w' c' hc' hid'
          obtain ⟨hw, hc''⟩ := hclaims.of_none hc'
          refine ⟨hc'', fun ho' => hw ?_⟩
          exact h.inFlight.owner_unique hc'' hheld (hid'.trans hrow.symm) ho' howns
        rw [← hset] at hnone
        refine ⟨fun w' c' hc' hid' ho' => ?_, fun w' c' hc' hid' ho' => ?_, ?_⟩
        · exact absurd ((hsame c').mp ho') (hnone w' c' hc' hid').2
        · obtain ⟨hc'', hno⟩ := hnone w' c' hc' hid'
          have := (h.deadlines d₀ hd₀).under w c w' c' hheld hrow howns hc'' (hid'.trans hset) hno
          rw [hnext']
          omega
        · intro w₁ c₁ w₂ c₂ hc₁ hid₁ ho₁
          exact absurd ((hsame c₁).mp ho₁) (hnone w₁ c₁ hc₁ hid₁).2
      · have hnext' : (o.set d₀).next_attempt_at = d₀.next_attempt_at := by
          unfold Outcome.kind at hretry
          unfold Outcome.set
          split_ifs at hretry ⊢
          · rfl
          · rfl
          · exact absurd rfl hretry
        exact (h.deadlines d₀ hd₀).same hset hnext' (fun w' c' hc' _ => (hclaims.of_none hc').2)
          fun c' _ => hsame c'
    · exact (h.deadlines d' hd').same rfl rfl (fun w' c' hc' _ => (hclaims.of_none hc').2)
        fun c' _ => hsame c'

/-- A worker cancels only the row that it holds. -/
theorem Leased.stopped (h : Leased s) {w : Nat} {c : Claim} (hheld : s.claimOf w = some c)
    (hupdated : Updated (Held c.delivery.id c.claimUntil) cancel s.deliveries s'.deliveries)
    (hlog : s'.log = .stopped c.delivery.id c.number :: s.log) (hclaims : Takes w none s s') :
    Leased s' := by
  obtain ⟨d₀, hd₀, ⟨-, hpending, hnext⟩, hid₀, hrows⟩ := hupdated.one fun d hd => hd.1
  have howns := (h.deadlines d₀ hd₀).owns hheld hid₀.symm hnext
  have hsame : ∀ c', Owns s'.log c' ↔ Owns s.log c' := by
    intro c'
    rw [hlog]
    exact owns_cons (fun i n he => by cases he) fun i he => by cases he
  refine ⟨?_, ?_, ?_⟩
  · refine h.logged.event (cancel d₀) hd₀ ?_ rfl hlog hid₀.symm ⟨howns, ?_, ?_⟩ rfl nofun
    · intro d'
      rw [hrows, hid₀]
    · exact h.inFlight.open_ w c hheld
    · rw [← hid₀, h.logged.status d₀ hd₀, hpending]
  · refine h.inFlight.event hlog fun w' c' hc' => ?_
    refine h.inFlight.not_answers hheld hclaims ?_ hc'
    rintro n (⟨i, kind, he⟩ | ⟨i, he⟩)
    · cases he
    · cases he
      rfl
  · intro d' hd'
    rcases (hrows d').mp hd' with rfl | ⟨hd', -⟩
    · exact (h.deadlines d₀ hd₀).same rfl rfl (fun w' c' hc' _ => (hclaims.of_none hc').2)
        fun c' _ => hsame c'
    · exact (h.deadlines d' hd').same rfl rfl (fun w' c' hc' _ => (hclaims.of_none hc').2)
        fun c' _ => hsame c'

theorem claimOf_of_workers (h : s'.workers = s.workers) (w : Nat) : s'.claimOf w = s.claimOf w := by
  unfold State.claimOf
  rw [h]

/-- After a redrive no claim holds the row. -/
theorem Leased.redriven (h : Leased s) {now : Int}
    (hapart : ∀ w c, s.claimOf w = some c → c.delivery.id = id →
      c.claimUntil ≠ now ∧ c.claimUntil < now + 30)
    (hupdated : Updated (fun d => d.id = id ∧ d.status = .failed)
      (fun d => { d with status := .pending, attempts := 0, last_error := "", next_attempt_at := now })
      s.deliveries s'.deliveries)
    (hlog : s'.log = .redriven id :: s.log) (hclaims : s'.workers = s.workers) : Leased s' := by
  obtain ⟨d₀, hd₀, ⟨-, hfailed⟩, hid₀, hrows⟩ := hupdated.one fun d hd => hd.1
  have hback : ∀ w c, s'.claimOf w = some c → s.claimOf w = some c := by
    intro w c hc
    rwa [claimOf_of_workers hclaims] at hc
  have hnone : ∀ c : Claim, c.delivery.id = id → ¬ Owns s'.log c := by
    intro c hc ho
    unfold Owns at ho
    rw [hlog, hc] at ho
    have hself : holder (.redriven id :: s.log) id = none := if_pos rfl
    rw [hself] at ho
    cases ho
  refine ⟨?_, ?_, ?_⟩
  · refine h.logged.event { d₀ with
      status := .pending, attempts := 0, last_error := "", next_attempt_at := now } hd₀ ?_ rfl hlog
      hid₀.symm ?_ rfl nofun
    · intro d'
      rw [hrows, hid₀]
    · change statusOf s.log id = some .failed
      rw [← hid₀, h.logged.status d₀ hd₀, hfailed]
  · refine h.inFlight.event hlog fun w c hc => ⟨hback w c hc, ?_⟩
    rintro (⟨i, kind, he⟩ | ⟨i, he⟩)
    · cases he
    · cases he
  · intro d' hd'
    rcases (hrows d').mp hd' with rfl | ⟨hd', hne⟩
    · refine ⟨fun w c _ hid' ho => ?_, fun w c hc hid' _ => ?_, ?_⟩
      · exact absurd ho (hnone c (hid'.trans hid₀))
      · exact hapart w c (hback w c hc) (hid'.trans hid₀)
      · intro w₁ c₁ w₂ c₂ _ hid₁ ho₁
        exact absurd ho₁ (hnone c₁ (hid₁.trans hid₀))
    · refine (h.deadlines d' hd').same rfl rfl (fun w c hc _ => hback w c hc) fun c hid' => ?_
      unfold Owns
      rw [hlog, holder_cons_of_ne]
      rw [hid']
      exact hne.symm

/-- A PATCH cancels rows and moves no deadline. -/
theorem Leased.moved (h : Leased s) {endpointId : String} {change : WebhookDestinationChange}
    (hrows : s'.deliveries.rows = s.deliveries.rows.map fun d =>
      if Queued s.endpoints endpointId change d then cancel d else d)
    (hlog : s'.log = ((s.deliveries.rows.filter (Queued s.endpoints endpointId change ·)).map
      fun d => .canceled d.id) ++ s.log)
    (hclaims : s'.workers = s.workers) : Leased s' := by
  have hback : ∀ w c, s'.claimOf w = some c → s.claimOf w = some c := by
    intro w c hc
    rwa [claimOf_of_workers hclaims] at hc
  have hids : s'.log = ((s.deliveries.rows.filter (Queued s.endpoints endpointId change ·)).map
      (·.id)).map .canceled ++ s.log := by
    rw [hlog, List.map_map]
    rfl
  generalize hl : (s.deliveries.rows.filter (Queued s.endpoints endpointId change ·)).map (·.id) = ids
    at hids
  have hmem : ∀ d ∈ s.deliveries, d.id ∈ ids ↔ Queued s.endpoints endpointId change d := by
    intro d hd
    rw [← hl, List.mem_map]
    constructor
    · rintro ⟨d', hd', hid⟩
      obtain ⟨hd', hq⟩ := List.mem_filter.mp hd'
      rw [unique_id hd hd' hid.symm]
      exact of_decide_eq_true hq
    · intro hq
      exact ⟨d, List.mem_filter.mpr ⟨hd, decide_eq_true hq⟩, rfl⟩
  have hnodup : ids.Nodup := by
    rw [← hl, List.nodup_iff_pairwise_ne, List.pairwise_map]
    exact (s.deliveries.distinct.filter _).imp fun hab hid => hab (.inl hid)
  have hstatus : ∀ id ∈ ids, statusOf s.log id = some .pending ∨ statusOf s.log id = some .failed := by
    intro id hid
    rw [← hl] at hid
    obtain ⟨d, hd, rfl⟩ := List.mem_map.mp hid
    obtain ⟨hd, hq⟩ := List.mem_filter.mp hd
    rw [h.logged.status d hd]
    rcases (of_decide_eq_true hq).2.1 with hs | hs
    · exact .inl (congrArg some hs)
    · exact .inr (congrArg some hs)
  obtain ⟨hlaw, hholder, hafter⟩ := lawful_cancels hnodup hstatus h.logged.lawful
  have hnot : ∀ e ∈ s'.log, e ∈ s.log ∨ ∃ i, e = .canceled i := by
    intro e he
    rw [hids] at he
    rcases List.mem_append.mp he with he | he
    · obtain ⟨i, -, rfl⟩ := List.mem_map.mp he
      exact .inr ⟨i, rfl⟩
    · exact .inl he
  have hsame : ∀ c', Owns s'.log c' ↔ Owns s.log c' := by
    intro c'
    unfold Owns
    rw [hids, hholder]
  refine ⟨⟨?_, ?_, ?_, ?_⟩, ⟨?_, ?_, ?_, ?_⟩, ?_⟩
  · rw [hids]
    exact hlaw
  · intro d' hd'
    obtain ⟨d, hd, rfl⟩ := (mem_of_rows hrows).mp hd'
    rw [hids, hafter]
    by_cases hq : Queued s.endpoints endpointId change d
    · rw [if_pos hq]
      exact if_pos ((hmem d hd).mpr hq)
    · rw [if_neg hq, if_neg (mt (hmem d hd).mp hq)]
      exact h.logged.status d hd
  · intro id hid
    have hknown : statusOf s.log id ≠ none := by
      rw [hids, hafter] at hid
      by_cases hin : id ∈ ids
      · rcases hstatus id hin with hs | hs
        · rw [hs]
          simp
        · rw [hs]
          simp
      · rwa [if_neg hin] at hid
    obtain ⟨d, hd, rfl⟩ := h.logged.known id hknown
    refine ⟨_, (mem_of_rows hrows).mpr ⟨d, hd, rfl⟩, ?_⟩
    split_ifs <;> rfl
  · intro id n hin
    have hlen : s.log.length ≤ s'.log.length := by
      rw [hids, List.length_append]
      omega
    rcases hnot _ hin with hin | ⟨i, he⟩
    · have := h.logged.numbers id n hin
      omega
    · cases he
  · intro w c hc
    rw [hids]
    exact List.mem_append_right _ (h.inFlight.claimed w c (hback w c hc))
  · intro w c hc x hx
    rcases hnot x hx with hx | ⟨i, rfl⟩
    · exact h.inFlight.open_ w c (hback w c hc) x hx
    · rintro (⟨i, kind, he⟩ | ⟨i, he⟩)
      · cases he
      · cases he
  · intro w c hc
    exact h.inFlight.until_ w c (hback w c hc)
  · intro w w' c c' hc hc'
    exact h.inFlight.apart w w' c c' (hback w c hc) (hback w' c' hc')
  · intro d' hd'
    obtain ⟨d, hd, rfl⟩ := (mem_of_rows hrows).mp hd'
    refine (h.deadlines d hd).same ?_ ?_ (fun w c hc _ => hback w c hc) fun c' _ => hsame c'
    · split_ifs <;> rfl
    · split_ifs <;> rfl

/-- A new delivery has a row of its own. -/
theorem Leased.created (h : Leased s) {row : Delivery}
    (hfresh : ∀ d ∈ s.deliveries, d.id ≠ row.id) (hstatus : row.status = .pending)
    (hrows : s'.deliveries.rows = row :: s.deliveries.rows)
    (hlog : s'.log = .created row.id :: s.log) (hclaims : s'.workers = s.workers) : Leased s' := by
  have hback : ∀ w c, s'.claimOf w = some c → s.claimOf w = some c := by
    intro w c hc
    rwa [claimOf_of_workers hclaims] at hc
  have hnone : statusOf s.log row.id = none := by
    by_contra hno
    obtain ⟨d, hd, hid⟩ := h.logged.known row.id hno
    exact hfresh d hd hid
  have hmem : ∀ d', d' ∈ s'.deliveries ↔ d' = row ∨ d' ∈ s.deliveries := by
    intro d'
    rw [Table.mem_def, hrows, List.mem_cons, Table.mem_def]
  -- A claim in flight is about a row that the log knows.
  have hother : ∀ w c, s.claimOf w = some c → c.delivery.id ≠ row.id := by
    intro w c hc hid
    obtain ⟨later, earlier, hsplit⟩ := List.append_of_mem (h.inFlight.claimed w c hc)
    have hlaw := h.logged.lawful
    rw [hsplit] at hlaw
    have hne : statusOf s.log c.delivery.id ≠ none := by
      rw [hsplit]
      exact known_of_mem hlaw
    rw [hid] at hne
    exact hne hnone
  have hsame : ∀ c', Owns s'.log c' ↔ Owns s.log c' := by
    intro c'
    rw [hlog]
    exact owns_cons (fun i n he => by cases he) fun i he => by cases he
  refine ⟨⟨?_, ?_, ?_, ?_⟩, ?_, ?_⟩
  · rw [hlog]
    exact ⟨hnone, h.logged.lawful⟩
  · intro d' hd'
    rw [hlog]
    rcases (hmem d').mp hd' with rfl | hd'
    · rw [hstatus]
      exact statusOf_cons_self (e := .created d'.id) rfl
    · rw [statusOf_cons_of_ne (e := .created row.id) (hfresh d' hd').symm]
      exact h.logged.status d' hd'
  · intro id hid
    rw [hlog] at hid
    by_cases hrow : row.id = id
    · exact ⟨row, (hmem row).mpr (.inl rfl), hrow⟩
    · rw [statusOf_cons_of_ne (e := .created row.id) hrow] at hid
      obtain ⟨d, hd, rfl⟩ := h.logged.known id hid
      exact ⟨d, (hmem d).mpr (.inr hd), rfl⟩
  · intro id n hin
    rw [hlog] at hin ⊢
    rcases List.mem_cons.mp hin with he | hin
    · cases he
    · have := h.logged.numbers id n hin
      simp only [List.length_cons]
      omega
  · refine h.inFlight.event hlog fun w c hc => ⟨hback w c hc, ?_⟩
    rintro (⟨i, kind, he⟩ | ⟨i, he⟩)
    · cases he
    · cases he
  · intro d' hd'
    rcases (hmem d').mp hd' with rfl | hd'
    · have habsurd : ∀ {w : Nat} {c : Claim}, s'.claimOf w = some c → c.delivery.id ≠ d'.id :=
        fun hc => hother _ _ (hback _ _ hc)
      refine ⟨fun w c hc hid => ?_, fun w c hc hid => ?_, fun w c w' c' hc hid => ?_⟩
      · exact absurd hid (habsurd hc)
      · exact absurd hid (habsurd hc)
      · exact absurd hid (habsurd hc)
    · exact (h.deadlines d' hd').same rfl rfl (fun w c hc _ => hback w c hc) fun c' _ => hsame c'

/-- Every action that keeps redrives apart keeps the lease. -/
theorem Leased.act (parsers : Parsers) (h : Leased s) (ha : RedriveApart a s) :
    Leased (act parsers a s) := by
  cases act_effect parsers a s with
  | quiet hd hlog hclaims => exact h.quiet hd hlog hclaims
  | claimed _ _ _ huntil hnumber hupdated hlog hclaims =>
    exact h.claimed huntil hnumber hupdated hlog hclaims
  | recorded _ hheld _ _ ho hupdated hlog hclaims => exact h.recorded hheld ho hupdated hlog hclaims
  | stopped hheld hupdated hlog hclaims => exact h.stopped hheld hupdated hlog hclaims
  | redriven haction hasked hupdated hlog hclaims =>
    rw [haction] at ha
    exact h.redriven (ha _ hasked) hupdated hlog hclaims
  | moved hrows hlog hclaims => exact h.moved hrows hlog hclaims
  | created hfresh hstatus _ hrows hlog hclaims => exact h.created hfresh hstatus hrows hlog hclaims

theorem Leased.empty : Leased {} := by
  refine ⟨⟨trivial, ?_, ?_, ?_⟩, ⟨?_, ?_, ?_, ?_⟩, ?_⟩
  · exact fun d hd => absurd hd Table.not_mem_empty
  · exact fun id hid => absurd rfl hid
  · exact fun id n hin => by cases hin
  · exact fun w c hc => by cases hc
  · exact fun w c hc => by cases hc
  · exact fun w c hc => by cases hc
  · exact fun w w' c c' hc => by cases hc
  · exact fun d hd => absurd hd Table.not_mem_empty

/-! ## Every run -/

/-- What holds of the log of a delivery: only the last claim since the last redrive
writes, a claim has one outcome, a cancellation gives way to an acknowledged send of an
earlier claim only and to no claim, and a delivered row has no more events. -/
structure DeliveryLease (s : State) : Prop where
  owner : ∀ later earlier id n, ((∃ kind, s.log = later ++ .recorded id n kind :: earlier) ∨
    s.log = later ++ .stopped id n :: earlier) → holder earlier id = some n
  canceled : ∀ later e mid c earlier, s.log = later ++ e :: mid ++ c :: earlier →
    c.status = some .canceled → statusOf (mid ++ c :: earlier) c.row = some .canceled →
    e.row = c.row → ∃ n, e = .recorded c.row n .delivered ∧ .claimed c.row n ∈ earlier
  once : s.log.Pairwise fun e e' => ∀ n, e.answers n → ¬ e'.answers n
  delivered : ∀ later e earlier id, s.log = later ++ e :: earlier →
    statusOf earlier id = some .delivered → e.row ≠ id
  unclaimed : ∀ later c earlier n, s.log = later ++ c :: earlier → c.status = some .canceled →
    .claimed c.row n ∉ later
  rows : ∀ d ∈ s.deliveries, statusOf s.log d.id = some d.status

theorem Leased.deliveryLease (h : Leased s) : DeliveryLease s := by
  have hlaw := h.logged.lawful
  have hcancel : ∀ {c : Event} {earlier}, c.status = some .canceled →
      statusOf (c :: earlier) c.row = some .canceled := by
    intro c earlier hc
    rw [statusOf_cons_self rfl, hc]
    rfl
  refine ⟨?_, ?_, answers_once hlaw, ?_, ?_, h.logged.status⟩
  · rintro later earlier id n (⟨kind, hs⟩ | hs)
    · rw [hs] at hlaw
      exact hlaw.event.1
    · rw [hs] at hlaw
      exact hlaw.event.1
  · intro later e mid c earlier hs hc hstatus hrow
    rw [hs, List.append_assoc, List.cons_append] at hlaw
    rw [← hrow] at hstatus
    obtain ⟨n, he⟩ := hlaw.event.of_canceled hstatus
    rw [hrow] at he
    refine ⟨n, he, ?_⟩
    -- The claim of the outcome is in the log, and it does not follow the cancellation.
    have hown : holder (mid ++ c :: earlier) c.row = some n := by
      have hevent := hlaw.event
      rw [he] at hevent
      exact hevent.1
    have hmem := claimed_of_holder hown
    rcases List.mem_append.mp hmem with hmem | hmem
    · exact absurd hmem (not_claimed_after_cancel hlaw.of_append.2 (hcancel hc))
    · rcases List.mem_cons.mp hmem with heq | hmem
      · rw [← heq] at hc
        cases hc
      · exact hmem
  · intro later e earlier id hs hstatus hrow
    rw [hs] at hlaw
    rw [← hrow] at hstatus
    exact hlaw.event.not_delivered hstatus
  · intro later c earlier n hs hc
    rw [hs] at hlaw
    exact not_claimed_after_cancel hlaw (hcancel hc)

/-- In every run in which each redrive is apart from the claims in flight, the lease of
every delivery holds in every state. -/
theorem only_the_holder_of_a_delivery_writes (parsers : Parsers) (actions : List Action)
    (h : Machine.Meets (act parsers) RedriveApart {} actions) :
    Machine.Always (act parsers) DeliveryLease {} actions :=
  Machine.always_of_inv (fun _ _ ha hs => hs.act parsers ha) (fun _ hs => hs.deliveryLease) h
    Leased.empty

/-! ## Two runs -/

/-- Parsers that accept no URL, so that every delivery is refused. -/
def noUrls : Parsers := ⟨fun _ => none, fun _ => {}⟩

/-- A delivery that a first worker claims and leaves, and that a second worker claims
at the deadline of the first and refuses. -/
def passedClaim : List Action :=
  [.endpointInsert { id := "e", url := "http://a.b", status := .active, scope_kind := .global },
    .enqueue "e" .order 1 "order.applied" "" 100,
    .tick 0 100, .claim 0 (some 100) .ran, .tick 1 160, .claim 1 (some 160) .ran,
    .deliver 1 true (.threw "") none .ran, .redriveRead 0 1]

theorem claims_after_passedClaim (w : Nat) (c : Claim)
    (h : (Machine.run (act noUrls) {} passedClaim).claimOf w = some c) : c.claimUntil = 160 := by
  rcases w with _ | _ | w
  · have hc : (Machine.run (act noUrls) {} passedClaim).claimOf 0 =
        some ⟨⟨⟨.global, none, none⟩, 1, .order, "", 0, "http://a.b"⟩, 100, 160, 1⟩ := by decide
    rw [hc] at h
    rw [← Option.some.inj h]
  · have hc : (Machine.run (act noUrls) {} passedClaim).claimOf 1 = none := by decide
    rw [hc] at h
    cases h
  · cases h

/-- A redrive after the deadline of the first claim is apart from it. -/
theorem a_later_redrive_is_apart : Machine.Always (act noUrls) DeliveryLease {}
    (passedClaim ++ [.redriveWrite 0 161 .ran]) := by
  refine only_the_holder_of_a_delivery_writes noUrls _ ?_
  refine ⟨trivial, trivial, trivial, trivial, trivial, trivial, trivial, trivial, ?_, trivial⟩
  intro id _ w c hc _
  have huntil := claims_after_passedClaim w c hc
  omega

/-- A redrive in the second of the deadline gives the row back to the first worker. -/
theorem a_redrive_revives_a_passed_claim : ¬ Machine.Always (act noUrls) DeliveryLease {}
    (passedClaim ++ [.redriveWrite 0 160 .ran, .deliver 0 true (.threw "") none .ran]) := by
  intro h
  have hlast := h.last
  have hlog : (Machine.run (act noUrls) {} (passedClaim ++
      [.redriveWrite 0 160 .ran, .deliver 0 true (.threw "") none .ran])).log =
      [.recorded 1 1 .failed, .redriven 1, .recorded 1 2 .failed, .claimed 1 2, .claimed 1 1,
        .created 1] := by decide
  have howner := hlast.owner [] _ 1 1 (.inl ⟨.failed, hlog⟩)
  cases howner

end Licensecc.Webhook
