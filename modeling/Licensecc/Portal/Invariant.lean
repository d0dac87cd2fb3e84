-- The facts that last in the portal. Each one says what a password that was written at
-- one place of the log still means for the codes, the sessions and the links after it.
import Licensecc.Portal.Programs

open Licensecc.Sql Licensecc.Conc

namespace Licensecc.Portal

variable {P : Platform} {fresh : String} {n : Nat} {db : PortalDb} {write : PortalWrite}
  {w : PortalWorld} {log : List PortalEntry} {e : PortalEntry}

/-! ## Places of the log -/

theorem getElem?_concat_some {α : Type} {l : List α} {a b : α} {i : Nat} :
    (l ++ [a])[i]? = some b ↔ l[i]? = some b ∨ i = l.length ∧ b = a := by
  by_cases hi : i < l.length
  · have hne : i ≠ l.length := by omega
    simp [List.getElem?_append_left hi, hne]
  · rw [List.getElem?_append_right (by omega), List.getElem?_eq_none (by omega : l.length ≤ i)]
    by_cases heq : i = l.length
    · simp [heq, eq_comm]
    · have : i - l.length ≠ 0 := by omega
      simp [heq, this]

/-- The write at this place gives the customer another password. -/
def Written (log : List PortalEntry) (customerId : String) (n : Nat) : Prop :=
  ∃ e, log[n]? = some e ∧ WritesPassword customerId e

theorem Written.lt {customerId : String} (h : Written log customerId n) : n < log.length := by
  obtain ⟨e, he, -⟩ := h
  exact (List.getElem?_eq_some_iff.mp he).1

theorem written_concat {customerId : String} : Written (log ++ [e]) customerId n ↔
    Written log customerId n ∨ n = log.length ∧ WritesPassword customerId e := by
  unfold Written
  simp only [getElem?_concat_some]
  constructor
  · rintro ⟨e', h | ⟨rfl, rfl⟩, hw⟩
    · exact .inl ⟨e', h, hw⟩
    · exact .inr ⟨rfl, hw⟩
  · rintro (⟨e', h, hw⟩ | ⟨rfl, hw⟩)
    · exact ⟨e', .inl h, hw⟩
    · exact ⟨e, .inr ⟨rfl, rfl⟩, hw⟩

/-- What is written before the end of the log stays as it is. -/
theorem Written.of_concat {customerId : String} (h : Written (log ++ [e]) customerId n)
    (hn : n < log.length) : Written log customerId n := by
  rcases written_concat.mp h with h | ⟨rfl, -⟩
  · exact h
  · exact absurd hn (Nat.lt_irrefl _)

theorem not_written_concat {customerId : String} (he : ¬ WritesPassword customerId e)
    (h : Written (log ++ [e]) customerId n) : Written log customerId n := by
  rcases written_concat.mp h with h | ⟨-, hw⟩
  · exact h
  · exact absurd hw he

/-! ## Salts -/

/-- The salt of the hash was drawn. -/
def Salted (minted : List String) (hash : String) : Prop :=
  ∃ salt ∈ minted, salt.toList.length = 32 ∧ ∃ digest, hash = PREFIX ++ "$" ++ salt ++ "$" ++ digest

theorem Salted.cons {minted : List String} {hash : String} (h : Salted minted hash) :
    Salted (fresh :: minted) hash := by
  obtain ⟨salt, hs, h⟩ := h
  exact ⟨salt, List.mem_cons_of_mem _ hs, h⟩

theorem salted_hashPassword {minted : List String} (h : fresh.toList.length = 32)
    (password : String) : Salted (fresh :: minted) (hashPassword P fresh password) :=
  ⟨fresh, List.mem_cons_self, h, _, rfl⟩

/-- A hash whose salt was drawn is not one with a new salt. -/
theorem Salted.ne {hash : String} (h : Salted w.minted hash) (hfresh : Fresh fresh w)
    (password : String) : hashPassword P fresh password ≠ hash := by
  obtain ⟨salt, hs, hlen, digest, rfl⟩ := h
  intro heq
  have hlist := congrArg String.toList heq
  simp only [hashPassword, String.toList_append, List.append_assoc] at hlist
  have htail := List.append_cancel_left (List.append_cancel_left hlist)
  have hsalt := (List.append_inj htail (hfresh.2.1.trans hlen.symm)).1
  exact hfresh.1 (String.toList_inj.mp hsalt ▸ hs)

/-! ## Facts of proofs -/

/-- What holds of a proof until its session is minted. A code was not redeemed after a
password that is newer, and a hash that was seen is gone when a newer one is there. -/
def ProofFact (w : PortalWorld) (customerId : String) (passwordHash : Option String) :
    Proof → Prop
  | .otp row redeemed => row ≤ redeemed ∧ redeemed < w.log.length ∧
      ∀ n ≤ redeemed, Written w.log customerId n → n ≤ row
  | .oauth _ redeemed => redeemed < w.log.length
  | .password seen => ∃ hash, passwordHash = some hash ∧ Salted w.minted hash ∧
      ((∃ n, seen ≤ n ∧ Written w.log customerId n) → w.db.passwordOf customerId ≠ some hash)

/-- The link was emailed for this action. -/
def Issued (log : List PortalEntry) (tokenHash : String) (action : Action) : Prop :=
  ∃ e ∈ log, e.result = .done ∧
    ∃ row, e.write = .insertAction row ∧ row.token_hash = tokenHash ∧ row.toAction = action

theorem Issued.concat {tokenHash : String} {action : Action} (h : Issued log tokenHash action) :
    Issued (log ++ [e]) tokenHash action := by
  obtain ⟨e', he, h⟩ := h
  exact ⟨e', List.mem_append_left _ he, h⟩

/-- What a write is promised to meet. -/
def PortalWrite.Ready (write : PortalWrite) (w : PortalWorld) : Prop :=
  match write with
  | mintSession m => ProofFact w m.customer_id m.passwordHash m.proof
  | complete c => Issued w.log c.tokenHash c.action
  | _ => True

/-- What holds of a session that was minted at this place. -/
def MintFact (log : List PortalEntry) (place : Nat) (m : MintSession) : Prop :=
  match m.proof with
  | .otp row redeemed => row ≤ redeemed ∧ redeemed < place ∧
      ∀ n ≤ redeemed, Written log m.customer_id n → n ≤ row
  | .oauth _ redeemed => redeemed < place
  | .password seen => ∀ n < place, Written log m.customer_id n → n < seen

/-- What holds of a code. -/
structure CodeFact (w : PortalWorld) (r : PortalOtp) : Prop where
  customer : ∃ c ∈ w.db.customers, c.id = r.customer_id
  inserted : r.inserted < w.log.length
  newest : r.consumed_at = none → ∀ n, Written w.log r.customer_id n → n ≤ r.inserted

/-- What holds of an active session: it was minted after every password of its customer. -/
structure SessionFact (w : PortalWorld) (s : PortalSession) : Prop where
  customer : ∃ c ∈ w.db.customers, c.id = s.customer_id
  minted : ∃ place e m, w.log[place]? = some e ∧ Mints e m ∧ m.customer_id = s.customer_id ∧
    m.proof = s.proof ∧ ∀ n, Written w.log s.customer_id n → n < place

/-- What holds of a batch that redeems a link at the end of this log. -/
structure LinkFact (log : List PortalEntry) (e : PortalEntry) (c : Completion) : Prop where
  issued : Issued log c.tokenHash c.action
  taken : ∀ customerId, WritesPassword customerId e →
    ∃ a ∈ e.before.portal_password_actions, a.token_hash = c.tokenHash ∧ TakesAction e a
  owner : ∀ customerId, WritesPassword customerId e → customerId = c.action.customer_id
  credential : c.action.purpose = .reset → ∀ customerId, WritesPassword customerId e →
    e.before.passwordOf customerId = c.action.credential_hash

structure PortalInv (w : PortalWorld) : Prop where
  salts : ∀ p ∈ w.db.portal_passwords, Salted w.minted p.password_hash
  codes : ∀ r ∈ w.db.portal_otp, CodeFact w r
  sessions : ∀ s ∈ w.db.portal_sessions, s.status = .active → SessionFact w s
  mints : ∀ place e m, w.log[place]? = some e → Mints e m → MintFact w.log place m
  actions : ∀ a ∈ w.db.portal_password_actions, Issued w.log a.token_hash a.toAction ∧
    ∀ claim ∈ a.claim, claim ∈ w.minted
  links : ∀ place e c, w.log[place]? = some e → e.write = .complete c →
    LinkFact (w.log.take place) e c

/-! ## One write -/

/-- A hash whose salt is not the one of a write is there after it only when the write gave
the customer no other password. -/
theorem old_hash {customerId hash : String} (hs : Salted w.minted hash) (hfresh : Fresh fresh w)
    (h : (ran P fresh w.log.length w.db write).after.passwordOf customerId = some hash) :
    w.db.passwordOf customerId = some hash ∧
      ¬ WritesPassword customerId (ran P fresh w.log.length w.db write) := by
  have hnot : ¬ WritesPassword customerId (ran P fresh w.log.length w.db write) := by
    intro hw
    obtain ⟨-, password, hhash⟩ := of_writesPassword hw
    have hnew := passwordOf_of_hasHash hhash
    exact hs.ne hfresh password (Option.some.inj (hnew.symm.trans h))
  refine ⟨?_, hnot⟩
  by_contra hne
  refine hnot ⟨by simp [h], fun heq => hne ?_⟩
  exact heq.symm.trans h

theorem ProofFact.step {customerId : String} {hash : Option String} {proof : Proof}
    (hfresh : Fresh fresh w) (h : ProofFact w customerId hash proof) :
    ProofFact (execPortal P fresh write w).2 customerId hash proof := by
  have hlen : (execPortal P fresh write w).2.log.length = w.log.length + 1 := by simp [execPortal]
  cases proof with
  | otp row redeemed =>
    obtain ⟨hrow, hlt, hwritten⟩ := h
    refine ⟨hrow, by omega, fun n hn hw => hwritten n hn (hw.of_concat (by omega))⟩
  | oauth row redeemed =>
    have hlt : redeemed < w.log.length := h
    change redeemed < _
    omega
  | password seen =>
    obtain ⟨hash, rfl, hs, hgone⟩ := h
    refine ⟨hash, rfl, hs.cons, ?_⟩
    rintro ⟨n, hn, hw⟩ hthere
    obtain ⟨hbefore, hnot⟩ := old_hash hs hfresh hthere
    exact hgone ⟨n, hn, not_written_concat hnot hw⟩ hbefore

/-- A password that is written kills the sessions and the codes of its customer, unless the
write creates the customer. -/
theorem killed_of_writesPassword {customerId : String}
    (h : WritesPassword customerId (ran P fresh n db write)) :
    Killed customerId (ran P fresh n db write).after ∨ customerId = newCustomerId fresh := by
  have howner := (of_writesPassword h).1
  cases write with
  | setPassword c =>
    obtain ⟨rfl, hhash⟩ := (write_setsHash c _ db).written h.1 h.2
    exact .inl (killed_of_invalidations hhash)
  | complete c =>
    rcases apply_complete P fresh n db c with hx | ⟨landed, db₂, hdone, hx⟩
    · exact absurd (by simp only [ran, hx]) h.2
    · simp only [WritesPassword, ran, hx] at h
      obtain ⟨rfl, hhash⟩ := hdone.passwords.written h.1 h.2
      simp only [ran, hx]
      exact .inl (killed_of_invalidations hhash)
  | createCustomer email password => exact .inr howner
  | _ => exact absurd howner id

/-- A customer that was there before the write is not the one that it creates. -/
theorem killed_of_written {customerId : String} (hfresh : Fresh fresh w)
    (hc : ∃ c ∈ w.db.customers, c.id = customerId)
    (h : WritesPassword customerId (ran P fresh w.log.length w.db write)) :
    Killed customerId (ran P fresh w.log.length w.db write).after := by
  rcases killed_of_writesPassword h with hk | rfl
  · exact hk
  · obtain ⟨c, hc, hid⟩ := hc
    exact absurd hid (hfresh.2.2 c hc)

theorem customer_step {customerId : String} (h : ∃ c ∈ w.db.customers, c.id = customerId) :
    ∃ c ∈ (execPortal P fresh write w).2.db.customers, c.id = customerId := by
  obtain ⟨c, hc, rfl⟩ := h
  exact customers_step write c hc

theorem salts_step (hfresh : Fresh fresh w)
    (h : ∀ p ∈ w.db.portal_passwords, Salted w.minted p.password_hash) :
    ∀ p ∈ (execPortal P fresh write w).2.db.portal_passwords,
      Salted (fresh :: w.minted) p.password_hash := by
  intro p hp
  rcases @passwords_step P fresh w.log.length w.db write with heq | ⟨c, password, -, hsets⟩
  · exact (h p (heq ▸ hp)).cons
  · rcases hsets.set p hp with hp | ⟨-, heq⟩
    · exact (h p hp).cons
    · rw [heq]
      exact salted_hashPassword hfresh.2.1 password

theorem codes_step (hfresh : Fresh fresh w) (h : ∀ r ∈ w.db.portal_otp, CodeFact w r) :
    ∀ r ∈ (execPortal P fresh write w).2.db.portal_otp,
      CodeFact (execPortal P fresh write w).2 r := by
  have hlen : (execPortal P fresh write w).2.log.length = w.log.length + 1 := by simp [execPortal]
  intro r' hr'
  rcases @otp_step P fresh w.log.length w.db write with
    ⟨row, rfl, hcustomer, -, hrows⟩ | hsucc
  · have hnot : ∀ c, ¬ WritesPassword c (ran P fresh w.log.length w.db (.insertOtp row)) :=
      fun c hw => (of_writesPassword hw).1
    change r' ∈ (ran P fresh w.log.length w.db (.insertOtp row)).after.portal_otp.rows at hr'
    rw [hrows] at hr'
    rcases List.mem_cons.mp hr' with rfl | hr
    · refine ⟨customer_step hcustomer, by simp [hlen], fun _ n hw => ?_⟩
      have := hw.lt
      change n ≤ w.log.length
      omega
    · obtain ⟨hc, hins, hnew⟩ := h r' hr
      exact ⟨customer_step hc, by omega, fun hn n hw => hnew hn n (not_written_concat (hnot _) hw)⟩
  · obtain ⟨r, hr, hnum, hstep⟩ := hsucc.row r' hr'
    obtain ⟨hc, hins, hnew⟩ := h r hr
    refine ⟨?_, by omega, fun hn n hw => ?_⟩
    · rw [hstep.customer]
      exact customer_step hc
    · rw [hstep.customer] at hw
      rcases written_concat.mp hw with hw | ⟨-, hw⟩
      · exact (hnew (hstep.consumed hn) n hw).trans_eq hnum.symm
      · exact absurd hn ((killed_of_written hfresh hc hw).codes r' hr' hstep.customer)

theorem Mints.guard {m : MintSession} (h : Mints (ran P fresh n db write) m) : m.Guard db := by
  obtain ⟨hw, hr⟩ := h
  obtain rfl : write = .mintSession m := hw
  rcases apply_mintSession P fresh n db m with hx | hx | ⟨hguard, -⟩
  · simp [ran, hx] at hr
  · simp [ran, hx] at hr
  · exact hguard

/-- A mint writes no password. -/
theorem Mints.not_writesPassword {m : MintSession} {customerId : String}
    (h : Mints (ran P fresh n db write) m) :
    ¬ WritesPassword customerId (ran P fresh n db write) := by
  obtain rfl : write = .mintSession m := h.1
  exact fun hw => (of_writesPassword hw).1

theorem sessions_step (hfresh : Fresh fresh w)
    (h : ∀ s ∈ w.db.portal_sessions, s.status = .active → SessionFact w s) :
    ∀ s ∈ (execPortal P fresh write w).2.db.portal_sessions, s.status = .active →
      SessionFact (execPortal P fresh write w).2 s := by
  intro s hs hactive
  rcases session_step hs hactive with hbefore | ⟨m, hmints, rfl, hguard⟩
  · obtain ⟨hc, place, e, m, he, hm, hcustomer, hproof, hnewest⟩ := h s hbefore hactive
    refine ⟨customer_step hc, place, e, m, getElem?_concat_some.mpr (.inl he), hm, hcustomer,
      hproof, fun n hw => ?_⟩
    rcases written_concat.mp hw with hw | ⟨-, hw⟩
    · exact hnewest n hw
    · have hrevoked := (killed_of_written hfresh hc hw).sessions s hs rfl
      exact nomatch hactive.symm.trans hrevoked
  · obtain ⟨c, hc, hid, -⟩ := hguard.1
    refine ⟨customer_step ⟨c, hc, hid⟩, w.log.length, _, m,
      getElem?_concat_some.mpr (.inr ⟨rfl, rfl⟩), hmints, rfl, rfl, fun n hw => ?_⟩
    exact (not_written_concat hmints.not_writesPassword hw).lt

theorem MintFact.concat {place : Nat} {m : MintSession} (h : MintFact log place m)
    (hplace : place < log.length) : MintFact (log ++ [e]) place m := by
  unfold MintFact at h ⊢
  cases hproof : m.proof with
  | otp row redeemed =>
    simp only [hproof] at h
    obtain ⟨hrow, hlt, hwritten⟩ := h
    exact ⟨hrow, hlt, fun n hn hw => hwritten n hn (hw.of_concat (by omega))⟩
  | oauth row redeemed =>
    simp only [hproof] at h
    exact h
  | password seen =>
    simp only [hproof] at h
    exact fun n hn hw => h n hn (hw.of_concat (by omega))

/-- A session that is minted from a fact of its proof. -/
theorem mintFact_of_ready {m : MintSession} (hready : write.Ready w)
    (hmints : Mints (ran P fresh w.log.length w.db write) m) :
    MintFact (w.log ++ [ran P fresh w.log.length w.db write]) w.log.length m := by
  have hguard := hmints.guard
  obtain rfl : write = .mintSession m := hmints.1
  have hfact : ProofFact w m.customer_id m.passwordHash m.proof := hready
  unfold MintFact
  cases hproof : m.proof with
  | otp row redeemed =>
    simp only [hproof] at hfact
    obtain ⟨hrow, hlt, hwritten⟩ := hfact
    exact ⟨hrow, hlt, fun n hn hw => hwritten n hn (hw.of_concat (by omega))⟩
  | oauth row redeemed =>
    simp only [hproof] at hfact
    exact hfact
  | password seen =>
    simp only [hproof] at hfact
    obtain ⟨hash, hhash, -, hgone⟩ := hfact
    have hthere := passwordOf_of_hasHash (hguard.2 hash hhash)
    intro n hn hw
    by_contra hle
    exact hgone ⟨n, Nat.le_of_not_lt hle, hw.of_concat hn⟩ hthere

theorem mints_step (hready : write.Ready w)
    (h : ∀ place e m, w.log[place]? = some e → Mints e m → MintFact w.log place m) :
    ∀ place e m, (execPortal P fresh write w).2.log[place]? = some e → Mints e m →
      MintFact (execPortal P fresh write w).2.log place m := by
  intro place e m he hmints
  rcases getElem?_concat_some.mp he with he | ⟨rfl, rfl⟩
  · exact (h place e m he hmints).concat (List.getElem?_eq_some_iff.mp he).1
  · exact mintFact_of_ready hready hmints

theorem actions_step
    (h : ∀ a ∈ w.db.portal_password_actions, Issued w.log a.token_hash a.toAction ∧
      ∀ claim ∈ a.claim, claim ∈ w.minted) :
    ∀ a ∈ (execPortal P fresh write w).2.db.portal_password_actions,
      Issued (execPortal P fresh write w).2.log a.token_hash a.toAction ∧
        ∀ claim ∈ a.claim, claim ∈ fresh :: w.minted := by
  intro a' ha'
  rcases @action_step P fresh w.log.length w.db write with ⟨row, rfl, hdone, hrows⟩ | hsucc
  · change a' ∈ (ran P fresh w.log.length w.db (.insertAction row)).after.portal_password_actions.rows
      at ha'
    rw [hrows] at ha'
    rcases List.mem_cons.mp ha' with rfl | ha
    · refine ⟨⟨_, List.mem_append_right _ (List.mem_singleton_self _), hdone, row, rfl, rfl, rfl⟩, ?_⟩
      exact fun claim hclaim => nomatch hclaim
    · obtain ⟨hissued, hclaims⟩ := h a' ha
      exact ⟨hissued.concat, fun claim hc => List.mem_cons_of_mem _ (hclaims claim hc)⟩
  · obtain ⟨a, ha, -, hstep⟩ := hsucc.row a' ha'
    obtain ⟨hissued, hclaims⟩ := h a ha
    refine ⟨?_, fun claim hc => ?_⟩
    · rw [hstep.same.1, hstep.same.2]
      exact hissued.concat
    · rcases hstep.claim with heq | heq
      · exact List.mem_cons_of_mem _ (hclaims claim (heq ▸ hc))
      · obtain rfl := Option.some.inj (heq.symm.trans hc)
        exact List.mem_cons_self

/-- A batch that redeems a link writes the password of the customer of the link, over the
one that the link was emailed for. -/
theorem linkFact_of_ready {c : Completion} (hfresh : Fresh fresh w)
    (hclaims : ∀ a ∈ w.db.portal_password_actions, ∀ claim ∈ a.claim, claim ∈ w.minted)
    (hready : (PortalWrite.complete c).Ready w) :
    LinkFact w.log (ran P fresh w.log.length w.db (.complete c)) c := by
  refine ⟨hready, fun customerId h => ?_, fun customerId h => (of_writesPassword h).1,
    fun hpurpose customerId h => ?_⟩
  · rcases apply_complete P fresh w.log.length w.db c with hx | ⟨landed, db₂, hdone, hx⟩
    · exact absurd (by simp only [ran, hx]) h.2
    · rcases hdone.claimed with heq | hclaimed
      · refine absurd ?_ h.2
        simp only [ran, hx, PortalDb.passwordOf, passwordInvalidations, heq]
      · obtain ⟨a', ha', htoken, hclaim⟩ := hclaimed
        obtain ⟨a, ha, rfl⟩ := mem_updateActions.mp ha'
        by_cases htakes : c.Takes a
        · exact ⟨a, ha, htoken, by simp [ran, hx], htakes⟩
        · -- An action with this claim was claimed before, but the claim is new.
          simp only [if_neg htakes] at hclaim
          exact absurd (hclaims a ha fresh hclaim) hfresh.1
  · obtain rfl := (of_writesPassword h).1
    rcases apply_complete P fresh w.log.length w.db c with hx | ⟨landed, db₂, hdone, hx⟩
    · exact absurd (by simp only [ran, hx]) h.2
    · obtain ⟨hash, hhash⟩ := Option.ne_none_iff_exists'.mp h.1
      simp only [WritesPassword, ran, hx] at h hhash
      obtain ⟨p', hp', hid, rfl⟩ := of_passwordOf hhash
      rcases hdone.reset hpurpose p' hp' with hold | ⟨p, hp, hcustomer, hcredential⟩
      · exact absurd (hhash.trans (hid ▸ passwordOf_eq hold).symm) h.2
      · rw [← hcredential, ← hid, ← hcustomer]
        exact passwordOf_eq hp

theorem links_step (hfresh : Fresh fresh w)
    (hclaims : ∀ a ∈ w.db.portal_password_actions, ∀ claim ∈ a.claim, claim ∈ w.minted)
    (hready : write.Ready w)
    (h : ∀ place e c, w.log[place]? = some e → e.write = .complete c →
      LinkFact (w.log.take place) e c) :
    ∀ place e c, (execPortal P fresh write w).2.log[place]? = some e → e.write = .complete c →
      LinkFact ((execPortal P fresh write w).2.log.take place) e c := by
  intro place e c he hc
  rcases getElem?_concat_some.mp he with he | ⟨rfl, rfl⟩
  · have hlt := (List.getElem?_eq_some_iff.mp he).1
    have htake : (execPortal P fresh write w).2.log.take place = w.log.take place :=
      List.take_append_of_le_length (Nat.le_of_lt hlt)
    rw [htake]
    exact h place e c he hc
  · have htake : (execPortal P fresh write w).2.log.take w.log.length = w.log := by
      simp [execPortal]
    rw [htake]
    obtain rfl : write = .complete c := hc
    exact linkFact_of_ready hfresh hclaims hready

/-- Every write that meets its promise keeps the invariant. -/
theorem portalInv_stable : (portalSystem P).Stable PortalWrite.Ready PortalInv PortalInv := by
  intro fresh write w hfresh hready _ h
  exact ⟨salts_step hfresh h.salts, codes_step hfresh h.codes, sessions_step hfresh h.sessions,
    mints_step hready h.mints, actions_step h.actions,
    links_step hfresh (fun a ha => (h.actions a ha).2) hready h.links⟩

theorem portalInv_opened (h : Opened w) : PortalInv w where
  salts := h.salts
  codes r hr := by
    rw [Table.mem_def, h.otp] at hr
    exact nomatch hr
  sessions s hs := by
    rw [Table.mem_def, h.sessions] at hs
    exact nomatch hs
  mints place e m he := by
    rw [h.log] at he
    exact nomatch he
  actions a ha := by
    rw [Table.mem_def, h.actions] at ha
    exact nomatch ha
  links place e c he := by
    rw [h.log] at he
    exact nomatch he

end Licensecc.Portal
