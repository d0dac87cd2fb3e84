-- What each write of the portal can do: to codes and links, to sessions, to passwords, to
-- the states of providers, and to the actions of emailed links.
import Licensecc.Portal.Requests

open Licensecc.Sql Licensecc.Conc

namespace Licensecc.Portal

variable {P : Platform} {fresh : String} {n : Nat} {db db' : PortalDb}

/-! ## Statements that can throw -/

theorem subset_of_insert {ρ : Type} [Schema ρ] {row : ρ} {t t' : Table ρ}
    (h : t.insert row = .ok t') : ∀ r ∈ t, r ∈ t' := fun _ hr => (Table.mem_of_insert h).mpr (.inr hr)

theorem of_insertOtp {row : PortalOtp} (h : insertOtp row n db = .ok db') :
    (∃ c ∈ db.customers, c.id = row.customer_id) ∧ ∃ t, db' = { db with portal_otp := t } ∧
      t.rows = { row with attempt_count := 0, consumed_at := none, inserted := n } ::
        db.portal_otp.rows := by
  obtain ⟨hcustomer, h⟩ := require_bind_eq_ok.mp h
  obtain ⟨t, ht, h⟩ := bind_eq_ok.mp h
  obtain rfl := Except.ok.inj h
  exact ⟨hcustomer, t, rfl, Table.rows_of_insert ht⟩

theorem of_insertSession {m : MintSession} {landed : Bool}
    (h : insertSession m db = .ok (landed, db')) :
    landed = false ∧ db' = db ∨ landed = true ∧ m.Guard db ∧
      ∃ t, db' = { db with portal_sessions := t } ∧ t.rows = m.row :: db.portal_sessions.rows := by
  unfold insertSession at h
  split at h
  · obtain ⟨t, ht, h⟩ := bind_eq_ok.mp h
    obtain ⟨rfl, rfl⟩ := Prod.mk.inj (Except.ok.inj h)
    exact .inr ⟨rfl, ‹_›, t, rfl, Table.rows_of_insert ht⟩
  · obtain ⟨rfl, rfl⟩ := Prod.mk.inj (Except.ok.inj h)
    exact .inl ⟨rfl, rfl⟩

theorem of_insertState {row : OauthState} (h : insertState row n db = .ok db') :
    ∃ t, db' = { db with portal_oauth_states := t } ∧
      t.rows = { row with inserted := n } :: db.portal_oauth_states.rows := by
  obtain ⟨-, h⟩ := require_bind_eq_ok.mp h
  obtain ⟨t, ht, h⟩ := bind_eq_ok.mp h
  obtain rfl := Except.ok.inj h
  exact ⟨t, rfl, Table.rows_of_insert ht⟩

theorem of_linkIdentity {identity : Identity} {sessionId : String} {now : Int}
    {id : Option String} (h : linkIdentity identity sessionId now db = .ok (id, db')) :
    ∃ t, db' = { db with portal_identities := t } ∧ ∀ r ∈ db.portal_identities, r ∈ t := by
  unfold linkIdentity at h
  split at h
  · obtain ⟨-, rfl⟩ := Prod.mk.inj (Except.ok.inj h)
    exact ⟨db.portal_identities, rfl, fun _ hr => hr⟩
  · obtain ⟨t, ht, h⟩ := bind_eq_ok.mp h
    obtain ⟨-, rfl⟩ := Prod.mk.inj (Except.ok.inj h)
    exact ⟨t, rfl, subset_of_insert ht⟩

/-- The customers of before are there. -/
def Keeps (t t' : Table Customer) : Prop := ∀ c ∈ t, ∃ c' ∈ t', c'.id = c.id

theorem Keeps.refl (t : Table Customer) : Keeps t t := fun c hc => ⟨c, hc, rfl⟩

/-- The customers of before are there with their contact addresses. -/
def KeepsEmails (t t' : Table Customer) : Prop :=
  ∀ c ∈ t, ∃ c' ∈ t', c'.id = c.id ∧ (c.email ≠ "" → c'.email = c.email)

theorem keepsEmails_of_subset {t t' : Table Customer} (h : ∀ c ∈ t, c ∈ t') : KeepsEmails t t' :=
  fun c hc => ⟨c, h c hc, rfl, fun _ => rfl⟩

theorem KeepsEmails.keeps {t t' : Table Customer} (h : KeepsEmails t t') : Keeps t t' := by
  intro c hc
  obtain ⟨c', hc', hid, -⟩ := h c hc
  exact ⟨c', hc', hid⟩

theorem subset_of_insertIf {ρ : Type} [Schema ρ] {p : Prop} [Decidable p] {row : ρ}
    {t t' : Table ρ} (h : insertIf p row t = .ok t') : ∀ r ∈ t, r ∈ t' := by
  unfold insertIf at h
  split at h
  · exact subset_of_insert h
  · obtain rfl := Except.ok.inj h
    exact fun _ hr => hr

theorem of_registerIdentity {customerId : String} {identity : Identity}
    (h : registerIdentity customerId identity db = .ok db') :
    ∃ customers identities, (∀ c ∈ db.customers, c ∈ customers) ∧
      (∀ r ∈ db.portal_identities, r ∈ identities) ∧
      db' = { db with customers := customers, portal_identities := identities } := by
  obtain ⟨customers, hc, h⟩ := bind_eq_ok.mp h
  obtain ⟨identities, hi, h⟩ := bind_eq_ok.mp h
  obtain rfl := Except.ok.inj h
  exact ⟨customers, identities, subset_of_insert hc, subset_of_insert hi, rfl⟩

theorem of_insertAction {row : PasswordAction} (h : insertAction row n db = .ok db') :
    ∃ t, db' = { db with portal_password_actions := t } ∧
      t.rows = { row with consumed_at := none, claim := none, inserted := n } ::
        db.portal_password_actions.rows := by
  obtain ⟨t, ht, h⟩ := bind_eq_ok.mp h
  obtain rfl := Except.ok.inj h
  exact ⟨t, rfl, Table.rows_of_insert ht⟩

/-! ## Passwords -/

/-- No customer loses the password, the passwords of all others are the same, and that of
one customer can have become the hash. -/
structure SetsHash (customerId hash : String) (t t' : Table PortalPassword) : Prop where
  set : ∀ p' ∈ t', p' ∈ t ∨ p'.customer_id = customerId ∧ p'.password_hash = hash
  keeps : ∀ p ∈ t, ∃ p' ∈ t', p'.customer_id = p.customer_id

/-- A password of a customer is the only one. -/
theorem passwordOf_eq {p : PortalPassword} (h : p ∈ db.portal_passwords) :
    db.passwordOf p.customer_id = some p.password_hash := by
  have hfind : db.portal_passwords.find? (fun q => q.customer_id = p.customer_id) = some p :=
    Table.find?_eq h rfl fun a b ha hb => .inl (Eq.trans ha hb.symm)
  unfold PortalDb.passwordOf
  rw [hfind]
  rfl

theorem of_passwordOf {customerId hash : String} (h : db.passwordOf customerId = some hash) :
    db.HasHash customerId hash := by
  obtain ⟨p, hp, rfl⟩ := Option.map_eq_some_iff.mp h
  exact ⟨p, (Table.find?_some hp).1, by simpa using (Table.find?_some hp).2, rfl⟩

theorem passwordOf_of_hasHash {customerId hash : String} (h : db.HasHash customerId hash) :
    db.passwordOf customerId = some hash := by
  obtain ⟨p, hp, rfl, rfl⟩ := h
  exact passwordOf_eq hp

theorem SetsHash.refl (customerId hash : String) (t : Table PortalPassword) :
    SetsHash customerId hash t t := ⟨fun _ hp => .inl hp, fun p hp => ⟨p, hp, rfl⟩⟩

theorem setsHash_of_setHash {customerId hash : String} {sel : PortalPassword → Prop}
    [DecidablePred sel] {t : Table PortalPassword} (h : ∀ p, sel p → p.customer_id = customerId) :
    SetsHash customerId hash t (setHash hash sel t) := by
  refine ⟨fun p' hp' => ?_, fun p hp => ⟨_, Table.mem_modify.mpr ⟨p, hp, rfl⟩, rfl⟩⟩
  obtain ⟨p, hp, rfl⟩ := Table.mem_modify.mp hp'
  by_cases hs : sel p
  · exact .inr ⟨h p hs, if_pos hs⟩
  · rw [if_neg hs]
    exact .inl hp

theorem setsHash_of_insert {customerId email hash : String} {t t' : Table PortalPassword}
    (h : t.insert ⟨customerId, email, hash⟩ = .ok t') : SetsHash customerId hash t t' := by
  refine ⟨fun p' hp' => ?_, fun p hp => ⟨p, subset_of_insert h p hp, rfl⟩⟩
  rcases (Table.mem_of_insert h).mp hp' with rfl | hp
  · exact .inr ⟨rfl, rfl⟩
  · exact .inl hp

/-- A password that is another one after a statement is the hash. -/
theorem SetsHash.written {customerId hash c : String}
    (h : SetsHash customerId hash db.portal_passwords db'.portal_passwords)
    (hsome : db'.passwordOf c ≠ none) (hne : db'.passwordOf c ≠ db.passwordOf c) :
    c = customerId ∧ db'.HasHash customerId hash := by
  obtain ⟨new, hnew⟩ := Option.ne_none_iff_exists'.mp hsome
  obtain ⟨p', hp', rfl, rfl⟩ := of_passwordOf hnew
  rcases h.set p' hp' with hp | ⟨rfl, rfl⟩
  · exact absurd (hnew.trans (passwordOf_eq hp).symm) hne
  · exact ⟨rfl, p', hp', rfl, rfl⟩

theorem write_setsHash (c : PasswordChange) (hash : String) (db : PortalDb) :
    SetsHash c.customer_id hash db.portal_passwords (c.write hash db).2 := by
  unfold PasswordChange.write
  split
  · split
    · split
      · exact setsHash_of_insert ‹_›
      · exact SetsHash.refl _ _ _
    · exact SetsHash.refl _ _ _
  · exact setsHash_of_setHash fun p hp => hp.1

/-- What the batch of a completion does before the invalidations. -/
structure Completed (c : Completion) (fresh hash : String) (db db' : PortalDb) : Prop where
  eq : ∃ customers passwords, db' = { db with
    customers := customers
    portal_passwords := passwords
    portal_password_actions := c.take fresh db.portal_password_actions }
  customers : KeepsEmails db.customers db'.customers
  passwords : SetsHash c.action.customer_id hash db.portal_passwords db'.portal_passwords
  claimed : db'.portal_passwords = db.portal_passwords ∨
    c.Claimed fresh (c.take fresh db.portal_password_actions)
  reset : c.action.purpose = .reset → ∀ p' ∈ db'.portal_passwords, p' ∈ db.portal_passwords ∨
    ∃ p ∈ db.portal_passwords, p.customer_id = p'.customer_id ∧
      some p.password_hash = c.action.credential_hash

theorem of_register {c : Completion} {claimed : Prop} [Decidable claimed] {hash : String}
    {landed : Bool} (h : c.register claimed hash db = .ok (landed, db')) :
    ∃ customers passwords, db' = { db with customers := customers, portal_passwords := passwords } ∧
      KeepsEmails db.customers customers ∧
      SetsHash c.action.customer_id hash db.portal_passwords passwords ∧
      (passwords = db.portal_passwords ∨ claimed) := by
  unfold Completion.register at h
  dsimp only at h
  obtain ⟨customers, hc, h⟩ := bind_eq_ok.mp h
  have hkeeps := keepsEmails_of_subset (subset_of_insertIf hc)
  split at h
  · obtain ⟨passwords, hp, h⟩ := bind_eq_ok.mp h
    obtain ⟨-, rfl⟩ := Prod.mk.inj (Except.ok.inj h)
    exact ⟨customers, passwords, rfl, hkeeps, setsHash_of_insert hp, .inr (by tauto)⟩
  · obtain ⟨-, rfl⟩ := Prod.mk.inj (Except.ok.inj h)
    exact ⟨customers, db.portal_passwords, rfl, hkeeps, SetsHash.refl _ _ _, .inl rfl⟩

/-- A reset that selects no row leaves the passwords as they are. -/
theorem setHash_none {hash : String} {sel : PortalPassword → Prop} [DecidablePred sel]
    {t : Table PortalPassword} (h : ∀ p ∈ t, ¬ sel p) : setHash hash sel t = t := by
  refine Table.ext ?_
  have hmap : t.rows.map (fun p => { p with password_hash := if sel p then hash else p.password_hash }) =
      t.rows.map id := List.map_congr_left fun p hp => by rw [if_neg (h p hp)]; rfl
  exact hmap.trans (List.map_id _)

theorem mem_setHash {hash : String} {sel : PortalPassword → Prop} [DecidablePred sel]
    {t : Table PortalPassword} {p' : PortalPassword} : p' ∈ setHash hash sel t ↔
      ∃ p ∈ t, { p with password_hash := if sel p then hash else p.password_hash } = p' :=
  List.mem_map

theorem of_reset {c : Completion} {claimed : Prop} [Decidable claimed] {hash : String}
    {landed : Bool} (h : c.reset claimed hash db = .ok (landed, db')) :
    ∃ customers, db' = { db with
        customers := customers
        portal_passwords := setHash hash (c.Resets claimed db) db.portal_passwords } ∧
      KeepsEmails db.customers customers := by
  unfold Completion.reset at h
  dsimp only at h
  obtain ⟨⟨count, customers⟩, hu, h⟩ := bind_eq_ok.mp h
  obtain ⟨-, rfl⟩ := Prod.mk.inj (Except.ok.inj h)
  refine ⟨customers, rfl, fun o ho => ⟨_, (Table.mem_of_update hu).mpr ⟨o, ho, rfl⟩, ?_⟩⟩
  split
  · rename_i hsel
    exact ⟨rfl, fun hne => absurd hsel.2.1 hne⟩
  · exact ⟨rfl, fun _ => rfl⟩

/-- A completion that does not throw is its statements and then the invalidations. -/
theorem of_complete {c : Completion} {landed : Bool}
    (h : complete P fresh c db = .ok (landed, db')) :
    ∃ db₂, Completed c fresh (hashPassword P fresh c.password) db db₂ ∧
      db' = passwordInvalidations c.action.customer_id (hashPassword P fresh c.password) c.now
        (some c.action.email_lower) db₂ := by
  unfold complete at h
  simp only at h
  cases hpurpose : c.action.purpose with
  | register =>
    simp only [hpurpose] at h
    obtain ⟨⟨l, db₂⟩, hr, h⟩ := bind_eq_ok.mp h
    obtain ⟨-, rfl⟩ := Prod.mk.inj (Except.ok.inj h)
    obtain ⟨customers, passwords, rfl, hkeeps, hsets, hclaimed⟩ := of_register hr
    exact ⟨_, ⟨⟨customers, passwords, rfl⟩, hkeeps, hsets, hclaimed,
      fun h => nomatch hpurpose.symm.trans h⟩, rfl⟩
  | reset =>
    simp only [hpurpose] at h
    obtain ⟨⟨l, db₂⟩, hr, h⟩ := bind_eq_ok.mp h
    obtain ⟨-, rfl⟩ := Prod.mk.inj (Except.ok.inj h)
    obtain ⟨customers, rfl, hkeeps⟩ := of_reset hr
    refine ⟨_, ⟨⟨customers, _, rfl⟩, hkeeps, setsHash_of_setHash fun p hp => hp.1, ?_, ?_⟩, rfl⟩
    · by_cases hclaimed : c.Claimed fresh (c.take fresh db.portal_password_actions)
      · exact .inr hclaimed
      · exact .inl (setHash_none fun p _ hp => hclaimed hp.2.2.2.1)
    · intro _ p' hp'
      obtain ⟨p, hp, rfl⟩ := mem_setHash.mp hp'
      split
      · rename_i hsel
        exact .inr ⟨p, hp, rfl, hsel.2.2.1⟩
      · exact .inl hp

theorem of_createCustomer {email password : String}
    (h : createCustomer P fresh email password db = .ok db') :
    ∃ customers passwords, db' = { db with customers := customers, portal_passwords := passwords } ∧
      (∀ c ∈ db.customers, c ∈ customers) ∧ SetsHash (newCustomerId fresh)
        (hashPassword P fresh password) db.portal_passwords passwords := by
  unfold createCustomer at h
  dsimp only at h
  obtain ⟨customers, hc, h⟩ := bind_eq_ok.mp h
  obtain ⟨-, h⟩ := require_bind_eq_ok.mp h
  obtain ⟨passwords, hp, h⟩ := bind_eq_ok.mp h
  obtain rfl := Except.ok.inj h
  exact ⟨customers, passwords, rfl, subset_of_insertIf hc, setsHash_of_insert hp⟩

/-! ## Every write -/

theorem attempt_cases {α : Type} (x : Except Abort (α × PortalDb)) (f : α → PortalResult)
    (db : PortalDb) : attempt x f db = (.aborted, db) ∨
      ∃ a db', x = .ok (a, db') ∧ attempt x f db = (f a, db') := by
  rcases x with e | ⟨a, db'⟩
  · exact .inl rfl
  · exact .inr ⟨a, db', rfl, rfl⟩

theorem attempt_unit (x : Except Abort PortalDb) (r : PortalResult) (db : PortalDb) :
    attempt (x.map ((), ·)) (fun _ => r) db = (.aborted, db) ∨
      ∃ db', x = .ok db' ∧ attempt (x.map ((), ·)) (fun _ => r) db = (r, db') := by
  rcases x with e | db'
  · exact .inl rfl
  · exact .inr ⟨db', rfl, rfl⟩

section
variable (P fresh n db)

theorem apply_insertOtp (row : PortalOtp) :
    PortalWrite.apply P fresh n db (.insertOtp row) = (.aborted, db) ∨
    (∃ c ∈ db.customers, c.id = row.customer_id) ∧
      ∃ t, PortalWrite.apply P fresh n db (.insertOtp row) = (.done, { db with portal_otp := t }) ∧
        t.rows = { row with attempt_count := 0, consumed_at := none, inserted := n } ::
          db.portal_otp.rows := by
  rcases attempt_unit (insertOtp row n db) .done db with h | ⟨db', hx, h⟩
  · exact .inl h
  · obtain ⟨hc, t, rfl, hrows⟩ := of_insertOtp hx
    exact .inr ⟨hc, t, h, hrows⟩

theorem apply_mintSession (m : MintSession) :
    PortalWrite.apply P fresh n db (.mintSession m) = (.aborted, db) ∨
    PortalWrite.apply P fresh n db (.mintSession m) = (.returning false, db) ∨
    m.Guard db ∧ ∃ t, PortalWrite.apply P fresh n db (.mintSession m) =
      (.returning true, { db with portal_sessions := t }) ∧
        t.rows = m.row :: db.portal_sessions.rows := by
  rcases attempt_cases (insertSession m db) .returning db with h | ⟨landed, db', hx, h⟩
  · exact .inl h
  · rcases of_insertSession hx with ⟨rfl, rfl⟩ | ⟨rfl, hguard, t, rfl, hrows⟩
    · exact .inr (.inl h)
    · exact .inr (.inr ⟨hguard, t, h, hrows⟩)

theorem apply_insertState (row : OauthState) :
    PortalWrite.apply P fresh n db (.insertState row) = (.aborted, db) ∨
    ∃ t, PortalWrite.apply P fresh n db (.insertState row) =
      (.done, { db with portal_oauth_states := t }) ∧
        t.rows = { row with inserted := n } :: db.portal_oauth_states.rows := by
  rcases attempt_unit (insertState row n db) .done db with h | ⟨db', hx, h⟩
  · exact .inl h
  · obtain ⟨t, rfl, hrows⟩ := of_insertState hx
    exact .inr ⟨t, h, hrows⟩

theorem apply_linkIdentity (identity : Identity) (sessionId : String) (now : Int) :
    PortalWrite.apply P fresh n db (.linkIdentity identity sessionId now) = (.aborted, db) ∨
    ∃ id t, PortalWrite.apply P fresh n db (.linkIdentity identity sessionId now) =
      (.customer id, { db with portal_identities := t }) ∧
        ∀ r ∈ db.portal_identities, r ∈ t := by
  rcases attempt_cases (linkIdentity identity sessionId now db) .customer db with h | ⟨id, db', hx, h⟩
  · exact .inl h
  · obtain ⟨t, rfl, hkeep⟩ := of_linkIdentity hx
    exact .inr ⟨id, t, h, hkeep⟩

theorem apply_registerIdentity (customerId : String) (identity : Identity) :
    PortalWrite.apply P fresh n db (.registerIdentity customerId identity) = (.aborted, db) ∨
    ∃ customers identities, PortalWrite.apply P fresh n db (.registerIdentity customerId identity) =
      (.done, { db with customers := customers, portal_identities := identities }) ∧
        (∀ c ∈ db.customers, c ∈ customers) ∧ ∀ r ∈ db.portal_identities, r ∈ identities := by
  rcases attempt_unit (registerIdentity customerId identity db) .done db with h | ⟨db', hx, h⟩
  · exact .inl h
  · obtain ⟨customers, identities, hc, hi, rfl⟩ := of_registerIdentity hx
    exact .inr ⟨customers, identities, h, hc, hi⟩

theorem apply_insertAction (row : PasswordAction) :
    PortalWrite.apply P fresh n db (.insertAction row) = (.aborted, db) ∨
    ∃ t, PortalWrite.apply P fresh n db (.insertAction row) =
      (.done, { db with portal_password_actions := t }) ∧
        t.rows = { row with consumed_at := none, claim := none, inserted := n } ::
          db.portal_password_actions.rows := by
  rcases attempt_unit (insertAction row n db) .done db with h | ⟨db', hx, h⟩
  · exact .inl h
  · obtain ⟨t, rfl, hrows⟩ := of_insertAction hx
    exact .inr ⟨t, h, hrows⟩

theorem apply_complete (c : Completion) :
    PortalWrite.apply P fresh n db (.complete c) = (.aborted, db) ∨
    ∃ landed db₂, Completed c fresh (hashPassword P fresh c.password) db db₂ ∧
      PortalWrite.apply P fresh n db (.complete c) =
        (.password landed (hashPassword P fresh c.password) (n + 1),
          passwordInvalidations c.action.customer_id (hashPassword P fresh c.password) c.now
            (some c.action.email_lower) db₂) := by
  rcases attempt_cases (complete P fresh c db)
    (fun landed => .password landed (hashPassword P fresh c.password) (n + 1)) db with
    h | ⟨landed, db', hx, h⟩
  · exact .inl h
  · obtain ⟨db₂, hdone, rfl⟩ := of_complete hx
    exact .inr ⟨landed, db₂, hdone, h⟩

theorem apply_createCustomer (email password : String) :
    PortalWrite.apply P fresh n db (.createCustomer email password) = (.aborted, db) ∨
    ∃ customers passwords, PortalWrite.apply P fresh n db (.createCustomer email password) =
        (.done, { db with customers := customers, portal_passwords := passwords }) ∧
      (∀ c ∈ db.customers, c ∈ customers) ∧ SetsHash (newCustomerId fresh)
        (hashPassword P fresh password) db.portal_passwords passwords := by
  rcases attempt_unit (createCustomer P fresh email password db) .done db with h | ⟨db', hx, h⟩
  · exact .inl h
  · obtain ⟨customers, passwords, rfl, hc, hsets⟩ := of_createCustomer hx
    exact .inr ⟨customers, passwords, h, hc, hsets⟩

end

end Licensecc.Portal
