-- What each write of the portal can do to a row of a table: which codes it compares or
-- claims, which sessions it leaves active, and whose password it writes.
import Licensecc.Portal.Effects

open Licensecc.Sql Licensecc.Conc

namespace Licensecc.Portal

variable {P : Platform} {fresh : String} {n : Nat} {db : PortalDb} {write : PortalWrite}

/-- The entry of a write. -/
def ran (P : Platform) (fresh : String) (n : Nat) (db : PortalDb) (write : PortalWrite) :
    PortalEntry := ⟨write, (write.apply P fresh n db).1, db, (write.apply P fresh n db).2⟩

/-! ## Frames -/

inductive PortalTable where
  | customers
  | passwords
  | sessions
  | otp
  | states
  | identities
  | actions

/-- The tables that a write can change. -/
def PortalWrite.tables : PortalWrite → List PortalTable
  | countRequest .. | sweepCounters _ => []
  | supersedeOtp .. | insertOtp _ | claimLink .. | claimCode .. | sweepOtp _ => [.otp]
  | mintSession _ | revokeSession .. => [.sessions]
  | sweepStates _ | insertState _ | claimState .. => [.states]
  | linkIdentity .. => [.identities]
  | registerIdentity .. => [.customers, .identities]
  | unlink _ => [.identities, .sessions]
  | setPassword _ => [.passwords, .sessions, .otp, .actions]
  | sweepActions _ | insertAction _ | dropAction _ => [.actions]
  | complete _ => [.customers, .passwords, .sessions, .otp, .actions]
  | createCustomer .. => [.customers, .passwords]
  | sweepSessions _ => [.sessions, .states]
  | customers _ => [.customers]

/-- The databases have the same rows in the table. -/
def PortalTable.Same (db db' : PortalDb) : PortalTable → Prop
  | customers => db'.customers = db.customers
  | passwords => db'.portal_passwords = db.portal_passwords
  | sessions => db'.portal_sessions = db.portal_sessions
  | otp => db'.portal_otp = db.portal_otp
  | states => db'.portal_oauth_states = db.portal_oauth_states
  | identities => db'.portal_identities = db.portal_identities
  | actions => db'.portal_password_actions = db.portal_password_actions

theorem PortalTable.Same.refl (t : PortalTable) (db : PortalDb) : t.Same db db := by
  cases t <;> rfl

/-- A write leaves every other table as it is. -/
theorem frame (write : PortalWrite) {k : PortalTable} (h : k ∉ write.tables) :
    k.Same db (ran P fresh n db write).after := by
  simp only [ran]
  cases write with
  | insertOtp row =>
    rcases apply_insertOtp P fresh n db row with hx | ⟨-, t, hx, -⟩ <;> rw [hx]
    · exact .refl ..
    · cases k <;> first | rfl | simp [PortalWrite.tables] at h
  | mintSession m =>
    rcases apply_mintSession P fresh n db m with hx | hx | ⟨-, t, hx, -⟩ <;> rw [hx]
    · exact .refl ..
    · exact .refl ..
    · cases k <;> first | rfl | simp [PortalWrite.tables] at h
  | insertState row =>
    rcases apply_insertState P fresh n db row with hx | ⟨t, hx, -⟩ <;> rw [hx]
    · exact .refl ..
    · cases k <;> first | rfl | simp [PortalWrite.tables] at h
  | linkIdentity identity sessionId now =>
    rcases apply_linkIdentity P fresh n db identity sessionId now with hx | ⟨id, t, hx, -⟩ <;> rw [hx]
    · exact .refl ..
    · cases k <;> first | rfl | simp [PortalWrite.tables] at h
  | registerIdentity customerId identity =>
    rcases apply_registerIdentity P fresh n db customerId identity with hx | ⟨cs, is, hx, -⟩ <;>
      rw [hx]
    · exact .refl ..
    · cases k <;> first | rfl | simp [PortalWrite.tables] at h
  | insertAction row =>
    rcases apply_insertAction P fresh n db row with hx | ⟨t, hx, -⟩ <;> rw [hx]
    · exact .refl ..
    · cases k <;> first | rfl | simp [PortalWrite.tables] at h
  | createCustomer email password =>
    rcases apply_createCustomer P fresh n db email password with hx | ⟨cs, ps, hx, -⟩ <;> rw [hx]
    · exact .refl ..
    · cases k <;> first | rfl | simp [PortalWrite.tables] at h
  | complete c =>
    rcases apply_complete P fresh n db c with hx | ⟨landed, db₂, hdone, hx⟩ <;> rw [hx]
    · exact .refl ..
    · obtain ⟨customers, passwords, rfl⟩ := hdone.eq
      cases k <;> first | rfl | simp [PortalWrite.tables] at h
  | claimLink candidates now =>
    simp only [PortalWrite.apply, claimLink]
    split
    · exact .refl ..
    · cases k <;> first | rfl | simp [PortalWrite.tables] at h
  | customers table =>
    simp only [PortalWrite.apply]
    split
    · cases k <;> first | rfl | simp [PortalWrite.tables] at h
    · exact .refl ..
  | _ => cases k <;> first | rfl | simp [PortalWrite.tables] at h

/-! ## Codes and links -/

/-- The write compares a submitted code with the row, or it is the link of the row. -/
def Counts (e : PortalEntry) (r : PortalOtp) : Prop :=
  match e.write with
  | .claimLink candidates now => linkRow candidates now e.before = some r
  | .claimCode _ emailLower now => r.Guessed emailLower now
  | _ => False

/-- The write claims the row for a sign-in. -/
def Claims (e : PortalEntry) (r : PortalOtp) : Prop :=
  match e.write with
  | .claimLink candidates now => linkRow candidates now e.before = some r
  | .claimCode candidates emailLower now => r.Guessed emailLower now ∧ r.code_hmac ∈ candidates
  | _ => False

instance (e : PortalEntry) : DecidablePred (Counts e) := fun _ => by
  unfold Counts
  split
  · infer_instance
  · infer_instance
  · infer_instance

instance (e : PortalEntry) : DecidablePred (Claims e) := fun _ => by
  unfold Claims
  split
  · infer_instance
  · infer_instance
  · infer_instance

/-- The number of the code that a proof is. -/
def Proof.code : Proof → Option Nat
  | otp row _ => some row
  | _ => none

/-- The write mints a session from this code. -/
def SignsIn (row : Nat) (e : PortalEntry) : Prop :=
  match e.write with
  | .mintSession m => e.result = .returning true ∧ m.proof.code = some row
  | _ => False

instance (row : Nat) : DecidablePred (SignsIn row) := fun _ => by
  unfold SignsIn
  split
  · infer_instance
  · infer_instance

/-- The write submits a code or a link while the row is live. -/
def Submits (e : PortalEntry) (r : PortalOtp) : Prop :=
  match e.write with
  | .claimLink _ now => r.Live now
  | .claimCode _ emailLower now => r.Guessed emailLower now
  | _ => False

instance (e : PortalEntry) : DecidablePred (Submits e) := fun _ => by
  unfold Submits
  split
  · infer_instance
  · infer_instance
  · infer_instance

/-- What a write makes of a code row. -/
structure OtpStep (e : PortalEntry) (r r' : PortalOtp) : Prop where
  customer : r'.customer_id = r.customer_id
  attempts : r.attempt_count ≤ r'.attempt_count
  consumed : r'.consumed_at = none → r.consumed_at = none
  counts : Counts e r → r'.attempt_count = r.attempt_count + 1
  claims : Claims e r → r'.consumed_at ≠ none

theorem OtpStep.refl {e : PortalEntry} {r : PortalOtp} (hcounts : ¬ Counts e r)
    (hclaims : ¬ Claims e r) : OtpStep e r r :=
  ⟨rfl, le_rfl, id, fun h => absurd h hcounts, fun h => absurd h hclaims⟩

/-- A row that a write compares is live. -/
theorem Counts.live {e : PortalEntry} {r : PortalOtp} (h : Counts e r) :
    r.consumed_at = none ∧ r.attempt_count < MAX_ATTEMPTS := by
  unfold Counts at h
  split at h
  · obtain ⟨-, hlive⟩ := (Table.find?_some h).2
    exact ⟨hlive.1, hlive.2.2⟩
  · exact ⟨h.2.1, h.2.2.2⟩
  · exact absurd h id

theorem Claims.counts {e : PortalEntry} {r : PortalOtp} (h : Claims e r) : Counts e r := by
  unfold Claims at h
  unfold Counts
  split at h
  · exact h
  · exact h.1
  · exact absurd h id

/-- The codes of `consumeOtp`. -/
theorem consumeOtp_step {e : PortalEntry} {now : Int} {sel : PortalOtp → Prop} [DecidablePred sel]
    {t : Table PortalOtp} (hcounts : ∀ r, ¬ Counts e r) (hclaims : ∀ r, ¬ Claims e r) :
    Successors (·.inserted) (OtpStep e) t.rows (consumeOtp now sel t).rows := by
  refine Successors.of_map (fun _ => rfl) fun r _ => ?_
  by_cases hs : sel r
  · refine ⟨rfl, le_rfl, fun h => ?_, fun h => absurd h (hcounts r), fun h => absurd h (hclaims r)⟩
    simp [hs] at h
  · simp only [hs, if_false]
    exact .refl (hcounts r) (hclaims r)

theorem claimLink_step (candidates : List String) (now : Int) :
    Successors (·.inserted) (OtpStep (ran P fresh n db (.claimLink candidates now)))
      db.portal_otp.rows (claimLink candidates now n db).2.portal_otp.rows := by
  unfold claimLink
  cases hrow : linkRow candidates now db with
  | none =>
    refine Successors.of_sublist (.refl _) fun r _ => .refl (fun h => ?_) fun h => ?_
    · exact nomatch hrow.symm.trans h
    · exact nomatch hrow.symm.trans h
  | some row =>
    refine Successors.of_map (fun _ => rfl) fun r _ => ?_
    by_cases hid : r.id = row.id
    · simp only [hid, if_true]
      exact ⟨rfl, Nat.le_succ _, nofun, fun _ => rfl, fun _ => nofun⟩
    · have hother : ¬ linkRow candidates now db = some r := by
        intro h
        obtain rfl := Option.some.inj (hrow.symm.trans h)
        exact hid rfl
      simp only [hid, if_false]
      exact .refl hother hother

theorem claimCode_step (candidates : List String) (emailLower : String) (now : Int) :
    Successors (·.inserted) (OtpStep (ran P fresh n db (.claimCode candidates emailLower now)))
      db.portal_otp.rows (claimCode candidates emailLower now n db).2.portal_otp.rows := by
  refine Successors.of_map (fun _ => rfl) fun r _ => ?_
  by_cases hg : r.Guessed emailLower now
  · simp only [hg, if_true]
    refine ⟨rfl, Nat.le_succ _, fun _ => hg.2.1, fun _ => rfl, fun h => ?_⟩
    simp [h.2]
  · simp only [hg, if_false]
    exact .refl hg fun h => hg h.1

/-- Every write inserts one code or takes one step of each. -/
theorem otp_step (write : PortalWrite) :
    (∃ row, write = .insertOtp row ∧ (∃ c ∈ db.customers, c.id = row.customer_id) ∧
      (ran P fresh n db write).result = .done ∧ (ran P fresh n db write).after.portal_otp.rows =
        { row with attempt_count := 0, consumed_at := none, inserted := n } ::
          db.portal_otp.rows) ∨
    Successors (·.inserted) (OtpStep (ran P fresh n db write)) db.portal_otp.rows
      (ran P fresh n db write).after.portal_otp.rows := by
  have same : ∀ write, PortalTable.otp.Same db (ran P fresh n db write).after →
      (∀ r, ¬ Counts (ran P fresh n db write) r) → (∀ r, ¬ Claims (ran P fresh n db write) r) →
      Successors (·.inserted) (OtpStep (ran P fresh n db write)) db.portal_otp.rows
        (ran P fresh n db write).after.portal_otp.rows := by
    intro write heq hcounts hclaims
    rw [PortalTable.Same] at heq
    rw [heq]
    exact Successors.of_sublist (.refl _) fun r _ => .refl (hcounts r) (hclaims r)
  cases write with
  | supersedeOtp customer_id now => exact .inr (consumeOtp_step (fun _ => id) fun _ => id)
  | insertOtp row =>
    rcases apply_insertOtp P fresh n db row with h | ⟨hc, t, h, hrows⟩
    · refine .inr (same _ ?_ (fun _ => id) fun _ => id)
      simp only [PortalTable.Same, ran, h]
    · refine .inl ⟨row, rfl, hc, by simp only [ran, h], ?_⟩
      simp only [ran, h]
      exact hrows
  | claimLink candidates now => exact .inr (claimLink_step candidates now)
  | claimCode candidates emailLower now => exact .inr (claimCode_step candidates emailLower now)
  | setPassword c => exact .inr (consumeOtp_step (fun _ => id) fun _ => id)
  | complete c =>
    rcases apply_complete P fresh n db c with h | ⟨landed, db₂, hdone, h⟩
    · refine .inr (same _ ?_ (fun _ => id) fun _ => id)
      simp only [PortalTable.Same, ran, h]
    · right
      obtain ⟨customers, passwords, rfl⟩ := hdone.eq
      simp only [ran, h]
      exact consumeOtp_step (fun _ => id) fun _ => id
  | sweepOtp now =>
    exact .inr (Successors.of_sublist List.filter_sublist fun r _ => .refl id id)
  | _ => exact .inr (same _ (frame _ (by simp [PortalWrite.tables])) (fun _ => id) fun _ => id)

/-- What a claim gives is a row that its write claims. -/
theorem of_claimed {fresh : String} {n : Nat} {db : PortalDb} {write : PortalWrite} {claim : Claim}
    (h : (ran P fresh n db write).result = .claimed (some claim)) :
    ∃ r ∈ db.portal_otp, r.inserted = claim.row ∧ Claims (ran P fresh n db write) r ∧
      r.customer_id = claim.customer_id ∧ claim.redeemed = n := by
  cases write with
  | claimLink candidates now =>
    simp only [ran, PortalWrite.apply, claimLink] at h
    split at h
    · cases h
    · rename_i row hrow
      obtain rfl := Option.some.inj (PortalResult.claimed.inj h)
      exact ⟨row, (Table.find?_some hrow).1, rfl, hrow, rfl, rfl⟩
  | claimCode candidates emailLower now =>
    obtain ⟨row, hrow, rfl⟩ := Option.map_eq_some_iff.mp (PortalResult.claimed.inj h)
    exact ⟨row, (Table.find?_some hrow).1, rfl, (Table.find?_some hrow).2, rfl, rfl⟩
  | mintSession m =>
    rcases apply_mintSession P fresh n db m with hx | hx | ⟨-, t, hx, -⟩ <;>
      simp only [ran, hx] at h <;> cases h
  | insertOtp row =>
    rcases apply_insertOtp P fresh n db row with hx | ⟨-, t, hx, -⟩ <;>
      simp only [ran, hx] at h <;> cases h
  | insertState row =>
    rcases apply_insertState P fresh n db row with hx | ⟨t, hx, -⟩ <;>
      simp only [ran, hx] at h <;> cases h
  | linkIdentity identity sessionId now =>
    rcases apply_linkIdentity P fresh n db identity sessionId now with hx | ⟨id, t, hx, -⟩ <;>
      simp only [ran, hx] at h <;> cases h
  | registerIdentity customerId identity =>
    rcases apply_registerIdentity P fresh n db customerId identity with hx | ⟨cs, is, hx, -⟩ <;>
      simp only [ran, hx] at h <;> cases h
  | insertAction row =>
    rcases apply_insertAction P fresh n db row with hx | ⟨t, hx, -⟩ <;>
      simp only [ran, hx] at h <;> cases h
  | createCustomer email password =>
    rcases apply_createCustomer P fresh n db email password with hx | ⟨cs, ps, hx, -⟩ <;>
      simp only [ran, hx] at h <;> cases h
  | complete c =>
    rcases apply_complete P fresh n db c with hx | ⟨landed, db₂, -, hx⟩ <;>
      simp only [ran, hx] at h <;> cases h
  | customers table =>
    simp only [ran, PortalWrite.apply] at h
    split at h <;> cases h
  | _ => cases h

/-! ## Sessions -/

theorem active_of_revoke {sel : PortalSession → Prop} [DecidablePred sel] {t : Table PortalSession}
    {s : PortalSession} (h : s ∈ revokeSessions sel t) (hs : s.status = .active) :
    s ∈ t ∧ ¬ sel s := by
  obtain ⟨a, ha, rfl⟩ := mem_revokeSessions.mp h
  by_cases hsel : sel a
  · simp [hsel] at hs
  · rw [if_neg hsel]
    exact ⟨ha, hsel⟩

/-- The write mints a session. -/
def Mints (e : PortalEntry) (m : MintSession) : Prop :=
  e.write = .mintSession m ∧ e.result = .returning true

/-- An active session was one before, or the write mints it. -/
theorem session_step {s : PortalSession} (h : s ∈ (ran P fresh n db write).after.portal_sessions)
    (hs : s.status = .active) :
    s ∈ db.portal_sessions ∨ ∃ m, Mints (ran P fresh n db write) m ∧ s = m.row ∧ m.Guard db := by
  have same : PortalTable.sessions ∉ write.tables → s ∈ db.portal_sessions := by
    intro hnot
    have heq : _ = db.portal_sessions := @frame P fresh n db write .sessions hnot
    exact heq ▸ h
  cases write with
  | mintSession m =>
    simp only [ran] at h
    rcases apply_mintSession P fresh n db m with hx | hx | ⟨hguard, t, hx, hrows⟩
    · rw [hx] at h
      exact .inl h
    · rw [hx] at h
      exact .inl h
    · rw [hx, Table.mem_def, hrows] at h
      rcases List.mem_cons.mp h with rfl | h
      · exact .inr ⟨m, ⟨rfl, by simp only [ran, hx]⟩, rfl, hguard⟩
      · exact .inl h
  | complete c =>
    simp only [ran] at h
    rcases apply_complete P fresh n db c with hx | ⟨landed, db₂, hdone, hx⟩
    · rw [hx] at h
      exact .inl h
    · rw [hx] at h
      obtain ⟨customers, passwords, rfl⟩ := hdone.eq
      exact .inl (active_of_revoke h hs).1
  | setPassword c => exact .inl (active_of_revoke h hs).1
  | unlink u => exact .inl (active_of_revoke h hs).1
  | revokeSession sessionId customerId => exact .inl (active_of_revoke h hs).1
  | sweepSessions now => exact .inl (Table.mem_keep.mp h).1
  | _ => exact .inl (same (by simp [PortalWrite.tables]))

/-! ## States of providers -/

/-- The write redeems the state. -/
def TakesState (e : PortalEntry) (r : OauthState) : Prop :=
  match e.write with
  | .claimState stateHash provider browserHash now => r.Selected stateHash provider browserHash now
  | _ => False

instance (e : PortalEntry) : DecidablePred (TakesState e) := fun _ => by
  unfold TakesState
  split
  · infer_instance
  · infer_instance

/-- A state row stays as it is or goes. -/
def StateStep (e : PortalEntry) (r r' : OauthState) : Prop := r' = r ∧ ¬ TakesState e r

/-- Every write inserts one state or takes one step of each. -/
theorem state_step (write : PortalWrite) :
    (∃ row, write = .insertState row ∧ (ran P fresh n db write).after.portal_oauth_states.rows =
      { row with inserted := n } :: db.portal_oauth_states.rows) ∨
    Successors (·.inserted) (StateStep (ran P fresh n db write)) db.portal_oauth_states.rows
      (ran P fresh n db write).after.portal_oauth_states.rows := by
  have same : ∀ write, PortalTable.states.Same db (ran P fresh n db write).after →
      (∀ r, ¬ TakesState (ran P fresh n db write) r) →
      Successors (·.inserted) (StateStep (ran P fresh n db write)) db.portal_oauth_states.rows
        (ran P fresh n db write).after.portal_oauth_states.rows := by
    intro write heq htakes
    rw [PortalTable.Same] at heq
    rw [heq]
    exact Successors.of_sublist (.refl _) fun r _ => ⟨rfl, htakes r⟩
  cases write with
  | insertState row =>
    rcases apply_insertState P fresh n db row with h | ⟨t, h, hrows⟩
    · refine .inr (same _ ?_ fun _ => id)
      simp only [PortalTable.Same, ran, h]
    · refine .inl ⟨row, rfl, ?_⟩
      simp only [ran, h]
      exact hrows
  | claimState stateHash provider browserHash now =>
    refine .inr (Successors.of_sublist List.filter_sublist fun r hr => ⟨rfl, ?_⟩)
    exact (Table.mem_keep.mp hr).2
  | sweepStates now =>
    exact .inr (Successors.of_sublist List.filter_sublist fun r _ => ⟨rfl, id⟩)
  | sweepSessions now =>
    exact .inr (Successors.of_sublist List.filter_sublist fun r _ => ⟨rfl, id⟩)
  | _ => exact .inr (same _ (frame _ (by simp [PortalWrite.tables])) fun _ => id)

/-! ## Actions of emailed links -/

/-- The write redeems the action. -/
def TakesAction (e : PortalEntry) (a : PasswordAction) : Prop :=
  match e.write with
  | .complete c => e.result ≠ .aborted ∧ c.Takes a
  | _ => False

instance (e : PortalEntry) : DecidablePred (TakesAction e) := fun _ => by
  unfold TakesAction
  split
  · infer_instance
  · infer_instance

theorem TakesAction.open {e : PortalEntry} {a : PasswordAction} (h : TakesAction e a) :
    a.consumed_at = none := by
  unfold TakesAction at h
  split at h
  · exact h.2.2.1
  · exact absurd h id

/-- What a write makes of an action. -/
structure ActionStep (fresh : String) (e : PortalEntry) (a a' : PasswordAction) : Prop where
  same : a'.toAction = a.toAction ∧ a'.token_hash = a.token_hash
  claim : a'.claim = a.claim ∨ a'.claim = some fresh
  consumed : a'.consumed_at = none → a.consumed_at = none
  takes : TakesAction e a → a'.consumed_at ≠ none

theorem consumeActions_step {e : PortalEntry} {consumed : PasswordAction → Option Int}
    {t : Table PasswordAction}
    (h : ∀ a, consumed a = none → a.consumed_at = none ∧ ¬ TakesAction e a) :
    Successors (·.inserted) (ActionStep fresh e) t.rows
      (updateActions consumed (·.claim) t).rows :=
  Successors.of_map (fun _ => rfl) fun a _ =>
    ⟨⟨rfl, rfl⟩, .inl rfl, fun hn => (h a hn).1, fun ht hn => (h a hn).2 ht⟩

/-- Every write inserts one action or takes one step of each. -/
theorem action_step (write : PortalWrite) :
    (∃ row, write = .insertAction row ∧
      (ran P fresh n db write).result = .done ∧
      (ran P fresh n db write).after.portal_password_actions.rows =
        { row with consumed_at := none, claim := none, inserted := n } ::
          db.portal_password_actions.rows) ∨
    Successors (·.inserted) (ActionStep fresh (ran P fresh n db write)) db.portal_password_actions.rows
      (ran P fresh n db write).after.portal_password_actions.rows := by
  have same : ∀ write, PortalTable.actions.Same db (ran P fresh n db write).after →
      (∀ a, ¬ TakesAction (ran P fresh n db write) a) →
      Successors (·.inserted) (ActionStep fresh (ran P fresh n db write)) db.portal_password_actions.rows
        (ran P fresh n db write).after.portal_password_actions.rows := by
    intro write heq htakes
    rw [PortalTable.Same] at heq
    rw [heq]
    exact Successors.of_sublist (.refl _) fun a _ =>
      ⟨⟨rfl, rfl⟩, .inl rfl, id, fun h => absurd h (htakes a)⟩
  cases write with
  | insertAction row =>
    rcases apply_insertAction P fresh n db row with h | ⟨t, h, hrows⟩
    · refine .inr (same _ ?_ fun _ => id)
      simp only [PortalTable.Same, ran, h]
    · refine .inl ⟨row, rfl, by simp only [ran, h], ?_⟩
      simp only [ran, h]
      exact hrows
  | complete c =>
    rcases apply_complete P fresh n db c with h | ⟨landed, db₂, hdone, h⟩
    · refine .inr (same _ ?_ fun a ht => ht.1 (by simp only [ran, h]))
      simp only [PortalTable.Same, ran, h]
    · right
      obtain ⟨customers, passwords, rfl⟩ := hdone.eq
      simp only [ran, h]
      -- The batch takes the action, and its last statement can consume others.
      simp only [passwordInvalidations, Completion.take, updateActions, Table.modify, List.map_map]
      refine Successors.of_map (fun _ => rfl) fun a _ => ?_
      by_cases ht : c.Takes a
      · refine ⟨⟨rfl, rfl⟩, .inr (if_pos ht), fun _ => ht.2.1, fun _ => ?_⟩
        simp [ht]
      · refine ⟨⟨rfl, rfl⟩, .inl (if_neg ht), fun hn => ?_, fun h' => absurd h'.2 ht⟩
        simp only [Function.comp_apply, if_neg ht] at hn
        split at hn
        · cases hn
        · exact hn
  | setPassword c =>
    refine .inr (consumeActions_step fun a hn => ⟨?_, id⟩)
    split at hn
    · cases hn
    · exact hn
  | sweepActions now =>
    exact .inr (Successors.of_sublist List.filter_sublist fun a _ =>
      ⟨⟨rfl, rfl⟩, .inl rfl, id, False.elim⟩)
  | dropAction tokenHash =>
    exact .inr (Successors.of_sublist List.filter_sublist fun a _ =>
      ⟨⟨rfl, rfl⟩, .inl rfl, id, False.elim⟩)
  | _ => exact .inr (same _ (frame _ (by simp [PortalWrite.tables])) fun _ => id)

/-! ## Customers -/

/-- Only a change of the customers themselves can take a contact address. -/
theorem emails_step (write : PortalWrite) (h : ∀ table, write ≠ .customers table) :
    KeepsEmails db.customers (ran P fresh n db write).after.customers := by
  have refl : KeepsEmails db.customers db.customers := keepsEmails_of_subset fun _ hc => hc
  have same : PortalTable.customers ∉ write.tables →
      KeepsEmails db.customers (ran P fresh n db write).after.customers := by
    intro hnot
    have heq : _ = db.customers := @frame P fresh n db write .customers hnot
    rw [heq]
    exact refl
  cases write with
  | registerIdentity customerId identity =>
    simp only [ran]
    rcases apply_registerIdentity P fresh n db customerId identity with hx | ⟨cs, is, hx, hc, -⟩
    · rw [hx]
      exact refl
    · rw [hx]
      exact keepsEmails_of_subset hc
  | createCustomer email password =>
    simp only [ran]
    rcases apply_createCustomer P fresh n db email password with hx | ⟨cs, ps, hx, hc, -⟩
    · rw [hx]
      exact refl
    · rw [hx]
      exact keepsEmails_of_subset hc
  | complete c =>
    simp only [ran]
    rcases apply_complete P fresh n db c with hx | ⟨landed, db₂, hdone, hx⟩
    · rw [hx]
      exact refl
    · rw [hx]
      exact hdone.customers
  | customers table => exact absurd rfl (h table)
  | _ => exact same (by simp [PortalWrite.tables])

/-- No write removes a customer. -/
theorem customers_step (write : PortalWrite) :
    Keeps db.customers (ran P fresh n db write).after.customers := by
  by_cases h : ∃ table, write = .customers table
  · obtain ⟨table, rfl⟩ := h
    simp only [ran, PortalWrite.apply]
    split
    · assumption
    · exact .refl _
  · exact (emails_step write fun table heq => h ⟨table, heq⟩).keeps

/-! ## Identities -/

/-- Only a disconnect takes an identity. -/
theorem identities_step (write : PortalWrite) (h : ∀ u, write ≠ .unlink u) :
    ∀ r ∈ db.portal_identities, r ∈ (ran P fresh n db write).after.portal_identities := by
  have same : PortalTable.identities ∉ write.tables →
      ∀ r ∈ db.portal_identities, r ∈ (ran P fresh n db write).after.portal_identities := by
    intro hnot
    have heq : _ = db.portal_identities := @frame P fresh n db write .identities hnot
    rw [heq]
    exact fun _ hr => hr
  cases write with
  | linkIdentity identity sessionId now =>
    simp only [ran]
    rcases apply_linkIdentity P fresh n db identity sessionId now with hx | ⟨id, t, hx, hkeep⟩
    · rw [hx]
      exact fun _ hr => hr
    · rw [hx]
      exact hkeep
  | registerIdentity customerId identity =>
    simp only [ran]
    rcases apply_registerIdentity P fresh n db customerId identity with hx | ⟨cs, is, hx, -, hkeep⟩
    · rw [hx]
      exact fun _ hr => hr
    · rw [hx]
      exact hkeep
  | unlink u => exact absurd rfl (h u)
  | _ => exact same (by simp [PortalWrite.tables])

/-! ## Passwords -/

/-- The write can set the password of this customer. -/
def PortalWrite.Owner (fresh customerId : String) : PortalWrite → Prop
  | setPassword c => customerId = c.customer_id
  | complete c => customerId = c.action.customer_id
  | createCustomer .. => customerId = newCustomerId fresh
  | _ => False

/-- Every write leaves the passwords as they are or gives one customer a new hash. -/
theorem passwords_step (write : PortalWrite) :
    (ran P fresh n db write).after.portal_passwords = db.portal_passwords ∨
    ∃ customerId password, write.Owner fresh customerId ∧
      SetsHash customerId (hashPassword P fresh password) db.portal_passwords
        (ran P fresh n db write).after.portal_passwords := by
  cases write with
  | createCustomer email password =>
    simp only [ran]
    rcases apply_createCustomer P fresh n db email password with hx | ⟨cs, ps, hx, -, hsets⟩
    · rw [hx]
      exact .inl rfl
    · rw [hx]
      exact .inr ⟨_, password, rfl, hsets⟩
  | complete c =>
    simp only [ran]
    rcases apply_complete P fresh n db c with hx | ⟨landed, db₂, hdone, hx⟩
    · rw [hx]
      exact .inl rfl
    · rw [hx]
      exact .inr ⟨_, c.password, rfl, hdone.passwords⟩
  | setPassword c => exact .inr ⟨_, c.password, rfl, write_setsHash c _ db⟩
  | _ =>
    left
    exact @frame P fresh n db _ .passwords (by simp [PortalWrite.tables])

/-- The write gives the customer another password. -/
def WritesPassword (customerId : String) (e : PortalEntry) : Prop :=
  e.after.passwordOf customerId ≠ none ∧
    e.after.passwordOf customerId ≠ e.before.passwordOf customerId

/-- A password that is written is a hash with the salt of its write. -/
theorem of_writesPassword {customerId : String}
    (h : WritesPassword customerId (ran P fresh n db write)) : write.Owner fresh customerId ∧
      ∃ password, (ran P fresh n db write).after.HasHash customerId
        (hashPassword P fresh password) := by
  rcases @passwords_step P fresh n db write with
    heq | ⟨c, pw, howner, hsets⟩
  · exact absurd (by unfold PortalDb.passwordOf; rw [heq]; rfl) h.2
  · obtain ⟨rfl, hhash⟩ := hsets.written h.1 h.2
    exact ⟨howner, pw, hhash⟩

/-- The invalidations of a batch whose hash is there. -/
structure Killed (customerId : String) (db : PortalDb) : Prop where
  sessions : ∀ s ∈ db.portal_sessions, s.customer_id = customerId → s.status = .revoked
  codes : ∀ r ∈ db.portal_otp, r.customer_id = customerId → r.consumed_at ≠ none

theorem killed_of_invalidations {customerId hash : String} {now : Int} {email : Option String}
    (h : (passwordInvalidations customerId hash now email db).HasHash customerId hash) :
    Killed customerId (passwordInvalidations customerId hash now email db) := by
  have hhash : db.HasHash customerId hash := h
  refine ⟨fun s hs hc => ?_, fun r hr hc => ?_⟩
  · obtain ⟨a, -, rfl⟩ := mem_revokeSessions.mp hs
    exact if_pos ⟨hc, hhash⟩
  · obtain ⟨a, -, rfl⟩ := mem_consumeOtp.mp hr
    by_cases hn : a.consumed_at = none
    · simp only [if_pos (show a.customer_id = customerId ∧ a.consumed_at = none ∧
        db.HasHash customerId hash from ⟨hc, hn, hhash⟩)]
      exact nofun
    · simp only [if_neg (show ¬ (a.customer_id = customerId ∧ a.consumed_at = none ∧
        db.HasHash customerId hash) from fun h => hn h.2.1)]
      exact hn

end Licensecc.Portal
