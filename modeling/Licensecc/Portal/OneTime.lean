-- The laws of one-time proofs. Whatever overlaps, a code signs in once and is compared
-- with five codes, the state of a provider and an emailed link are redeemed once, and a
-- reset writes over the password that its link was emailed for.
import Licensecc.Conc.Credit
import Licensecc.Portal.Promises

open Licensecc.Sql Licensecc.Conc

namespace Licensecc.Portal

variable {P : Platform} {w : PortalWorld}

/-! ## Uses -/

/-- How many writes of the log use the row with this number. -/
def uses {ρ : Type} (rows : PortalDb → List ρ) (num : ρ → Nat) (sel : PortalEntry → ρ → Prop)
    [∀ e, DecidablePred (sel e)] (log : List PortalEntry) (row : Nat) : Nat :=
  log.countP fun e : PortalEntry => decide (∃ r ∈ rows e.before, num r = row ∧ sel e r)

section
variable {ρ : Type} {rows : PortalDb → List ρ} {num left : ρ → Nat}
  {sel : PortalEntry → ρ → Prop} [∀ e, DecidablePred (sel e)] {k n : Nat}
  {log : List PortalEntry} {e : PortalEntry}

theorem uses_append (row : Nat) : uses rows num sel (log ++ [e]) row =
    uses rows num sel log row + if ∃ r ∈ rows e.before, num r = row ∧ sel e r then 1 else 0 := by
  simp [uses, List.countP_append, List.countP_cons]

/-- A write that inserts a row with the next number or takes one step of each row keeps the
budget of the rows. -/
theorem budget_step (h : Budget num left k log.length (uses rows num sel log) (rows e.before))
    (hsel : ∀ r, sel e r → 1 ≤ left r)
    (hstep : (∃ row, rows e.after = row :: rows e.before ∧ num row = log.length ∧ left row ≤ k ∧
        ∀ r, ¬ sel e r) ∨
      Successors num (fun r r' => (sel e r → left r' + 1 ≤ left r) ∧ left r' ≤ left r)
        (rows e.before) (rows e.after)) :
    Budget num left k (log ++ [e]).length (uses rows num sel (log ++ [e])) (rows e.after) := by
  rw [List.length_append, List.length_singleton]
  rcases hstep with ⟨row, heq, hnum, hleft, hnone⟩ | hsucc
  · have huses : uses rows num sel (log ++ [e]) = uses rows num sel log := by
      funext b
      rw [uses_append, if_neg fun ⟨r, _, _, hr⟩ => hnone r hr, Nat.add_zero]
    rw [heq, huses]
    exact h.insert hnum hleft
  · refine h.spend (fun b => ?_) (fun r _ => hsel r) hsucc
    rw [uses_append]
    split
    · exact .inr ⟨rfl, ‹_›⟩
    · exact .inl rfl

variable (left) in
/-- In every run no row is used more often than it allows. -/
theorem reach_budget {c : Config PortalWorld PortalWrite PortalResult PortalCode}
    (h0 : w.log = []) (hrows : rows w.db = []) (h : (portalSystem P).Reach ⟨w, []⟩ c)
    (hsel : ∀ e r, sel e r → 1 ≤ left r)
    (hstep : ∀ fresh n db write, (∃ row,
        rows (ran P fresh n db write).after = row :: rows db ∧ num row = n ∧ left row ≤ k ∧
          ∀ r, ¬ sel (ran P fresh n db write) r) ∨
      Successors num (fun r r' => (sel (ran P fresh n db write) r → left r' + 1 ≤ left r) ∧
        left r' ≤ left r) (rows db) (rows (ran P fresh n db write).after)) (row : Nat) :
    uses rows num sel c.state.log row ≤ k := by
  have hbudget := System.reach_state (S := portalSystem P)
    (I := fun w => Budget num left k w.log.length (uses rows num sel w.log) (rows w.db))
    (fun fresh write w _ ih => budget_step (e := ran P fresh w.log.length w.db write) ih
      (hsel _) (hstep fresh w.log.length w.db write)) h
    (by
      simp only [h0, hrows, List.length_nil]
      exact .empty num left k)
  exact hbudget.bound row

end

/-- The codes that were compared with a row, and the link that signed in with it. -/
def comparisons (log : List PortalEntry) (row : Nat) : Nat :=
  uses (·.portal_otp.rows) (·.inserted) Counts log row

def claims (log : List PortalEntry) (row : Nat) : Nat :=
  uses (·.portal_otp.rows) (·.inserted) Claims log row

def stateRedemptions (log : List PortalEntry) (row : Nat) : Nat :=
  uses (·.portal_oauth_states.rows) (·.inserted) TakesState log row

def actionRedemptions (log : List PortalEntry) (row : Nat) : Nat :=
  uses (·.portal_password_actions.rows) (·.inserted) TakesAction log row

section
variable {c : Config PortalWorld PortalWrite PortalResult PortalCode}

theorem comparisons_le (h0 : Opened w) (h : (portalSystem P).Reach ⟨w, []⟩ c) (row : Nat) :
    comparisons c.state.log row ≤ MAX_ATTEMPTS := by
  refine reach_budget (fun r => MAX_ATTEMPTS - r.attempt_count) h0.log h0.otp h
    (fun e r hc => ?_) (fun fresh n db write => ?_) row
  · have := hc.live.2
    omega
  · rcases @otp_step P fresh n db write with
      ⟨row, rfl, -, -, hrows⟩ | hsucc
    · exact .inl ⟨_, hrows, rfl, Nat.sub_le .., fun _ => id⟩
    · refine .inr ⟨hsucc.numbers, fun r' hr' => ?_⟩
      obtain ⟨r, hr, hnum, hs⟩ := hsucc.row r' hr'
      refine ⟨r, hr, hnum, fun hc => ?_, ?_⟩
      · have h1 := hs.counts hc
        have h2 := hc.live.2
        omega
      · have := hs.attempts
        omega

theorem claims_le (h0 : Opened w) (h : (portalSystem P).Reach ⟨w, []⟩ c) (row : Nat) :
    claims c.state.log row ≤ 1 := by
  refine reach_budget (fun r => if r.consumed_at = none then 1 else 0) h0.log h0.otp h
    (fun e r hc => ?_) (fun fresh n db write => ?_) row
  · rw [if_pos hc.counts.live.1]
  · rcases @otp_step P fresh n db write with
      ⟨row, rfl, -, -, hrows⟩ | hsucc
    · exact .inl ⟨_, hrows, rfl, le_rfl, fun _ => id⟩
    · refine .inr ⟨hsucc.numbers, fun r' hr' => ?_⟩
      obtain ⟨r, hr, hnum, hs⟩ := hsucc.row r' hr'
      refine ⟨r, hr, hnum, fun hc => ?_, ?_⟩
      · rw [if_neg (hs.claims hc), if_pos hc.counts.live.1]
      · by_cases hn : r'.consumed_at = none
        · rw [if_pos hn, if_pos (hs.consumed hn)]
        · rw [if_neg hn]
          exact Nat.zero_le _

theorem stateRedemptions_le (h0 : Opened w) (h : (portalSystem P).Reach ⟨w, []⟩ c) (row : Nat) :
    stateRedemptions c.state.log row ≤ 1 := by
  refine reach_budget (fun _ => 1) h0.log h0.states h (fun _ _ _ => le_rfl)
    (fun fresh n db write => ?_) row
  rcases @state_step P fresh n db write with ⟨row, rfl, hrows⟩ | hsucc
  · exact .inl ⟨_, hrows, rfl, le_rfl, fun _ => id⟩
  · refine .inr ⟨hsucc.numbers, fun r' hr' => ?_⟩
    obtain ⟨r, hr, hnum, -, hnot⟩ := hsucc.row r' hr'
    exact ⟨r, hr, hnum, fun ht => absurd ht hnot, le_rfl⟩

theorem actionRedemptions_le (h0 : Opened w) (h : (portalSystem P).Reach ⟨w, []⟩ c) (row : Nat) :
    actionRedemptions c.state.log row ≤ 1 := by
  refine reach_budget (fun a => if a.consumed_at = none then 1 else 0) h0.log h0.actions h
    (fun e a ht => ?_) (fun fresh n db write => ?_) row
  · rw [if_pos (TakesAction.open ht)]
  · rcases @action_step P fresh n db write with
      ⟨row, rfl, -, hrows⟩ | hsucc
    · exact .inl ⟨_, hrows, rfl, le_rfl, fun _ => id⟩
    · refine .inr ⟨hsucc.numbers, fun a' ha' => ?_⟩
      obtain ⟨a, ha, hnum, hs⟩ := hsucc.row a' ha'
      refine ⟨a, ha, hnum, fun ht => ?_, ?_⟩
      · rw [if_neg (hs.takes ht), if_pos (TakesAction.open ht)]
      · by_cases hn : a'.consumed_at = none
        · rw [if_pos hn, if_pos (hs.consumed hn)]
        · rw [if_neg hn]
          exact Nat.zero_le _

end

/-! ## Sign-ins -/

/-- The sessions that were minted from a code. -/
def signIns (log : List PortalEntry) (row : Nat) : Nat := log.countP fun e => SignsIn row e

/-- A mint from a code costs a claim of it. -/
def mintCost (row : Nat) : PortalWrite → Nat
  | .mintSession m => if m.proof.code = some row then 1 else 0
  | _ => 0

/-- An answer that claims a code pays for one. -/
def claimGain (row : Nat) : PortalResult → Nat
  | .claimed (some claim) => if claim.row = row then 1 else 0
  | _ => 0

theorem plain_cost {row : Nat} (write : PortalWrite) (h : write.Plain) : mintCost row write = 0 := by
  cases write <;> first | rfl | exact absurd h id

theorem outside_cost {row : Nat} (write : PortalWrite) (h : write.Outside) :
    mintCost row write = 0 := by
  cases write <;> first | rfl | exact absurd h id

section
variable {row : Nat} {α : Type}

theorem solvent_of_plain {p : PortalProg α} (h : p.Always PortalWrite.Plain) (n : Nat) :
    p.Solvent (mintCost row) (claimGain row) (fun _ => 0) n :=
  .of_always (h.mono plain_cost)

/-- The credits that a claim leaves. -/
def claimCredits (row : Nat) : Except PortalCode Claim → Nat
  | .ok claim => if claim.row = row then 1 else 0
  | .error _ => 0

theorem claimWrite_solvent {write : PortalWrite} (h : write.Plain) (n : Nat) :
    (Prog.request write >>= claimedOr).Solvent (mintCost row) (claimGain row)
      (claimCredits row) n := by
  have hcost : mintCost row write = 0 := plain_cost write h
  refine .bind (Q := fun r => r.elim 0 (claimGain row))
    (.request (by omega) (Nat.zero_le _) fun r => Nat.le_add_left ..) fun r => ?_
  unfold claimedOr
  split
  · exact le_rfl
  · exact Nat.zero_le _
  · exact Nat.zero_le _

theorem redeemOtp_solvent (peppers : Option Peppers) (input : OtpInput) (clientIp : String)
    (now : Int) : (redeemOtp P peppers input clientIp now).Solvent (mintCost row) (claimGain row)
      (claimCredits row) 0 := by
  unfold redeemOtp
  split
  · exact Nat.zero_le _
  · split
    · split
      · exact Nat.zero_le _
      · refine .bind (solvent_of_plain (portalRateLimit_plain ..) 0) fun limited => ?_
        split
        · exact Nat.zero_le _
        · exact @claimWrite_solvent _ (.claimLink _ now) trivial 0
    · dsimp only
      split
      · exact Nat.zero_le _
      · refine .bind (solvent_of_plain (limits_plain ..) 0) fun limited => ?_
        split
        · exact Nat.zero_le _
        · exact @claimWrite_solvent _ (.claimCode _ _ now) trivial 0

theorem mintSession_solvent (peppers : Peppers) (draw : SessionDraw) (customerId : String)
    (authMethod : AuthMethod) (passwordHash : Option String) (now : Int) (proof : Proof) :
    (mintSession P peppers draw customerId authMethod passwordHash now proof).Solvent
      (mintCost row) (claimGain row) (fun _ => 0) (if proof.code = some row then 1 else 0) := by
  refine .bind (Q := fun _ => 0) (.request le_rfl (Nat.zero_le _) fun _ => Nat.zero_le _) fun r => ?_
  split <;> exact Nat.zero_le _

theorem redeemOtpSession_solvent (otpPeppers sessionPeppers : Option Peppers) (input : OtpInput)
    (clientIp : String) (draw : SessionDraw) (now : Int) :
    (redeemOtpSession P otpPeppers sessionPeppers input clientIp draw now).Solvent (mintCost row)
      (claimGain row) (fun _ => 0) 0 := by
  unfold redeemOtpSession
  split
  · exact Nat.zero_le _
  · refine .bind (redeemOtp_solvent ..) fun r => ?_
    split
    · exact Nat.zero_le _
    · rename_i claim
      refine .bind (Q := fun _ => 0) ?_ fun r => ?_
      · exact (mintSession_solvent ..).mono (by simp [Proof.code, claimCredits])
      · split <;> exact Nat.zero_le _

/-- A mint from something else than a code is free. -/
theorem freeMint_solvent (peppers : Peppers) (draw : SessionDraw) (customerId : String)
    (authMethod : AuthMethod) (passwordHash : Option String) (now : Int) {proof : Proof}
    (h : proof.code = none) :
    (mintSession P peppers draw customerId authMethod passwordHash now proof).Solvent
      (mintCost row) (claimGain row) (fun _ => 0) 0 :=
  (mintSession_solvent ..).mono (by simp [h])

theorem finishCallback_solvent (peppers : Peppers) (c : OauthCallback) (flow : Flow) :
    (finishCallback P peppers c flow).Solvent (mintCost row) (claimGain row) (fun _ => 0) 0 := by
  unfold finishCallback
  split
  · exact Nat.zero_le _
  · rename_i identity _
    have hplain := identityCustomer_plain identity flow.link_session_id c.newCustomerId c.now
    refine .bind (solvent_of_plain hplain 0) fun r => ?_
    split
    · exact Nat.zero_le _
    · refine .bind (freeMint_solvent _ _ _ _ _ _ rfl) fun r => ?_
      split <;> exact Nat.zero_le _

theorem callback_solvent (peppers : Option Peppers) (c : OauthCallback) :
    (callback P peppers c).Solvent (mintCost row) (claimGain row) (fun _ => 0) 0 := by
  cases peppers with
  | none => exact Nat.zero_le _
  | some peppers =>
    unfold callback
    dsimp only
    split
    · exact Nat.zero_le _
    · refine .bind (solvent_of_plain (portalRateLimit_plain ..) 0) fun limited => ?_
      split
      · exact Nat.zero_le _
      · refine .bind (Q := fun _ => 0)
          (.request (Nat.zero_le _) (Nat.zero_le _) fun _ => Nat.zero_le _) fun r => ?_
        split
        · split
          · exact Nat.zero_le _
          · split
            · exact Nat.zero_le _
            · split
              · exact finishCallback_solvent ..
              · rename_i sessionId _
                have hplain := checkLink_plain (P := P) peppers c sessionId
                refine .bind (solvent_of_plain hplain 0) fun r => ?_
                split
                · exact Nat.zero_le _
                · exact finishCallback_solvent ..
        · exact Nat.zero_le _

theorem signedIn_solvent (peppers : Peppers) (draw : SessionDraw)
    (customerId passwordHash : String) (seen : Nat) (now : Int) :
    (signedIn P peppers draw customerId passwordHash seen now).Solvent (mintCost row)
      (claimGain row) (fun _ => 0) 0 := by
  refine .bind (freeMint_solvent _ _ _ _ _ _ rfl) fun r => ?_
  split <;> exact Nat.zero_le _

theorem login_solvent (peppers : Peppers) (r : Login) :
    (login P peppers r).Solvent (mintCost row) (claimGain row) (fun _ => 0) 0 := by
  unfold login
  split
  · exact Nat.zero_le _
  · split
    · exact Nat.zero_le _
    · refine .bind (solvent_of_plain (throttle_plain ..) 0) fun limited => ?_
      split
      · exact Nat.zero_le _
      · refine .bind (solvent_of_plain .query 0) fun r => ?_
        split
        · exact Nat.zero_le _
        · split
          · exact Nat.zero_le _
          · split
            · exact Nat.zero_le _
            · exact signedIn_solvent ..

theorem changePassword_solvent (peppers : Peppers) (r : Settings) (session : PortalSession)
    (email : String) (credential : Option PortalPassword) :
    (changePassword P peppers r session email credential).Solvent (mintCost row) (claimGain row)
      (fun _ => 0) 0 := by
  refine .bind (Q := fun _ => 0)
    (.request (Nat.zero_le _) (Nat.zero_le _) fun _ => Nat.zero_le _) fun r => ?_
  split
  · split
    · exact signedIn_solvent ..
    · exact Nat.zero_le _
  · exact Nat.zero_le _

theorem settings_solvent (peppers : Peppers) (r : Settings) :
    (settings P peppers r).Solvent (mintCost row) (claimGain row) (fun _ => 0) 0 := by
  refine .bind (solvent_of_plain .query 0) fun session => ?_
  split
  · exact Nat.zero_le _
  · refine .bind (solvent_of_plain .query 0) fun found => ?_
    split
    · exact Nat.zero_le _
    · refine .bind (solvent_of_plain .query 0) fun credential => ?_
      split
      · exact Nat.zero_le _
      · split
        · exact Nat.zero_le _
        · refine .bind (solvent_of_plain (throttle_plain ..) 0) fun limited => ?_
          split
          · exact Nat.zero_le _
          · split
            · exact changePassword_solvent ..
            · split
              · exact Nat.zero_le _
              · exact changePassword_solvent ..

theorem completeAction_solvent (peppers : Peppers) (r : CompleteRequest) :
    (completeAction P peppers r).Solvent (mintCost row) (claimGain row) (fun _ => 0) 0 := by
  unfold completeAction
  split
  · exact Nat.zero_le _
  · split
    · exact Nat.zero_le _
    · refine .bind (solvent_of_plain (limits_plain ..) 0) fun limited => ?_
      split
      · exact Nat.zero_le _
      · refine .bind (solvent_of_plain .query 0) fun action => ?_
        split
        · exact Nat.zero_le _
        · refine .bind (Q := fun _ => 0)
            (.request (Nat.zero_le _) (Nat.zero_le _) fun _ => Nat.zero_le _) fun r => ?_
          split
          · split
            · exact .bind (signedIn_solvent ..) fun _ => Nat.zero_le _
            · exact Nat.zero_le _
          · exact Nat.zero_le _

/-- Every request pays for the sessions that it mints from codes. -/
theorem run_solvent {p : PortalProg PortalCode} (h : PortalRun P p) :
    p.Solvent (mintCost row) (claimGain row) (fun _ => 0) 0 := by
  cases h with
  | requestOtp peppers r => exact solvent_of_plain (requestOtp_plain ..) 0
  | redeemOtpSession => exact redeemOtpSession_solvent ..
  | start peppers s => exact solvent_of_plain (start_plain ..) 0
  | callback peppers c => exact callback_solvent ..
  | login peppers r => exact login_solvent ..
  | settings peppers r => exact settings_solvent peppers r
  | requestLink r => exact solvent_of_plain (requestLink_plain r) 0
  | complete peppers r => exact completeAction_solvent ..
  | createCustomer email password =>
    exact solvent_of_plain (createCustomerRequest_plain email password) 0
  | outside write hw => exact .of_always ((outside_always hw).mono outside_cost)

theorem signIns_le_claims {c : Config PortalWorld PortalWrite PortalResult PortalCode}
    (h0 : Opened w) (h : (portalSystem P).Reach ⟨w, []⟩ c) :
    signIns c.state.log row ≤ claims c.state.log row := by
  refine System.reach_covered (S := portalSystem P) (mintCost row) (claimGain row)
    (fun w => signIns w.log row) (fun w => claims w.log row)
    (fun p hp => run_solvent hp)
    (fun fresh write s _ => ?_) (by simp [h0.log, signIns]) h
  constructor
  · -- A mint is one session, and it costs its credit.
    simp only [portalSystem, execPortal, signIns, List.countP_append, List.countP_singleton,
      decide_eq_true_eq]
    refine Nat.add_le_add_left ?_ _
    cases write with
    | mintSession m =>
      by_cases hm : m.proof.code = some row
      · simp only [mintCost, hm, if_true]
        split <;> omega
      · simp [SignsIn, mintCost, hm]
    | _ => simp [SignsIn]
  · change _ ≤ claims (s.log ++ [ran P fresh s.log.length s.db write]) row
    unfold claims
    rw [uses_append]
    refine Nat.add_le_add_left ?_ _
    unfold claimGain
    split
    · rename_i claim hclaim
      obtain ⟨r, hr, hrow, hclaims, -, -⟩ := @of_claimed P fresh s.log.length s.db
        write claim hclaim
      by_cases hc : claim.row = row
      · rw [if_pos hc, if_pos ⟨r, hr, hrow.trans hc, hclaims⟩]
      · rw [if_neg hc]
        exact Nat.zero_le _
    · exact Nat.zero_le _

end

/-! ## Every run -/

/-- What one-time proofs can do in a run. -/
structure OneTime (log : List PortalEntry) : Prop where
  signIns : ∀ row, signIns log row ≤ 1
  comparisons : ∀ row, comparisons log row ≤ 5
  states : ∀ row, stateRedemptions log row ≤ 1
  actions : ∀ row, actionRedemptions log row ≤ 1
  /-- A batch of an emailed link that writes a password redeems the link, and a reset
  writes over the hash that the link was emailed for. -/
  links : ∀ place e c customerId, log[place]? = some e → e.write = .complete c →
    WritesPassword customerId e →
      (∃ a ∈ e.before.portal_password_actions, a.token_hash = c.tokenHash ∧ TakesAction e a) ∧
      ∃ action, Issued (log.take place) c.tokenHash action ∧ action.customer_id = customerId ∧
        (action.purpose = .reset → e.before.passwordOf customerId = action.credential_hash)

/-- Whatever requests overlap, each code signs in at most once and is compared with at most
five codes, each state and each emailed link is redeemed at most once, and a reset writes
a password only over the hash that its link was emailed for. -/
theorem proofs_are_used_once (P : Platform) (w : PortalWorld)
    (c : Config PortalWorld PortalWrite PortalResult PortalCode) (h0 : Opened w)
    (h : (portalSystem P).Reach ⟨w, []⟩ c) : OneTime c.state.log where
  signIns row := (signIns_le_claims h0 h).trans (claims_le h0 h row)
  comparisons row := comparisons_le h0 h row
  states row := stateRedemptions_le h0 h row
  actions row := actionRedemptions_le h0 h row
  links place e c customerId he hc hw := by
    obtain ⟨hissued, htaken, howner, hcredential⟩ := (reach_portalInv h0 h).links place e c he hc
    exact ⟨htaken customerId hw, c.action, hissued, (howner customerId hw).symm,
      fun hpurpose => hcredential hpurpose customerId hw⟩

/-! ## Links that match no code -/

def submissions (log : List PortalEntry) (row : Nat) : Nat :=
  uses (·.portal_otp.rows) (·.inserted) Submits log row

/-- Its digests keep the message. -/
def plainPlatform : Platform where
  hmac pepper message := pepper ++ message
  sha256Hex := id
  sha256Url := id
  scrypt _ _ := "0123456789abcdef0123456789abcdef0123456789abcdef0123456789abcdef"
  toLowerCase := id

def firstSalt : String := "00000000000000000000000000000000"

/-- One customer with a password. -/
def openedWorld : PortalWorld where
  db := {
    customers := ⟨[⟨"cust-1", "a@b.c", .active⟩], by simp [Schema.check], by simp⟩
    portal_passwords := ⟨[⟨"cust-1", "a@b.c", hashPassword plainPlatform firstSalt "old"⟩],
      by simp [Schema.check], by simp⟩ }
  minted := [firstSalt]
  log := []

theorem openedWorld_opened : Opened openedWorld where
  log := rfl
  sessions := rfl
  otp := rfl
  states := rfl
  actions := rfl
  salts p hp := by
    obtain rfl := List.mem_singleton.mp hp
    exact ⟨firstSalt, List.mem_singleton_self _, by decide, _, rfl⟩

/-- The text that a write draws. -/
def drawn (n : Nat) : String :=
  String.ofList (List.replicate 30 'f' ++ [Char.ofNat (48 + n / 10), Char.ofNat (48 + n % 10)])

instance (fresh : String) (w : PortalWorld) :
    Decidable ((portalSystem plainPlatform).admits fresh w) :=
  inferInstanceAs (Decidable (Fresh _ _))

abbrev PortalChoice := System.Choice PortalWorld PortalWrite PortalResult String PortalCode

def onePepper : Peppers := ⟨"p", []⟩

/-- A request for a code, up to its last two writes. -/
def asksForCode (id : String) (secretBytes : Codec.Bytes) : PortalProg PortalCode :=
  requestOtp plainPlatform (some onePepper) ⟨"a@b.c", "ip", 1000, id, secretBytes⟩

def wrongLink : PortalProg PortalCode :=
  redeemOtpSession plainPlatform (some onePepper) (some onePepper) (.link "x") "ip" ⟨"s", []⟩ 1000

/-- A wrong link that is not the first of its window. -/
def anotherWrongLink (n : Nat) : List PortalChoice :=
  [.start wrongLink, .write 0 (drawn n), .write 0 (drawn (n + 1))]

/-- Six wrong links after the request for a code. -/
def sixWrongLinks : List PortalChoice :=
  [.start (asksForCode "otp-1" [1, 2, 3, 4]), .write 0 (drawn 0), .write 0 (drawn 1),
    .write 0 (drawn 2), .write 0 (drawn 3), .read 0, .write 0 (drawn 4), .write 0 (drawn 5),
    .start wrongLink, .write 0 (drawn 6), .write 0 (drawn 7), .write 0 (drawn 8)] ++
  [9, 11, 13, 15, 17].flatMap anotherWrongLink

set_option maxRecDepth 20000 in
theorem sixWrongLinks_reach : ∃ c, (portalSystem plainPlatform).Reach ⟨openedWorld, []⟩ c ∧
    submissions c.state.log 5 = 6 := by
  have hplay : ((portalSystem plainPlatform).playAll ⟨openedWorld, []⟩ sixWrongLinks).map
      (fun c => submissions c.state.log 5) = some 6 := by decide +kernel
  obtain ⟨c, hc, hsix⟩ := Option.map_eq_some_iff.mp hplay
  exact ⟨c, System.reach_of_playAll hc ⟨.requestOtp .., .redeemOtpSession .., .redeemOtpSession ..,
    .redeemOtpSession .., .redeemOtpSession .., .redeemOtpSession .., .redeemOtpSession ..,
    trivial⟩, hsix⟩

/-- A link that matches no code is not counted, so a code can outlive six of them. -/
theorem code_outlives_six_links : ¬ ∀ (P : Platform) (w : PortalWorld)
    (c : Config PortalWorld PortalWrite PortalResult PortalCode), Opened w →
      (portalSystem P).Reach ⟨w, []⟩ c → ∀ row, submissions c.state.log row ≤ 5 := by
  intro h
  obtain ⟨c, hreach, hsix⟩ := sixWrongLinks_reach
  have hle := h plainPlatform openedWorld c openedWorld_opened hreach 5
  omega

/-- The laws hold in that run. -/
theorem sixWrongLinks_used_once : ∃ c : Config PortalWorld PortalWrite PortalResult PortalCode,
    submissions c.state.log 5 = 6 ∧ OneTime c.state.log := by
  obtain ⟨c, hreach, hsix⟩ := sixWrongLinks_reach
  exact ⟨c, hsix, proofs_are_used_once plainPlatform openedWorld c openedWorld_opened hreach⟩

end Licensecc.Portal
