-- Every request of the portal meets the promises of its writes. A sign-in mints its
-- session from a fact of its proof, and a link is redeemed for what it was emailed for.
import Licensecc.Portal.Invariant

open Licensecc.Sql Licensecc.Conc

namespace Licensecc.Portal

variable {P : Platform} {w : PortalWorld}

/-- From this state the program meets its promises, and it ends with the fact. -/
abbrev Promises {α : Type} (P : Platform) (F : α → PortalWorld → Prop) (p : PortalProg α)
    (w : PortalWorld) : Prop := (portalSystem P).Ensures PortalWrite.Ready PortalInv F p w

/-- The fact is still there after every write that meets its promise. -/
abbrev Lasts (P : Platform) (F : PortalWorld → Prop) : Prop :=
  (portalSystem P).Stable PortalWrite.Ready PortalInv F

def Anything {α : Type} : α → PortalWorld → Prop := fun _ _ => True

theorem lasts_proofFact (customerId : String) (hash : Option String) (proof : Proof) :
    Lasts P fun w => ProofFact w customerId hash proof :=
  fun _ _ _ hfresh _ _ h => h.step hfresh

theorem lasts_issued (tokenHash : String) (action : Action) :
    Lasts P fun w => Issued w.log tokenHash action := fun _ _ _ _ _ _ h => h.concat

theorem ready_of_plain (write : PortalWrite) (h : write.Plain) (w : PortalWorld) :
    write.Ready w := by
  cases write <;> trivial

theorem ready_of_outside (write : PortalWrite) (h : write.Outside) (w : PortalWorld) :
    write.Ready w := by
  cases write <;> trivial

section
variable {α β : Type} {p : PortalProg α} {K : PortalWorld → Prop}

/-- A program that neither mints nor redeems a link keeps what lasts. -/
theorem promises_of_plain (hp : p.Always PortalWrite.Plain) (hI : PortalInv w) (hK : Lasts P K)
    (hw : K w) : Promises P (fun _ => K) p w :=
  .of_always portalInv_stable ready_of_plain hp hI hK hw

theorem promises_pure (a : α) (hI : PortalInv w) : Promises P Anything (pure a) w :=
  .done portalInv_stable hI System.stable_true trivial

/-- A program that keeps nothing, and what follows it. -/
theorem promises_bind_plain {f : α → PortalProg β} {F : β → PortalWorld → Prop}
    (hp : p.Always PortalWrite.Plain) (hI : PortalInv w) (hK : Lasts P K) (hw : K w)
    (hf : ∀ a w, PortalInv w → K w → Promises P F (f a) w) : Promises P F (p >>= f) w :=
  .bind (promises_of_plain hp hI hK hw) hf

end

/-! ## Mints -/

theorem mintSession_promises (peppers : Peppers) (draw : SessionDraw) {customerId : String}
    (authMethod : AuthMethod) {passwordHash : Option String} (now : Int) {proof : Proof}
    (hI : PortalInv w) (h : ProofFact w customerId passwordHash proof) :
    Promises P Anything
      (mintSession P peppers draw customerId authMethod passwordHash now proof) w := by
  have hlasts := @lasts_proofFact P customerId passwordHash proof
  refine .bind (F := Anything) (.request portalInv_stable hI hlasts h (fun _ => System.stable_true)
    (fun _ _ h => h) (fun _ _ _ => trivial) fun _ _ _ _ _ => trivial) fun r w hI _ => ?_
  split <;> exact promises_pure _ hI

theorem signedIn_promises (peppers : Peppers) (draw : SessionDraw) {customerId hash : String}
    {seen : Nat} (now : Int) (hI : PortalInv w)
    (h : ProofFact w customerId (some hash) (.password seen)) :
    Promises P Anything (signedIn P peppers draw customerId hash seen now) w := by
  refine .bind (mintSession_promises peppers draw _ now hI h) fun r w hI _ => ?_
  split <;> exact promises_pure _ hI

/-! ## Codes and links -/

/-- The fact of an answer that claims a code. -/
def ClaimedFact (claim : Option Claim) (w : PortalWorld) : Prop :=
  ∀ c ∈ claim, ProofFact w c.customer_id none (.otp c.row c.redeemed)

def claimOf : Option PortalResult → Option Claim
  | some (.claimed claim) => claim
  | _ => none

theorem lasts_claimedFact (claim : Option Claim) : Lasts P (ClaimedFact claim) :=
  fun _ _ _ hfresh _ _ h c hc => (h c hc).step hfresh

/-- A code that a write claims is newer than every password of its customer. -/
theorem claimedFact_of_write {fresh : String} {write : PortalWrite} (hI : PortalInv w)
    (hnot : ∀ c, ¬ WritesPassword c (ran P fresh w.log.length w.db write)) :
    ClaimedFact (claimOf (some ((portalSystem P).exec fresh write w).1))
      ((portalSystem P).exec fresh write w).2 := by
  intro claim hclaim
  have hlen : ((portalSystem P).exec fresh write w).2.log.length = w.log.length + 1 := by
    simp [portalSystem, execPortal]
  have hresult : (ran P fresh w.log.length w.db write).result = .claimed (some claim) := by
    change claimOf (some (ran P fresh w.log.length w.db write).result) = some claim at hclaim
    unfold claimOf at hclaim
    split at hclaim
    · rename_i h
      rw [Option.some.inj h, hclaim]
    · cases hclaim
  obtain ⟨r, hr, hrow, hclaims, hcustomer, hredeemed⟩ := of_claimed hresult
  obtain ⟨-, hins, hnew⟩ := hI.codes r hr
  rw [ProofFact, ← hrow, ← hcustomer, hredeemed, hlen]
  refine ⟨Nat.le_of_lt hins, Nat.lt_succ_self _, fun n _ hw => ?_⟩
  exact hnew hclaims.counts.live.1 n (not_written_concat (hnot _) hw)

/-- The fact of a redemption. -/
def RedeemedFact : Except PortalCode Claim → PortalWorld → Prop
  | .ok claim => ClaimedFact (some claim)
  | .error _ => fun _ => True

theorem claimWrite_promises {write : PortalWrite} (hplain : write.Plain) (hI : PortalInv w)
    (hnot : ∀ fresh n db c, ¬ WritesPassword c (ran P fresh n db write)) :
    Promises P RedeemedFact (Prog.request write >>= claimedOr) w := by
  refine .bind (F := fun r => ClaimedFact (claimOf r))
    (.request portalInv_stable hI System.stable_true trivial (fun r => lasts_claimedFact _)
      (fun w _ _ => ready_of_plain write hplain w) (fun w _ _ => ?_)
      fun fresh w _ hI _ => claimedFact_of_write hI (hnot _ _ _)) fun r w hI h => ?_
  · exact fun c hc => nomatch hc
  · unfold claimedOr
    split
    · exact .done portalInv_stable hI (lasts_claimedFact _) h
    · exact .done portalInv_stable hI System.stable_true trivial
    · exact .done portalInv_stable hI System.stable_true trivial

theorem redeemOtp_promises (peppers : Option Peppers) (input : OtpInput) (clientIp : String)
    (now : Int) (hI : PortalInv w) :
    Promises P RedeemedFact (redeemOtp P peppers input clientIp now) w := by
  have hfail : ∀ {w : PortalWorld} (code : PortalCode), PortalInv w →
      Promises P RedeemedFact (pure (.error code)) w :=
    fun code hI => .done portalInv_stable hI System.stable_true trivial
  unfold redeemOtp
  split
  · exact hfail _ hI
  · split
    · split
      · exact hfail _ hI
      · refine promises_bind_plain (portalRateLimit_plain ..) hI System.stable_true trivial
          fun limited w hI _ => ?_
        split
        · exact hfail _ hI
        · exact @claimWrite_promises P w (.claimLink _ now) trivial hI
            fun _ _ _ _ h => (of_writesPassword h).1
    · dsimp only
      split
      · exact hfail _ hI
      · refine promises_bind_plain (limits_plain ..) hI System.stable_true trivial
          fun limited w hI _ => ?_
        split
        · exact hfail _ hI
        · exact @claimWrite_promises P w (.claimCode _ _ now) trivial hI
            fun _ _ _ _ h => (of_writesPassword h).1

theorem redeemOtpSession_promises (otpPeppers sessionPeppers : Option Peppers) (input : OtpInput)
    (clientIp : String) (draw : SessionDraw) (now : Int) (hI : PortalInv w) :
    Promises P Anything
      (redeemOtpSession P otpPeppers sessionPeppers input clientIp draw now) w := by
  unfold redeemOtpSession
  split
  · exact promises_pure _ hI
  · refine .bind (redeemOtp_promises _ input clientIp now hI) fun r w hI h => ?_
    split
    · exact promises_pure _ hI
    · refine .bind (mintSession_promises _ draw _ now hI (h _ rfl)) fun r w hI _ => ?_
      split <;> exact promises_pure _ hI

/-! ## Providers -/

theorem finishCallback_promises (peppers : Peppers) (c : OauthCallback) (flow : Flow)
    (hI : PortalInv w) (h : flow.redeemed < w.log.length) :
    Promises P Anything (finishCallback P peppers c flow) w := by
  unfold finishCallback
  split
  · exact promises_pure _ hI
  · have hlasts : Lasts P fun w => flow.redeemed < w.log.length :=
      lasts_proofFact "" none (.oauth flow.row flow.redeemed)
    refine promises_bind_plain (identityCustomer_plain _ _ c.newCustomerId c.now) hI hlasts h fun r w hI h => ?_
    split
    · exact promises_pure _ hI
    · refine .bind (mintSession_promises peppers c.draw _ c.now hI h) fun r w hI _ => ?_
      split <;> exact promises_pure _ hI

def flowOf : Option PortalResult → Option Flow
  | some (.flow flow) => flow
  | _ => none

theorem callback_promises (peppers : Option Peppers) (c : OauthCallback) (hI : PortalInv w) :
    Promises P Anything (callback P peppers c) w := by
  cases peppers with
  | none => exact promises_pure _ hI
  | some peppers =>
    unfold callback
    dsimp only
    split
    · exact promises_pure _ hI
    · refine promises_bind_plain (portalRateLimit_plain ..) hI System.stable_true trivial
        fun limited w hI _ => ?_
      split
      · exact promises_pure _ hI
      · have hlasts : ∀ redeemed, Lasts P fun w => redeemed < w.log.length :=
          fun redeemed => lasts_proofFact "" none (.oauth 0 redeemed)
        refine .bind (F := fun r w => ∀ flow ∈ flowOf r, flow.redeemed < w.log.length)
          (.request portalInv_stable hI System.stable_true trivial
            (fun r i write w hi hφ hI h flow hf => hlasts _ i write w hi hφ hI (h flow hf))
            (fun _ _ _ => trivial) (fun w _ _ flow hf => nomatch hf)
            fun fresh w _ hI _ flow hf => ?_) fun r w hI h => ?_
        · obtain ⟨r, -, rfl⟩ := Option.map_eq_some_iff.mp hf
          simp [portalSystem, execPortal]
        · split
          · rename_i flow
            have hflow := h flow rfl
            split
            · exact promises_pure _ hI
            · split
              · exact promises_pure _ hI
              · split
                · exact finishCallback_promises peppers c flow hI hflow
                · refine promises_bind_plain (checkLink_plain peppers c _) hI (hlasts flow.redeemed) hflow
                    fun r w hI hflow => ?_
                  split
                  · exact promises_pure _ hI
                  · exact finishCallback_promises peppers c flow hI hflow
          · exact promises_pure _ hI

/-! ## Passwords -/

/-- A hash that is there was seen before every newer password. -/
theorem proofFact_of_seen {customerId hash : String} (hs : Salted w.minted hash) :
    ProofFact w customerId (some hash) (.password w.log.length) := by
  refine ⟨hash, rfl, hs, fun ⟨n, hn, hw⟩ => ?_⟩
  have := hw.lt
  omega

/-- The fact of a credential that was read when the log had this length. -/
def SeenFact (found : Option (PortalPassword × CustomerStatus) × Nat) (w : PortalWorld) : Prop :=
  ∀ p ∈ found.1, ProofFact w p.1.customer_id (some p.1.password_hash) (.password found.2)

theorem lasts_seenFact (found : Option (PortalPassword × CustomerStatus) × Nat) :
    Lasts P (SeenFact found) := fun _ _ _ hfresh _ _ h p hp => (h p hp).step hfresh

theorem login_promises (peppers : Peppers) (r : Login) (hI : PortalInv w) :
    Promises P Anything (login P peppers r) w := by
  unfold login
  split
  · exact promises_pure _ hI
  · split
    · exact promises_pure _ hI
    · refine promises_bind_plain (throttle_plain ..) hI System.stable_true trivial
        fun limited w hI _ => ?_
      split
      · exact promises_pure _ hI
      · refine .bind (F := SeenFact) (.query portalInv_stable hI System.stable_true trivial
          lasts_seenFact fun w hI _ p hp => ?_) fun found w hI h => ?_
        · obtain ⟨q, hq, hp⟩ := Option.bind_eq_some_iff.mp hp
          obtain ⟨c, -, rfl⟩ := Option.map_eq_some_iff.mp hp
          exact proofFact_of_seen (hI.salts q (Table.find?_some hq).1)
        · split
          · exact promises_pure _ hI
          · split
            · exact promises_pure _ hI
            · split
              · exact promises_pure _ hI
              · exact signedIn_promises peppers r.draw r.now hI (h _ rfl)

/-- The fact of an answer that has set a password. -/
def PasswordFact (customerId : String) (r : Option PortalResult) (w : PortalWorld) : Prop :=
  ∀ landed hash seen, r = some (.password landed hash seen) →
    ProofFact w customerId (some hash) (.password seen)

theorem lasts_passwordFact (customerId : String) (r : Option PortalResult) :
    Lasts P (PasswordFact customerId r) :=
  fun _ _ _ hfresh _ _ h landed hash seen hr => (h landed hash seen hr).step hfresh

/-- The hash that a write gives back has the salt of the write. -/
theorem passwordFact_of_write {fresh : String} {write : PortalWrite} (hfresh : Fresh fresh w)
    (customerId : String) (hwrite : ∀ landed hash seen,
      (ran P fresh w.log.length w.db write).result = .password landed hash seen →
        seen = w.log.length + 1 ∧ ∃ password, hash = hashPassword P fresh password) :
    PasswordFact customerId (some ((portalSystem P).exec fresh write w).1)
      ((portalSystem P).exec fresh write w).2 := by
  intro landed hash seen hr
  obtain ⟨rfl, password, rfl⟩ := hwrite landed hash seen (Option.some.inj hr)
  have hlen : ((portalSystem P).exec fresh write w).2.log.length = w.log.length + 1 := by
    simp [portalSystem, execPortal]
  rw [← hlen]
  exact proofFact_of_seen (salted_hashPassword hfresh.2.1 password)

theorem changePassword_promises (peppers : Peppers) (r : Settings) (session : PortalSession)
    (email : String) (credential : Option PortalPassword) (hI : PortalInv w) :
    Promises P Anything (changePassword P peppers r session email credential) w := by
  refine .bind (F := PasswordFact session.customer_id)
    (.request portalInv_stable hI System.stable_true trivial (lasts_passwordFact _)
      (fun _ _ _ => trivial) (fun _ _ _ _ _ _ hr => nomatch hr)
      fun fresh w hfresh hI _ => passwordFact_of_write hfresh _ fun landed hash seen hr => ?_)
    fun answer w hI h => ?_
  · obtain ⟨-, rfl, rfl⟩ := PortalResult.password.inj hr
    exact ⟨rfl, _, rfl⟩
  · split
    · split
      · exact signedIn_promises peppers r.draw r.now hI (h _ _ _ rfl)
      · exact promises_pure _ hI
    · exact promises_pure _ hI

theorem settings_promises (peppers : Peppers) (r : Settings) (hI : PortalInv w) :
    Promises P Anything (settings P peppers r) w := by
  refine promises_bind_plain .query hI System.stable_true trivial fun session w hI _ => ?_
  split
  · exact promises_pure _ hI
  · refine promises_bind_plain .query hI System.stable_true trivial fun found w hI _ => ?_
    split
    · exact promises_pure _ hI
    · refine promises_bind_plain .query hI System.stable_true trivial fun credential w hI _ => ?_
      split
      · exact promises_pure _ hI
      · split
        · exact promises_pure _ hI
        · refine promises_bind_plain (throttle_plain ..) hI System.stable_true trivial
            fun limited w hI _ => ?_
          split
          · exact promises_pure _ hI
          · split
            · exact changePassword_promises _ _ _ _ _ hI
            · split
              · exact promises_pure _ hI
              · exact changePassword_promises _ _ _ _ _ hI

/-! ## Emailed links -/

theorem completeAction_promises (peppers : Peppers) (r : CompleteRequest) (hI : PortalInv w) :
    Promises P Anything (completeAction P peppers r) w := by
  unfold completeAction
  split
  · exact promises_pure _ hI
  · split
    · exact promises_pure _ hI
    · refine promises_bind_plain (limits_plain ..) hI System.stable_true trivial
        fun limited w hI _ => ?_
      split
      · exact promises_pure _ hI
      · refine .bind (F := fun action w => ∀ a ∈ action, Issued w.log (P.sha256Hex r.token) a)
          (.query portalInv_stable hI System.stable_true trivial
            (fun _ _ _ _ _ _ _ h a ha => (h a ha).concat) fun w hI _ a ha => ?_)
          fun action w hI h => ?_
        · obtain ⟨row, hrow, rfl⟩ := Option.map_eq_some_iff.mp ha
          obtain ⟨hmem, htoken, -⟩ := Table.find?_some hrow
          exact htoken ▸ (hI.actions row hmem).1
        · split
          · exact promises_pure _ hI
          · rename_i action
            refine .bind (F := PasswordFact action.customer_id)
              (.request portalInv_stable hI (lasts_issued (P.sha256Hex r.token) action)
                (h action rfl) (lasts_passwordFact _) (fun _ _ h => h)
                (fun _ _ _ _ _ _ hr => nomatch hr) fun fresh w hfresh hI _ =>
                  passwordFact_of_write hfresh _ fun landed hash seen hr => ?_)
              fun answer w hI h => ?_
            · rcases apply_complete P fresh w.log.length w.db
                ⟨P.sha256Hex r.token, action, r.password, r.now⟩ with hx | ⟨l, db₂, -, hx⟩
              · simp only [ran, hx] at hr
                cases hr
              · simp only [ran, hx] at hr
                obtain ⟨-, rfl, rfl⟩ := PortalResult.password.inj hr
                exact ⟨rfl, _, rfl⟩
            · split
              · split
                · refine .bind (signedIn_promises peppers r.draw r.now hI (h _ _ _ rfl))
                    fun code w hI _ => promises_pure _ hI
                · exact promises_pure _ hI
              · exact promises_pure _ hI

/-! ## Every request -/

theorem run_promises {p : PortalProg PortalCode} (h : PortalRun P p) (hI : PortalInv w) :
    Promises P (fun _ _ => True) p w := by
  cases h with
  | requestOtp peppers r =>
    exact promises_of_plain (requestOtp_plain ..) hI System.stable_true trivial
  | redeemOtpSession => exact redeemOtpSession_promises _ _ _ _ _ _ hI
  | start peppers s => exact promises_of_plain (start_plain ..) hI System.stable_true trivial
  | callback peppers c => exact callback_promises peppers c hI
  | login peppers r => exact login_promises peppers r hI
  | settings peppers r => exact settings_promises peppers r hI
  | requestLink r => exact promises_of_plain (requestLink_plain r) hI System.stable_true trivial
  | complete peppers r => exact completeAction_promises peppers r hI
  | createCustomer email password =>
    exact promises_of_plain (createCustomerRequest_plain email password) hI System.stable_true trivial
  | outside write hw =>
    exact .of_always portalInv_stable ready_of_outside (outside_always hw) hI System.stable_true
      trivial

/-- The invariant holds in every run. -/
theorem reach_portalInv {c : Config PortalWorld PortalWrite PortalResult PortalCode}
    (h0 : Opened w) (h : (portalSystem P).Reach ⟨w, []⟩ c) : PortalInv c.state :=
  System.reach_inv portalInv_stable (fun _ hp _ hI => run_promises hp hI) (portalInv_opened h0) h

end Licensecc.Portal
