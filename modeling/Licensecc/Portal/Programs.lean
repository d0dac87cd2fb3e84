-- What the programs of the portal write. Most of their steps neither mint a session nor
-- redeem an emailed link.
import Licensecc.Conc.Stable
import Licensecc.Portal.Steps

open Licensecc.Sql Licensecc.Conc

namespace Licensecc.Portal

variable {P : Platform}

/-- The write mints no session, redeems no link, and takes nothing from an account. -/
def PortalWrite.Plain : PortalWrite → Prop
  | mintSession _ | complete _ | unlink _ | customers _ => False
  | _ => True

theorem portalRateLimit_plain (key : String) (limit : Nat) (period now : Int) :
    (portalRateLimit key limit period now).Always PortalWrite.Plain := by
  refine .bind (.request trivial) fun r => ?_
  split
  · split
    · exact .bind (.request trivial) fun _ => .pure
    · exact .pure
  · exact .pure

theorem limits_plain (key₁ key₂ : String) (limit₁ limit₂ : Nat) (now : Int) :
    (limits key₁ limit₁ key₂ limit₂ now).Always PortalWrite.Plain := by
  refine .bind (portalRateLimit_plain ..) fun limited => ?_
  split
  · exact .pure
  · exact portalRateLimit_plain ..

theorem throttle_plain (clientIp email action : String) (byIp : Nat) (now : Int) :
    (throttle P clientIp email action byIp now).Always PortalWrite.Plain := limits_plain ..

theorem requestOtp_plain (peppers : Option Peppers) (r : OtpRequest) :
    (requestOtp P peppers r).Always PortalWrite.Plain := by
  unfold requestOtp
  split
  · exact .pure
  · refine .ite .pure (.bind (limits_plain ..) fun limited => .ite .pure ?_)
    refine .bind .query fun customer => ?_
    split
    · exact .pure
    · refine .bind (.request trivial) fun r => ?_
      split
      · exact .pure
      · refine .bind (.request trivial) fun r => ?_
        split <;> exact .pure

theorem claimedOr_plain (r : Option PortalResult) : (claimedOr r).Always PortalWrite.Plain := by
  unfold claimedOr
  split <;> exact .pure

theorem redeemOtp_plain (peppers : Option Peppers) (input : OtpInput) (clientIp : String)
    (now : Int) : (redeemOtp P peppers input clientIp now).Always PortalWrite.Plain := by
  unfold redeemOtp
  split
  · exact .pure
  · split
    · refine .ite .pure (.bind (portalRateLimit_plain ..) fun limited => .ite .pure ?_)
      exact .bind (.request trivial) claimedOr_plain
    · refine .ite .pure (.bind (limits_plain ..) fun limited => .ite .pure ?_)
      exact .bind (.request trivial) claimedOr_plain

theorem insertStateFor_plain (s : OauthStart) (linkSessionId : Option String) :
    (insertStateFor P s linkSessionId).Always PortalWrite.Plain := by
  refine .bind (.request trivial) fun r => ?_
  split
  · exact .pure
  · refine .bind (.request trivial) fun r => ?_
    split <;> exact .pure

theorem start_plain (peppers : Option Peppers) (s : OauthStart) :
    (start P peppers s).Always PortalWrite.Plain := by
  unfold start
  split
  · exact .pure
  · refine .bind (portalRateLimit_plain ..) fun limited => .ite .pure ?_
    split
    · exact insertStateFor_plain ..
    · refine .bind .query fun session => ?_
      split
      · exact .pure
      · exact .bind .query fun recent => .ite (insertStateFor_plain ..) .pure

theorem identityCustomer_plain (identity : Identity) (linkSessionId : Option String)
    (newCustomerId : String) (now : Int) :
    (identityCustomer identity linkSessionId newCustomerId now).Always PortalWrite.Plain := by
  refine .bind .query fun existing => ?_
  split
  · refine .bind .query fun customer => ?_
    split
    · exact .pure
    · split
      · exact .ite .pure .pure
      · refine .bind (.request trivial) fun r => ?_
        split <;> exact .pure
  · split
    · exact .ite .pure .pure
    · refine .bind .query fun taken => .ite .pure (.bind (.request trivial) fun r => ?_)
      split <;> exact .pure

theorem checkLink_plain (peppers : Peppers) (c : OauthCallback) (sessionId : String) :
    (checkLink P peppers c sessionId).Always PortalWrite.Plain := by
  refine .bind .query fun session => ?_
  split
  · exact .pure
  · exact .ite .pure (.bind .query fun _ => .pure)

theorem issueLink_plain (r : LinkRequest) (email : String) :
    (issueLink P r email).Always PortalWrite.Plain := by
  refine .bind .query fun credential => .bind .query fun existing => .ite .pure ?_
  refine .bind (.request trivial) fun r => ?_
  split
  · exact .pure
  · refine .bind (.request trivial) fun r => ?_
    split
    · exact .ite .pure (.bind (.request trivial) fun _ => .pure)
    · exact .pure

theorem requestLink_plain (r : LinkRequest) : (requestLink P r).Always PortalWrite.Plain := by
  unfold requestLink
  split
  · exact .pure
  · refine .bind (throttle_plain ..) fun limited => .ite .pure ?_
    refine .bind (portalRateLimit_plain ..) fun limited => .ite .pure ?_
    exact .bind (issueLink_plain r _) fun _ => .pure

theorem createCustomerRequest_plain (email password : String) :
    (createCustomerRequest email password).Always PortalWrite.Plain := by
  refine .bind .query fun existing => .ite .pure (.bind (.request trivial) fun r => ?_)
  split <;> exact .pure

/-! ## Requests that sign in -/

/-- The write takes nothing from an account. -/
def PortalWrite.Own : PortalWrite → Prop
  | unlink _ | customers _ => False
  | _ => True

theorem own_of_plain (write : PortalWrite) (h : write.Plain) : write.Own := by
  cases write <;> trivial

section
variable {α β : Type} {p : PortalProg α} {f : α → PortalProg β}

theorem own_bind_plain (hp : p.Always PortalWrite.Plain)
    (hf : ∀ a, (f a).Always PortalWrite.Own) : (p >>= f).Always PortalWrite.Own :=
  .bind (hp.mono own_of_plain) hf

end

theorem mintSession_own (peppers : Peppers) (draw : SessionDraw) (customerId : String)
    (authMethod : AuthMethod) (passwordHash : Option String) (now : Int) (proof : Proof) :
    (mintSession P peppers draw customerId authMethod passwordHash now proof).Always
      PortalWrite.Own := by
  refine .bind (.request trivial) fun r => ?_
  split <;> exact .pure

theorem signedIn_own (peppers : Peppers) (draw : SessionDraw) (customerId passwordHash : String)
    (seen : Nat) (now : Int) :
    (signedIn P peppers draw customerId passwordHash seen now).Always PortalWrite.Own := by
  refine .bind (mintSession_own ..) fun r => ?_
  split <;> exact .pure

theorem redeemOtpSession_own (otpPeppers sessionPeppers : Option Peppers) (input : OtpInput)
    (clientIp : String) (draw : SessionDraw) (now : Int) :
    (redeemOtpSession P otpPeppers sessionPeppers input clientIp draw now).Always
      PortalWrite.Own := by
  unfold redeemOtpSession
  split
  · exact .pure
  · refine own_bind_plain (redeemOtp_plain ..) fun r => ?_
    split
    · exact .pure
    · refine .bind (mintSession_own ..) fun r => ?_
      split <;> exact .pure

theorem finishCallback_own (peppers : Peppers) (c : OauthCallback) (flow : Flow) :
    (finishCallback P peppers c flow).Always PortalWrite.Own := by
  unfold finishCallback
  split
  · exact .pure
  · refine own_bind_plain (identityCustomer_plain _ _ c.newCustomerId c.now) fun r => ?_
    split
    · exact .pure
    · refine .bind (mintSession_own ..) fun r => ?_
      split <;> exact .pure

theorem callback_own (peppers : Option Peppers) (c : OauthCallback) :
    (callback P peppers c).Always PortalWrite.Own := by
  cases peppers with
  | none => exact .pure
  | some peppers =>
    refine .ite .pure (own_bind_plain (portalRateLimit_plain ..) fun limited => .ite .pure ?_)
    refine .bind (.request trivial) fun r => ?_
    split
    · refine .ite .pure (.ite .pure ?_)
      split
      · exact finishCallback_own ..
      · refine own_bind_plain (checkLink_plain peppers c _) fun r => ?_
        split
        · exact .pure
        · exact finishCallback_own ..
    · exact .pure

theorem login_own (peppers : Peppers) (r : Login) :
    (login P peppers r).Always PortalWrite.Own := by
  unfold login
  split
  · exact .pure
  · refine .ite .pure (own_bind_plain (throttle_plain ..) fun limited => .ite .pure ?_)
    refine .bind .query fun found => ?_
    split
    · exact .pure
    · exact .ite .pure (.ite .pure (signedIn_own ..))

theorem changePassword_own (peppers : Peppers) (r : Settings) (session : PortalSession)
    (email : String) (credential : Option PortalPassword) :
    (changePassword P peppers r session email credential).Always PortalWrite.Own := by
  refine .bind (.request trivial) fun answer => ?_
  split
  · exact .ite (signedIn_own ..) .pure
  · exact .pure

theorem settings_own (peppers : Peppers) (r : Settings) :
    (settings P peppers r).Always PortalWrite.Own := by
  refine .bind .query fun session => ?_
  split
  · exact .pure
  · refine .bind .query fun found => ?_
    split
    · exact .pure
    · refine .bind .query fun credential => .ite .pure ?_
      split
      · exact .pure
      · refine own_bind_plain (throttle_plain ..) fun limited => .ite .pure ?_
        refine .ite (changePassword_own ..) ?_
        split
        · exact .pure
        · exact changePassword_own ..

theorem completeAction_own (peppers : Peppers) (r : CompleteRequest) :
    (completeAction P peppers r).Always PortalWrite.Own := by
  refine .ite .pure (.ite .pure (own_bind_plain (limits_plain ..) fun limited => .ite .pure ?_))
  refine .bind .query fun action => ?_
  split
  · exact .pure
  · refine .bind (.request trivial) fun answer => ?_
    split
    · exact .ite (.bind (signedIn_own ..) fun _ => .pure) .pure
    · exact .pure

/-! ## Other statements -/

theorem outside_always {write : PortalWrite} (h : write.Outside) :
    (Prog.request write >>= fun _ => pure .written : PortalProg PortalCode).Always
      PortalWrite.Outside := .bind (.request h) fun _ => .pure

end Licensecc.Portal
