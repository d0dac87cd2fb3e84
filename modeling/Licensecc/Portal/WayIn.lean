-- The law of the last way in. A customer with a way to sign in keeps one, whatever
-- disconnects, links and new passwords overlap, since a disconnect looks for another way
-- in the statement that deletes the identity.
import Licensecc.Portal.OneTime

open Licensecc.Sql Licensecc.Conc

namespace Licensecc.Portal

variable {P : Platform} {ways : SignInWays} {fresh : String} {n : Nat} {db db' : PortalDb}
  {customerId : String}

/-- The customer can sign in: with a password, with an identity, or with a code that is sent
to an address with an `@` after its first character. -/
def WayIn (ways : SignInWays) (db : PortalDb) (customerId : String) : Prop :=
  (ways.password = true ∧ ∃ p ∈ db.portal_passwords, p.customer_id = customerId) ∨
  (∃ provider, ways.provider provider = true ∧ db.HasIdentity customerId provider) ∨
  (ways.emailCodes = true ∧ ∃ c ∈ db.customers, c.id = customerId ∧ '@' ∈ c.email.toList.drop 1)

/-! ## One write -/

/-- A disconnect that asks for the ways of the deployment. -/
def Unlink.Asks (u : Unlink) (ways : SignInWays) : Prop :=
  u.passwordEnabled = ways.password ∧ u.otherEnabled = ways.provider u.provider.other ∧
    u.emailCodes = ways.emailCodes

/-- A write of requests under these ways. -/
def PortalWrite.Under (ways : SignInWays) : PortalWrite → Prop
  | unlink u => u.Asks ways
  | customers _ => False
  | _ => True

/-- A write that takes no password, no identity and no address takes no way in. -/
theorem WayIn.mono (hp : ∀ p ∈ db.portal_passwords, ∃ p' ∈ db'.portal_passwords,
      p'.customer_id = p.customer_id)
    (hi : ∀ r ∈ db.portal_identities, r.customer_id = customerId → r ∈ db'.portal_identities)
    (hc : KeepsEmails db.customers db'.customers) (h : WayIn ways db customerId) :
    WayIn ways db' customerId := by
  rcases h with ⟨hways, p, hmem, hid⟩ | ⟨provider, hways, r, hr, hid, hprovider⟩ |
    ⟨hways, c, hmem, hid, hat⟩
  · obtain ⟨p', hp', heq⟩ := hp p hmem
    exact .inl ⟨hways, p', hp', heq.trans hid⟩
  · exact .inr (.inl ⟨provider, hways, r, hi r hr hid, hid, hprovider⟩)
  · obtain ⟨c', hc', heq, hemail⟩ := hc c hmem
    have hne : c.email ≠ "" := by
      intro hempty
      simp [hempty] at hat
    exact .inr (.inr ⟨hways, c', hc', heq.trans hid, hemail hne ▸ hat⟩)

theorem mem_unlink {u : Unlink} {r : PortalIdentity} :
    r ∈ (unlink u db).2.portal_identities ↔ r ∈ db.portal_identities ∧ ¬ u.Selects db r :=
  Table.mem_keep

theorem Provider.other_ne (provider : Provider) : provider.other ≠ provider := by
  cases provider <;> decide

/-- The other way that a disconnect found is still there after it. -/
theorem wayIn_of_otherWay {u : Unlink} (hasks : u.Asks ways) (h : u.OtherWay db) :
    WayIn ways (unlink u db).2 u.customer_id := by
  obtain ⟨hpassword, hother, hcodes⟩ := hasks
  rcases h with ⟨henabled, p, hp, hid⟩ | ⟨henabled, r, hr, hid, hprovider⟩ |
    ⟨henabled, c, hc, hid, hat, hhead⟩
  · exact .inl ⟨hpassword ▸ henabled, p, hp, hid⟩
  · refine .inr (.inl ⟨u.provider.other, hother ▸ henabled, r, mem_unlink.mpr ⟨hr, ?_⟩, hid,
      hprovider⟩)
    intro hsel
    exact u.provider.other_ne (hprovider.symm.trans hsel.2.1)
  · refine .inr (.inr ⟨hcodes ▸ henabled, c, hc, hid, ?_⟩)
    cases hlist : c.email.toList with
    | nil => simp [hlist] at hat
    | cons a rest =>
      rw [hlist] at hat hhead
      rcases List.mem_cons.mp hat with rfl | hat
      · exact absurd rfl hhead
      · exact hat

/-- A disconnect that deletes nothing changes nothing. -/
theorem unlink_of_none {u : Unlink} (h : ∀ r ∈ db.portal_identities, ¬ u.Selects db r) :
    (unlink u db).2 = db := by
  have hidentities : db.portal_identities.keep (fun r => ¬ u.Selects db r) =
      db.portal_identities := by
    refine Table.ext (List.filter_eq_self.mpr fun r hr => ?_)
    simpa using h r hr
  have hcount : db.portal_identities.count (u.Selects db) = 0 := Table.count_eq_zero.mpr h
  have hsessions : ∀ db₁, revokeSessions (u.Revokes 0 db₁) db.portal_sessions =
      db.portal_sessions := by
    intro db₁
    refine Table.ext ?_
    have hmap : db.portal_sessions.rows.map (fun s =>
        { s with status := if u.Revokes 0 db₁ s then .revoked else s.status }) =
        db.portal_sessions.rows.map id := by
      refine List.map_congr_left fun s _ => ?_
      rw [if_neg fun hrevokes => absurd hrevokes.1 (by decide)]
      rfl
    exact hmap.trans (List.map_id _)
  simp only [unlink, hidentities, hcount, hsessions]

theorem unlink_result {u : Unlink} {linked signedIn : Bool}
    (h : (unlink u db).1 = .unlinked false linked signedIn) :
    ∀ r ∈ db.portal_identities, ¬ u.Selects db r := by
  have hdeleted := (PortalResult.unlinked.inj h).1
  have hcount : db.portal_identities.count (u.Selects db) = 0 := by
    simpa using hdeleted
  exact Table.count_eq_zero.mp hcount

theorem wayIn_unlink {u : Unlink} (hasks : u.Asks ways) (h : WayIn ways db customerId) :
    WayIn ways (unlink u db).2 customerId := by
  by_cases hsel : ∃ r ∈ db.portal_identities, r.customer_id = customerId ∧ u.Selects db r
  · obtain ⟨r, -, rfl, hcustomer, -, -, hother⟩ := hsel
    rw [hcustomer]
    exact wayIn_of_otherWay hasks hother
  · have hkeeps : ∀ r ∈ db.portal_identities, r.customer_id = customerId →
        r ∈ (unlink u db).2.portal_identities :=
      fun r hr hid => mem_unlink.mpr ⟨hr, fun hs => hsel ⟨r, hr, hid, hs⟩⟩
    exact @WayIn.mono ways db (unlink u db).2 customerId (fun p hp => ⟨p, hp, rfl⟩) hkeeps
      (keepsEmails_of_subset fun _ hc => hc) h

/-- No write of requests under these ways takes the last way in. -/
theorem wayIn_step {write : PortalWrite} (hunder : write.Under ways)
    (h : WayIn ways db customerId) : WayIn ways (ran P fresh n db write).after customerId := by
  by_cases hunlink : ∃ u, write = .unlink u
  · obtain ⟨u, rfl⟩ := hunlink
    exact wayIn_unlink hunder h
  · refine h.mono ?_ (fun r hr _ => ?_) (emails_step write fun table heq => ?_)
    · rcases @passwords_step P fresh n db write with heq | ⟨c, password, -, hsets⟩
      · rw [heq]
        exact fun p hp => ⟨p, hp, rfl⟩
      · exact hsets.keeps
    · exact identities_step write (fun u heq => hunlink ⟨u, heq⟩) r hr
    · subst heq
      exact hunder

/-! ## Every run -/

/-- The requests of a deployment with these ways that change how customers sign in. -/
inductive AccountRun (P : Platform) (ways : SignInWays) : PortalProg PortalCode → Prop
  | unlink (peppers : Peppers) (r : UnlinkRequest) :
      AccountRun P ways (unlinkProvider P ways peppers r)
  | start (peppers : Option Peppers) (s : OauthStart) : AccountRun P ways (start P peppers s)
  | callback (peppers : Option Peppers) (c : OauthCallback) :
      AccountRun P ways (callback P peppers c)
  | settings (peppers : Peppers) (r : Settings) : AccountRun P ways (settings P peppers r)
  | requestLink (r : LinkRequest) : AccountRun P ways (requestLink P r)
  | complete (peppers : Peppers) (r : CompleteRequest) :
      AccountRun P ways (completeAction P peppers r)
  | login (peppers : Peppers) (r : Login) : AccountRun P ways (login P peppers r)
  | requestOtp (peppers : Option Peppers) (r : OtpRequest) :
      AccountRun P ways (requestOtp P peppers r)
  | redeemOtpSession (otpPeppers sessionPeppers : Option Peppers) (input : OtpInput)
      (clientIp : String) (draw : SessionDraw) (now : Int) :
      AccountRun P ways (redeemOtpSession P otpPeppers sessionPeppers input clientIp draw now)

def accountSystem (P : Platform) (ways : SignInWays) :
    System PortalWorld PortalWrite PortalResult String PortalCode :=
  ⟨execPortal P, Fresh, AccountRun P ways⟩

theorem under_of_own (write : PortalWrite) (h : write.Own) : write.Under ways := by
  cases write <;> trivial

theorem unlinkProvider_under (peppers : Peppers) (r : UnlinkRequest) :
    (unlinkProvider P ways peppers r).Always (PortalWrite.Under ways) := by
  refine .bind .query fun session => ?_
  split
  · exact .pure
  · refine .bind .query fun linked => .ite .pure (.bind (.request ⟨rfl, rfl, rfl⟩) fun answer => ?_)
    split
    · exact .ite .pure (.ite .pure (.ite .pure .pure))
    · exact .pure

theorem run_under {p : PortalProg PortalCode} (h : AccountRun P ways p) :
    p.Always (PortalWrite.Under ways) := by
  cases h with
  | unlink peppers r => exact unlinkProvider_under peppers r
  | start peppers s => exact ((start_plain peppers s).mono own_of_plain).mono under_of_own
  | callback peppers c => exact (callback_own peppers c).mono under_of_own
  | settings peppers r => exact (settings_own peppers r).mono under_of_own
  | requestLink r => exact ((requestLink_plain r).mono own_of_plain).mono under_of_own
  | complete peppers r => exact (completeAction_own peppers r).mono under_of_own
  | login peppers r => exact (login_own peppers r).mono under_of_own
  | requestOtp peppers r => exact ((requestOtp_plain peppers r).mono own_of_plain).mono under_of_own
  | redeemOtpSession => exact (redeemOtpSession_own ..).mono under_of_own

/-- What holds of every write of the log: it takes no last way in, and a disconnect that is
refused or lost changes nothing. -/
structure KeepsWaysIn (ways : SignInWays) (e : PortalEntry) : Prop where
  keeps : ∀ customerId, WayIn ways e.before customerId → WayIn ways e.after customerId
  refused : ∀ u linked signedIn, e.write = .unlink u →
    e.result = .unlinked false linked signedIn → e.after = e.before

theorem keepsWaysIn_ran {write : PortalWrite} (hunder : write.Under ways) :
    KeepsWaysIn ways (ran P fresh n db write) where
  keeps _ h := wayIn_step hunder h
  refused u linked signedIn hwrite hresult := by
    obtain rfl : write = .unlink u := hwrite
    exact unlink_of_none (unlink_result hresult)

/-- What holds in every state of a run that starts with this database. -/
structure WaysKept (ways : SignInWays) (start : PortalDb) (w : PortalWorld) : Prop where
  kept : ∀ customerId, WayIn ways start customerId → WayIn ways w.db customerId
  writes : ∀ e ∈ w.log, KeepsWaysIn ways e

theorem waysKept_stable (start : PortalDb) :
    (accountSystem P ways).Stable (fun write _ => write.Under ways) (WaysKept ways start)
      (WaysKept ways start) := by
  intro fresh write w _ hunder _ h
  refine ⟨fun customerId hw => wayIn_step hunder (h.kept customerId hw), fun e he => ?_⟩
  rcases List.mem_append.mp he with he | he
  · exact h.writes e he
  · obtain rfl := List.mem_singleton.mp he
    exact keepsWaysIn_ran hunder

/-- In every run of these requests a customer with a way in keeps one at each write, and a
disconnect that is refused or loses the race leaves the database as it is. -/
theorem customers_keep_a_way_in (P : Platform) (ways : SignInWays) (w : PortalWorld)
    (c : Config PortalWorld PortalWrite PortalResult PortalCode) (h0 : w.log = [])
    (h : (accountSystem P ways).Reach ⟨w, []⟩ c) : WaysKept ways w.db c.state := by
  refine System.reach_inv (waysKept_stable w.db) (fun p hp s hs => ?_)
    ⟨fun _ hw => hw, by simp [h0]⟩ h
  exact .of_always (waysKept_stable w.db) (fun _ hw _ => hw) (run_under hp) hs System.stable_true
    trivial

/-! ## Two disconnects that overlap -/

instance (P : Platform) (ways : SignInWays) (fresh : String) (w : PortalWorld) :
    Decidable ((accountSystem P ways).admits fresh w) := inferInstanceAs (Decidable (Fresh _ _))

def onlyProviders : SignInWays := ⟨false, fun _ => true, false⟩

/-- One customer with two providers and a session. -/
def linkedWorld : PortalWorld where
  db := {
    customers := ⟨[⟨"cust-1", "", .active⟩], by simp [Schema.check], by simp⟩
    portal_identities := ⟨[⟨.google, "g", "cust-1", "a@b.c"⟩, ⟨.github, "h", "cust-1", "a@b.c"⟩],
      by simp [Schema.check], by simp [Schema.clash]⟩
    portal_sessions := ⟨[⟨"s1", "cust-1", "plccp_x", .active, 900, 9000, .oauth, .oauth 0 0⟩],
      by simp [Schema.check], by simp⟩ }
  minted := []
  log := []

/-- Both requests find their identity before either deletes it. -/
def twoDisconnects : List PortalChoice :=
  [.start (unlinkProvider plainPlatform onlyProviders onePepper ⟨"lccp_x", .google, 1000⟩),
    .start (unlinkProvider plainPlatform onlyProviders onePepper ⟨"lccp_x", .github, 1000⟩),
    .read 0, .read 0, .read 1, .read 1, .write 0 (drawn 0), .write 1 (drawn 1)]

set_option maxRecDepth 20000 in
/-- One of the two is refused, and the customer can still sign in. -/
theorem twoDisconnects_keep_a_way : ∃ c : Config PortalWorld PortalWrite PortalResult PortalCode,
    c.state.log.map (·.result) = [.unlinked true false true, .unlinked false true true] ∧
      WaysKept onlyProviders linkedWorld.db c.state := by
  have hplay : ((accountSystem plainPlatform onlyProviders).playAll ⟨linkedWorld, []⟩
      twoDisconnects).map (fun c => c.state.log.map (·.result)) =
      some [.unlinked true false true, .unlinked false true true] := by decide
  obtain ⟨c, hc, hresults⟩ := Option.map_eq_some_iff.mp hplay
  have hreach := System.reach_of_playAll hc ⟨.unlink .., .unlink .., trivial⟩
  exact ⟨c, hresults, customers_keep_a_way_in plainPlatform onlyProviders linkedWorld c rfl hreach⟩

end Licensecc.Portal
