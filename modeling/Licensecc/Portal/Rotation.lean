-- The law of a new password. Its batch kills the sessions and the codes that are there, and
-- the mint of a sign-in by password names the hash that was verified. The mint of a
-- sign-in by code or by provider names nothing, so a password that is written between the
-- redemption of the proof and the mint does not stop it.
import Licensecc.Portal.OneTime

open Licensecc.Sql Licensecc.Conc

namespace Licensecc.Portal

variable {P : Platform} {w : PortalWorld}

/-- No session of a customer is active, or is minted later, from a proof that is older than
a password of the customer. -/
def Invalidated (w : PortalWorld) : Prop :=
  ∀ customerId n, Written w.log customerId n →
    (∀ s ∈ w.db.portal_sessions, s.customer_id = customerId → s.status = .active →
      n < s.proof.obtained) ∧
    ∀ place e m, n < place → w.log[place]? = some e → Mints e m → m.customer_id = customerId →
      n < m.proof.obtained

/-- The place at which a code, a link or a state was redeemed. -/
def Proof.redeemedAt : Proof → Option Nat
  | otp _ redeemed => some redeemed
  | oauth _ redeemed => some redeemed
  | password _ => none

/-- No password of the customer is written between the redemption of a proof and the mint of
its session. -/
def Undisturbed (log : List PortalEntry) : Prop :=
  ∀ place e m redeemed n, log[place]? = some e → Mints e m → m.proof.redeemedAt = some redeemed →
    redeemed < n → n < place → ¬ Written log m.customer_id n

/-- A mint that nothing came between is from a proof that is newer than every password. -/
theorem MintFact.obtained {log : List PortalEntry} {place n : Nat} {m : MintSession}
    (h : MintFact log place m) (hwritten : Written log m.customer_id n) (hn : n < place)
    (hquiet : ∀ redeemed, m.proof.redeemedAt = some redeemed → ¬ redeemed < n) :
    n < m.proof.obtained := by
  unfold MintFact at h
  cases hproof : m.proof with
  | otp row redeemed =>
    simp only [hproof] at h hquiet
    obtain ⟨-, -, hnewest⟩ := h
    exact Nat.lt_succ_of_le (hnewest n (Nat.le_of_not_lt (hquiet _ rfl)) hwritten)
  | oauth row redeemed =>
    simp only [hproof] at hquiet
    exact Nat.lt_succ_of_le (Nat.le_of_not_lt (hquiet _ rfl))
  | password seen =>
    simp only [hproof] at h
    exact h n hn hwritten

/-- A proof is redeemed after it was issued, and before its session is minted. -/
theorem MintFact.disturbed {log : List PortalEntry} {place redeemed n : Nat} {m : MintSession}
    (h : MintFact log place m) (hredeemed : m.proof.redeemedAt = some redeemed)
    (hn : redeemed < n) : m.proof.obtained ≤ n := by
  unfold MintFact at h
  cases hproof : m.proof with
  | otp row k =>
    simp only [hproof] at h hredeemed
    obtain rfl := Option.some.inj hredeemed
    have hrow := h.1
    simp only [Proof.obtained]
    omega
  | oauth row k =>
    simp only [hproof] at hredeemed
    obtain rfl := Option.some.inj hredeemed
    exact hn
  | password seen =>
    simp only [hproof] at hredeemed
    exact nomatch hredeemed

theorem PortalInv.invalidated_iff (hI : PortalInv w) : Invalidated w ↔ Undisturbed w.log := by
  constructor
  · intro h place e m redeemed n he hm hredeemed hn hplace hw
    have hlate := (h m.customer_id n hw).2 place e m hplace he hm rfl
    have hearly := (hI.mints place e m he hm).disturbed hredeemed hn
    omega
  · intro h customerId n hw
    have hmint : ∀ place e m, n < place → w.log[place]? = some e → Mints e m →
        m.customer_id = customerId → n < m.proof.obtained := by
      rintro place e m hn he hm rfl
      refine (hI.mints place e m he hm).obtained hw hn fun redeemed hredeemed hlt => ?_
      exact h place e m redeemed n he hm hredeemed hlt hn hw
    refine ⟨fun s hs hcustomer hactive => ?_, hmint⟩
    obtain ⟨-, place, e, m, he, hm, hid, hproof, hnewest⟩ := hI.sessions s hs hactive
    subst hcustomer
    rw [← hproof]
    exact hmint place e m (hnewest n hw) he hm hid

/-- In every run, a new password kills the older proofs exactly when no password was written
between a redemption and the mint that follows it. -/
theorem password_kills_older_proofs_iff (P : Platform) (w : PortalWorld)
    (c : Config PortalWorld PortalWrite PortalResult PortalCode) (h0 : Opened w)
    (h : (portalSystem P).Reach ⟨w, []⟩ c) : Invalidated c.state ↔ Undisturbed c.state.log :=
  (reach_portalInv h0 h).invalidated_iff

/-! ## A link that is redeemed before a new password -/

def secretOfLink : Codec.Bytes := [1, 2, 3, 4]

def secretOfSession : Codec.Bytes := [5, 6, 7, 8]

def firstLogin : PortalProg PortalCode :=
  login plainPlatform onePepper
    ⟨"a@b.c", "correct horse battery", "ip", ⟨"s1", secretOfSession⟩, 1000⟩

def linkSignIn : PortalProg PortalCode :=
  redeemOtpSession plainPlatform (some onePepper) (some onePepper) (.link (base64Url secretOfLink))
    "ip" ⟨"s2", [9]⟩ 1001

def newPassword : PortalProg PortalCode :=
  settings plainPlatform onePepper ⟨SESSION_PREFIX ++ base64Url secretOfSession,
    "another long password", some "correct horse battery", "ip", ⟨"s3", [10]⟩, 1002⟩

/-- The link is redeemed, then the customer sets a new password, and then the session of the
link is minted. -/
def passwordBeforeMint : List PortalChoice :=
  [.start firstLogin, .write 0 (drawn 0), .write 0 (drawn 1), .write 0 (drawn 2),
    .write 0 (drawn 3), .read 0, .write 0 (drawn 4),
    .start (asksForCode "otp-1" secretOfLink), .write 0 (drawn 5), .write 0 (drawn 6),
    .write 0 (drawn 7), .write 0 (drawn 8), .read 0, .write 0 (drawn 9), .write 0 (drawn 10),
    .start linkSignIn, .write 0 (drawn 11), .write 0 (drawn 12), .write 0 (drawn 13),
    .start newPassword, .read 0, .read 0, .read 0, .write 0 (drawn 14), .write 0 (drawn 15),
    .write 0 (drawn 16), .write 0 (drawn 17), .write 0 (drawn 18), .write 1 (drawn 19)]

/-- The proofs of the active sessions of a customer. -/
def activeProofs (customerId : String) (db : PortalDb) : List Proof :=
  (db.portal_sessions.rows.filter fun s => s.customer_id = customerId ∧ s.status = .active).map
    (·.proof)

theorem Invalidated.activeProofs {customerId : String} {n : Nat} {proof : Proof}
    (h : Invalidated w) (hw : Written w.log customerId n)
    (hproof : proof ∈ activeProofs customerId w.db) : n < proof.obtained := by
  obtain ⟨s, hs, rfl⟩ := List.mem_map.mp hproof
  obtain ⟨hs, hactive⟩ := List.mem_filter.mp hs
  obtain ⟨hcustomer, hactive⟩ := of_decide_eq_true hactive
  exact (h customerId n hw).1 s hs hcustomer hactive

instance (customerId : String) (e : PortalEntry) : Decidable (WritesPassword customerId e) :=
  inferInstanceAs (Decidable (_ ∧ _))

set_option maxRecDepth 20000 in
theorem passwordBeforeMint_reach : ∃ c, (portalSystem plainPlatform).Reach ⟨openedWorld, []⟩ c ∧
    Written c.state.log "cust-1" 18 ∧
      activeProofs "cust-1" c.state.db = [.otp 10 13] := by
  have hplay : ((portalSystem plainPlatform).playAll ⟨openedWorld, []⟩ passwordBeforeMint).map
      (fun c => (c.state.log[18]?.map fun e => decide (WritesPassword "cust-1" e),
        activeProofs "cust-1" c.state.db)) = some (some true, [.otp 10 13]) := by decide +kernel
  obtain ⟨c, hc, hshape⟩ := Option.map_eq_some_iff.mp hplay
  obtain ⟨hwrites, hproofs⟩ := Prod.mk.inj hshape
  obtain ⟨e, he, hw⟩ := Option.map_eq_some_iff.mp hwrites
  exact ⟨c, System.reach_of_playAll hc ⟨.login .., .requestOtp .., .redeemOtpSession ..,
    .settings .., trivial⟩, ⟨e, he, of_decide_eq_true hw⟩, hproofs⟩

/-- A link that was redeemed before a new password still signs in after it. -/
theorem link_outlives_new_password : ¬ ∀ (P : Platform) (w : PortalWorld)
    (c : Config PortalWorld PortalWrite PortalResult PortalCode), Opened w →
      (portalSystem P).Reach ⟨w, []⟩ c → Invalidated c.state := by
  intro h
  obtain ⟨c, hreach, hwritten, hproofs⟩ := passwordBeforeMint_reach
  have hlate := (h _ _ c openedWorld_opened hreach).activeProofs hwritten
    (hproofs ▸ List.mem_cons_self : Proof.otp 10 13 ∈ _)
  exact absurd hlate (by decide)

/-- In that run a password was written between a redemption and its mint. -/
theorem passwordBeforeMint_disturbed :
    ∃ c : Config PortalWorld PortalWrite PortalResult PortalCode,
      Written c.state.log "cust-1" 18 ∧ ¬ Undisturbed c.state.log := by
  obtain ⟨c, hreach, hwritten, hproofs⟩ := passwordBeforeMint_reach
  refine ⟨c, hwritten, fun hquiet => ?_⟩
  have h := (password_kills_older_proofs_iff plainPlatform openedWorld c openedWorld_opened
    hreach).mpr hquiet
  have hlate := h.activeProofs hwritten (hproofs ▸ List.mem_cons_self : Proof.otp 10 13 ∈ _)
  exact absurd hlate (by decide)

end Licensecc.Portal
