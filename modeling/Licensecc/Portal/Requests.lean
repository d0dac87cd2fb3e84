-- The requests of the portal. Each is a program of reads and writes that others can
-- come between. A sign-in validates its proof in one step and mints its session in another.
import Licensecc.Codec.Base64
import Licensecc.Conc.Schedule
import Licensecc.Conc.World
import Licensecc.Portal.Statements
import Licensecc.Webhook.Source

open Licensecc.Codec Licensecc.Sql Licensecc.Conc

namespace Licensecc.Portal

/-! ## The world -/

abbrev PortalEntry := Entry PortalDb PortalWrite PortalResult

/-- The database with the texts that were drawn and a log of the writes, the oldest
first. No program reads the log but for its length, which only the laws use. -/
structure PortalWorld where
  db : PortalDb
  minted : List String
  log : List PortalEntry

/-- A text of 32 characters that was never drawn before, and that names no customer. -/
def Fresh (text : String) (w : PortalWorld) : Prop :=
  text ∉ w.minted ∧ text.toList.length = 32 ∧ ∀ c ∈ w.db.customers, c.id ≠ newCustomerId text

instance (text : String) (w : PortalWorld) : Decidable (Fresh text w) :=
  inferInstanceAs (Decidable (_ ∧ _ ∧ _))

def execPortal (P : Platform) (fresh : String) (write : PortalWrite) (w : PortalWorld) :
    PortalResult × PortalWorld :=
  let r := write.apply P fresh w.log.length w.db
  (r.1, ⟨r.2, fresh :: w.minted, w.log ++ [⟨write, r.1, w.db, r.2⟩]⟩)

abbrev PortalProg := Prog PortalWorld PortalWrite PortalResult

inductive PortalCode where
  | account_link_required
  | account_suspended
  | config_error
  | customer_created
  | email_in_use
  | identity_unlinked
  | internal_error
  | invalid_credentials
  | invalid_email
  | invalid_link
  | invalid_otp
  | invalid_registration
  | last_sign_in_method
  | link_failed
  | mutation_failed
  | not_found
  | otp_requested
  | password_change_conflict
  | password_updated
  | rate_limited
  | reauth_required
  | redirected
  | sign_in_cancelled
  | sign_in_failed
  | signed_in
  | unauthorized
  | verification_requested
  | verified_sign_in_required
  | written
  deriving DecidableEq

/-! ## Texts -/

/-- A nonempty map of peppers. The first is the active one. -/
structure Peppers where
  active : String
  others : List String

def Peppers.all (peppers : Peppers) : List String := peppers.active :: peppers.others

def candidateHmacs (P : Platform) (peppers : Peppers) (message : String) : List String :=
  peppers.all.map fun pepper => P.hmac pepper message

def MAX_EMAIL_LENGTH : Nat := 320

def normalizeEmail (P : Platform) (email : String) : String :=
  P.toLowerCase (String.ofList (Webhook.trim email.toList))

/-- The characters of `EMAIL` on both sides of the `@`. -/
def emailChar (c : Char) : Bool :=
  !Webhook.whitespace c && !"@<>()[]\\,;:\"".toList.contains c &&
    !(c.toNat ≤ 0x1f || (0x7f ≤ c.toNat && c.toNat ≤ 0x9f))

/-- A dot with a character before it and one after it. -/
def innerDot : List Char → Bool
  | _ :: rest => (rest.dropLast).contains '.'
  | [] => false

def loginEmail (P : Platform) (value : String) : Option String :=
  let email := normalizeEmail P value
  match email.toList.splitOn '@' with
  | [user, domain] =>
    if utf16Length email ≤ 254 ∧ user ≠ [] ∧ user.all emailChar ∧ domain.all emailChar ∧
        innerDot domain then some email
    else none
  | _ => none

def validPassword (value : String) : Bool :=
  15 ≤ value.toList.length && value.toList.length ≤ 128 && (utf8 value.toList).length ≤ 512

/-- `/^[A-Za-z0-9_-]{43}$/`. -/
def token43 (value : String) : Bool :=
  value.toList.length = 43 && value.toList.all urlAlphabet.contains

/-- `/^[0-9]{8}$/`. -/
def code8 (value : String) : Bool :=
  value.toList.length = 8 && value.toList.all "0123456789".toList.contains

def base64Url (bytes : Bytes) : String := String.ofList (encode64 urlAlphabet bytes)

/-- The first four bytes as a number of eight digits. -/
def codeFromSecretBytes (bytes : Bytes) : String :=
  let n := (bytes.take 4).foldl (fun n b => n * 256 + b.toNat) 0 % 100000000
  String.ofList ((List.range 8).reverse.map fun i => Char.ofNat (48 + n / 10 ^ i % 10))

/-! ## Limits -/

/-- `portalRateLimit`: whether the request is limited. -/
def portalRateLimit (key : String) (limit : Nat) (period now : Int) : PortalProg Bool :=
  let windowStart := now / period * period
  Prog.request (.countRequest key windowStart (windowStart + period * 2)) >>= fun
    | some (.count n) =>
      if n = 1 then Prog.request (.sweepCounters now) >>= fun _ => pure (decide (limit < n))
      else pure (decide (limit < n))
    | _ => pure true

/-- Two limits, one after the other. -/
def limits (key₁ : String) (limit₁ : Nat) (key₂ : String) (limit₂ : Nat) (now : Int) :
    PortalProg Bool :=
  portalRateLimit key₁ limit₁ 900 now >>= fun limited =>
    if limited then pure true else portalRateLimit key₂ limit₂ 900 now

/-- The limits of a password action, by address and by the digest of the email. -/
def throttle (P : Platform) (clientIp email action : String) (byIp : Nat) (now : Int) :
    PortalProg Bool :=
  limits ("password:" ++ action ++ ":ip:" ++ clientIp) byIp
    ("password:" ++ action ++ ":email:" ++ P.sha256Hex email) 10 now

/-! ## Sessions -/

/-- The random parts of a session. -/
structure SessionDraw where
  id : String
  random : Bytes

def SESSION_PREFIX : String := "lccp_"

/-- `mintSession`. It has no value when the statement throws. -/
def mintSession (P : Platform) (peppers : Peppers) (draw : SessionDraw) (customerId : String)
    (authMethod : AuthMethod) (passwordHash : Option String) (now : Int) (proof : Proof) :
    PortalProg (Option Bool) :=
  let raw := SESSION_PREFIX ++ base64Url draw.random
  Prog.request (.mintSession ⟨draw.id, customerId, P.hmac peppers.active raw, authMethod,
      passwordHash, now, proof⟩) >>= fun
    | some (.returning ok) => pure (some ok)
    | _ => pure none

/-- The session of a cookie. -/
def resolveSession (P : Platform) (peppers : Peppers) (raw : String) (now : Int) (db : PortalDb) :
    Option PortalSession :=
  if raw.toList.take 5 = SESSION_PREFIX.toList ∧ 5 < raw.toList.length then
    (db.portal_sessions.find? fun s =>
      s.session_hmac ∈ candidateHmacs P peppers raw ∧ db.ActiveCustomer s.customer_id).filter
        fun s => s.status = .active ∧ now < s.expires_at
  else none

def recentSignIn (sessionId : String) (now : Int) (db : PortalDb) : Bool :=
  ∃ s ∈ db.portal_sessions, s.id = sessionId ∧ now - RECENT_SIGN_IN_SEC ≤ s.created_at

/-! ## Codes and links -/

structure OtpRequest where
  email : String
  clientIp : String
  now : Int
  id : String
  secretBytes : Bytes

def OTP_TTL_SEC : Int := 600

/-- `SELECT id FROM customers WHERE lower(email) = ? AND status = 'active' LIMIT 1`. -/
def activeByEmail (emailLower : String) (db : PortalDb) : Option String :=
  (db.customers.find? fun c => lower c.email = emailLower ∧ c.status = .active).map (·.id)

def requestOtp (P : Platform) (peppers : Option Peppers) (r : OtpRequest) :
    PortalProg PortalCode :=
  match peppers with
  | none => pure .config_error
  | some peppers =>
    let emailLower := normalizeEmail P r.email
    if utf16Length emailLower = 0 ∨ MAX_EMAIL_LENGTH < utf16Length emailLower then
      pure .otp_requested
    else
      limits ("request:email:" ++ emailLower) 5 ("request:ip:" ++ r.clientIp) 30 r.now >>=
        fun limited =>
      if limited then pure .rate_limited
      else
        Prog.query (fun w => activeByEmail emailLower w.db) >>= fun
        | none => pure .otp_requested
        | some customerId =>
          let code := codeFromSecretBytes r.secretBytes
          let row : PortalOtp := {
            id := r.id
            customer_id := customerId
            email_lower := emailLower
            secret_hmac := P.hmac peppers.active (base64Url r.secretBytes)
            code_hmac := P.hmac peppers.active (emailLower ++ ":" ++ code)
            attempt_count := 0
            consumed_at := none
            expires_at := r.now + OTP_TTL_SEC
            inserted := 0 }
          Prog.request (.supersedeOtp customerId r.now) >>= fun
          | none => pure .internal_error
          | some _ =>
            Prog.request (.insertOtp row) >>= fun
            | some .done => pure .otp_requested
            | _ => pure .internal_error

/-- A code with its email, or the secret of a link. -/
inductive OtpInput where
  | code (email code : String)
  | link (secret : String)

def claimedOr : Option PortalResult → PortalProg (Except PortalCode Claim)
  | some (.claimed (some claim)) => pure (.ok claim)
  | some (.claimed none) => pure (.error .invalid_otp)
  | _ => pure (.error .internal_error)

def redeemOtp (P : Platform) (peppers : Option Peppers) (input : OtpInput) (clientIp : String)
    (now : Int) : PortalProg (Except PortalCode Claim) :=
  match peppers with
  | none => pure (.error .config_error)
  | some peppers =>
    match input with
    | .link secret =>
      if secret = "" then pure (.error .invalid_otp)
      else portalRateLimit ("verify:ip:" ++ clientIp) 30 900 now >>= fun limited =>
        if limited then pure (.error .rate_limited)
        else Prog.request (.claimLink (candidateHmacs P peppers secret) now) >>= claimedOr
    | .code email code =>
      let emailLower := normalizeEmail P email
      if utf16Length emailLower = 0 ∨ MAX_EMAIL_LENGTH < utf16Length emailLower ∨
          code8 code = false then pure (.error .invalid_otp)
      else limits ("verify:ip:" ++ clientIp) 30 ("verify:email:" ++ emailLower) 10 now >>=
        fun limited =>
          if limited then pure (.error .rate_limited)
          else
            let candidates := candidateHmacs P peppers (emailLower ++ ":" ++ code)
            Prog.request (.claimCode candidates emailLower now) >>= claimedOr

/-- `redeemOtpSession`. -/
def redeemOtpSession (P : Platform) (otpPeppers sessionPeppers : Option Peppers)
    (input : OtpInput) (clientIp : String) (draw : SessionDraw) (now : Int) :
    PortalProg PortalCode :=
  match sessionPeppers with
  | none => pure .config_error
  | some sessionPeppers =>
    redeemOtp P otpPeppers input clientIp now >>= fun
    | .error code => pure code
    | .ok claim =>
      mintSession P sessionPeppers draw claim.customer_id .otp none now
          (.otp claim.row claim.redeemed) >>= fun
      | some true => pure .signed_in
      | some false => pure .config_error
      | none => pure .internal_error

/-! ## Providers -/

structure OauthStart where
  provider : Provider
  clientIp : String
  /-- The cookie of a link start. -/
  link : Option String
  state : String
  verifier : String
  nonce : String
  now : Int

def insertStateFor (P : Platform) (s : OauthStart) (linkSessionId : Option String) :
    PortalProg PortalCode :=
  let row : OauthState := {
    state_hash := P.sha256Url s.state
    provider := s.provider
    browser_hash := P.sha256Url s.verifier
    nonce := s.nonce
    link_session_id := linkSessionId
    expires_at := s.now + 600
    inserted := 0 }
  Prog.request (.sweepStates s.now) >>= fun
  | none => pure .internal_error
  | some _ =>
    Prog.request (.insertState row) >>= fun
    | some .done => pure .redirected
    | _ => pure .internal_error

def start (P : Platform) (sessionPeppers : Option Peppers) (s : OauthStart) :
    PortalProg PortalCode :=
  match sessionPeppers with
  | none => pure .config_error
  | some peppers =>
    portalRateLimit ("oauth:start:" ++ s.clientIp) 30 900 s.now >>= fun limited =>
    if limited then pure .rate_limited
    else
      match s.link with
      | none => insertStateFor P s none
      | some raw =>
        Prog.query (fun w => resolveSession P peppers raw s.now w.db) >>= fun
        | none => pure .unauthorized
        | some session =>
          Prog.query (fun w => recentSignIn session.id s.now w.db) >>= fun recent =>
          if recent then insertStateFor P s (some session.id) else pure .reauth_required

structure OauthCallback where
  provider : Provider
  clientIp : String
  state : String
  verifier : String
  /-- The provider reports an error. -/
  error : Bool
  code : String
  /-- The cookie of the session. -/
  cookie : Option String
  /-- What the exchange of the provider code gives. -/
  identity : Option Identity
  newCustomerId : String
  draw : SessionDraw
  now : Int

/-- The customer of an identity, with the status. -/
def identityOwner (identity : Identity) (db : PortalDb) : Option (String × CustomerStatus) :=
  (db.portal_identities.find? fun r =>
      r.provider = identity.provider ∧ r.subject = identity.subject).bind fun r =>
    (db.customers.find? fun c => c.id = r.customer_id).map fun c => (r.customer_id, c.status)

/-- The customer of a live session. -/
def sessionCustomer (sessionId : String) (now : Int) (db : PortalDb) : Option String :=
  (db.portal_sessions.find? fun s => s.id = sessionId ∧ s.status = .active ∧ now < s.expires_at ∧
    db.ActiveCustomer s.customer_id).map (·.customer_id)

/-- Some account has the address, as contact or as login. -/
def addressTaken (email : String) (db : PortalDb) : Bool :=
  db.HasEmail email ∨ ∃ p ∈ db.portal_passwords, p.email_lower = email

def identityCustomer (identity : Identity) (linkSessionId : Option String)
    (newCustomerId : String) (now : Int) : PortalProg (Except PortalCode String) :=
  Prog.query (fun w => identityOwner identity w.db) >>= fun existing =>
  match linkSessionId with
  | some sessionId =>
    Prog.query (fun w => sessionCustomer sessionId now w.db) >>= fun
    | none => pure (.error .sign_in_failed)
    | some customerId =>
      match existing with
      | some (owner, _) =>
        if owner ≠ customerId then pure (.error .sign_in_failed) else pure (.ok customerId)
      | none =>
        Prog.request (.linkIdentity identity sessionId now) >>= fun
        | some (.customer (some customerId)) => pure (.ok customerId)
        | _ => pure (.error .sign_in_failed)
  | none =>
    match existing with
    | some (owner, status) =>
      if status = .active then pure (.ok owner) else pure (.error .account_suspended)
    | none =>
      Prog.query (fun w => addressTaken identity.email w.db) >>= fun taken =>
      if taken then pure (.error .account_link_required)
      else
        Prog.request (.registerIdentity newCustomerId identity) >>= fun
        | some .done => pure (.ok newCustomerId)
        | _ => pure (.error .sign_in_failed)

/-- The session of a link flow is the one that started it, and it is recent. -/
def checkLink (P : Platform) (peppers : Peppers) (c : OauthCallback) (sessionId : String) :
    PortalProg (Option PortalCode) :=
  Prog.query (fun w => c.cookie.bind fun raw => resolveSession P peppers raw c.now w.db) >>= fun
  | none => pure (some .link_failed)
  | some session =>
    if session.id ≠ sessionId then pure (some .link_failed)
    else
      Prog.query (fun w => recentSignIn session.id c.now w.db) >>= fun recent =>
      pure (if recent then none else some .reauth_required)

/-- The end of a callback: the identity, its customer, and the session. -/
def finishCallback (P : Platform) (peppers : Peppers) (c : OauthCallback) (flow : Flow) :
    PortalProg PortalCode :=
  match c.identity with
  | none => pure .sign_in_failed
  | some identity =>
    identityCustomer identity flow.link_session_id c.newCustomerId c.now >>= fun
    | .error code => pure code
    | .ok customerId =>
      mintSession P peppers c.draw customerId .oauth none c.now (.oauth flow.row flow.redeemed)
        >>= fun
      | some true => pure .signed_in
      | _ => pure .sign_in_failed

def callback (P : Platform) (sessionPeppers : Option Peppers) (c : OauthCallback) :
    PortalProg PortalCode :=
  match sessionPeppers with
  | none => pure .config_error
  | some peppers =>
    if token43 c.state = false ∨ token43 c.verifier = false then pure .sign_in_failed
    else
      portalRateLimit ("oauth:callback:" ++ c.clientIp) 60 900 c.now >>= fun limited =>
      if limited then pure .rate_limited
      else
        Prog.request (.claimState (P.sha256Url c.state) c.provider (P.sha256Url c.verifier) c.now)
          >>= fun
        | some (.flow (some flow)) =>
          if c.error then pure .sign_in_cancelled
          else if c.code = "" ∨ 2048 < utf16Length c.code then pure .sign_in_failed
          else
            match flow.link_session_id with
            | none => finishCallback P peppers c flow
            | some sessionId =>
              checkLink P peppers c sessionId >>= fun
              | some code => pure code
              | none => finishCallback P peppers c flow
        | _ => pure .sign_in_failed

/-! ## Passwords -/

/-- The mint of a sign-in by password. -/
def signedIn (P : Platform) (peppers : Peppers) (draw : SessionDraw)
    (customerId passwordHash : String) (seen : Nat) (now : Int) : PortalProg PortalCode :=
  mintSession P peppers draw customerId .password (some passwordHash) now (.password seen) >>= fun
  | some true => pure .signed_in
  | some false => pure .invalid_credentials
  | none => pure .internal_error

/-- The credential of a login address, with the status of its customer. -/
def loginCredential (email : String) (db : PortalDb) :
    Option (PortalPassword × CustomerStatus) :=
  (db.portal_passwords.find? fun p => p.email_lower = email).bind fun p =>
    (db.customers.find? fun c => c.id = p.customer_id).map fun c => (p, c.status)

structure Login where
  email : String
  password : String
  clientIp : String
  draw : SessionDraw
  now : Int

def login (P : Platform) (peppers : Peppers) (r : Login) : PortalProg PortalCode :=
  match loginEmail P r.email with
  | none => pure .invalid_credentials
  | some email =>
    if validPassword r.password = false then pure .invalid_credentials
    else throttle P r.clientIp email "login" 30 r.now >>= fun limited =>
      if limited then pure .rate_limited
      else
        Prog.query (fun w => (loginCredential email w.db, w.log.length)) >>= fun
        | (none, _) => pure .invalid_credentials
        | (some (p, status), seen) =>
          if verifyPassword P r.password (some p.password_hash) = false then
            pure .invalid_credentials
          else if status ≠ .active then pure .account_suspended
          else signedIn P peppers r.draw p.customer_id p.password_hash seen r.now

/-- The row of the settings: the contact address, the method and the start of the session. -/
def settingsRow (sessionId : String) (now : Int) (db : PortalDb) :
    Option (String × AuthMethod × Int) :=
  (db.portal_sessions.find? fun s => s.id = sessionId ∧ s.status = .active ∧
      now < s.expires_at).bind fun s =>
    (db.customers.find? fun c => c.id = s.customer_id ∧ c.status = .active).map fun c =>
      (c.email, s.auth_method, s.created_at)

def credentialOf (customerId : String) (db : PortalDb) : Option PortalPassword :=
  db.portal_passwords.find? fun p => p.customer_id = customerId

structure Settings where
  cookie : String
  password : String
  current_password : Option String
  clientIp : String
  draw : SessionDraw
  now : Int

/-- A change without a recent sign-in proves the current password. -/
def provesCurrent (P : Platform) (r : Settings) (credential : Option PortalPassword) :
    Option PortalCode :=
  match credential with
  | none => some .verified_sign_in_required
  | some p =>
    match r.current_password with
    | none => some .invalid_credentials
    | some current =>
      if validPassword current && verifyPassword P current (some p.password_hash) then none
      else some .invalid_credentials

/-- The batch of the settings, and the session that follows it. -/
def changePassword (P : Platform) (peppers : Peppers) (r : Settings) (session : PortalSession)
    (email : String) (credential : Option PortalPassword) : PortalProg PortalCode :=
  Prog.request (.setPassword ⟨session.id, session.customer_id, email,
      credential.map (·.password_hash), r.password, r.now⟩) >>= fun
  | some (.password landed hash seen) =>
    if landed then signedIn P peppers r.draw session.customer_id hash seen r.now
    else pure .password_change_conflict
  | _ => pure .internal_error

/-- `POST` of `settings`. -/
def settings (P : Platform) (peppers : Peppers) (r : Settings) : PortalProg PortalCode :=
  Prog.query (fun w => resolveSession P peppers r.cookie r.now w.db) >>= fun
  | none => pure .unauthorized
  | some session =>
    Prog.query (fun w => settingsRow session.id r.now w.db) >>= fun
    | none => pure .unauthorized
    | some (contact, method, createdAt) =>
      Prog.query (fun w => credentialOf session.customer_id w.db) >>= fun credential =>
      if validPassword r.password = false then pure .invalid_registration
      else
        match credential.elim (loginEmail P contact) fun p => some p.email_lower with
        | none => pure .verified_sign_in_required
        | some email =>
          throttle P r.clientIp email "change" 30 r.now >>= fun limited =>
          if limited then pure .rate_limited
          else if method ≠ .password ∧ r.now - RECENT_SIGN_IN_SEC ≤ createdAt then
            changePassword P peppers r session email credential
          else
            match provesCurrent P r credential with
            | some code => pure code
            | none => changePassword P peppers r session email credential

/-- The ways to sign in that a deployment has configured: `passwordEnabled`, the providers
with a `providerConfig`, and codes that can be sent and redeemed. -/
structure SignInWays where
  password : Bool
  provider : Provider → Bool
  emailCodes : Bool

structure UnlinkRequest where
  cookie : String
  provider : Provider
  now : Int

/-- `unlink`. -/
def unlinkProvider (P : Platform) (ways : SignInWays) (peppers : Peppers) (r : UnlinkRequest) :
    PortalProg PortalCode :=
  Prog.query (fun w => resolveSession P peppers r.cookie r.now w.db) >>= fun
  | none => pure .unauthorized
  | some session =>
    Prog.query (fun w => decide (w.db.HasIdentity session.customer_id r.provider)) >>= fun linked =>
    if linked = false then pure .not_found
    else
      Prog.request (.unlink ⟨session.customer_id, session.id, r.provider, ways.password,
          ways.provider r.provider.other, ways.emailCodes, r.now⟩) >>= fun
      | some (.unlinked deleted linked signedIn) =>
        if deleted then pure .identity_unlinked
        else if linked = false then pure .not_found
        else if signedIn = false then pure .unauthorized
        else pure .last_sign_in_method
      | _ => pure .internal_error

/-- The credential of an address that can recover it: `RESET_ELIGIBLE_SQL`. -/
def resetCredential (email : String) (db : PortalDb) : Option PortalPassword :=
  db.portal_passwords.find? fun p => p.email_lower = email ∧ ∃ c ∈ db.customers,
    c.id = p.customer_id ∧ c.status = .active ∧
      (lower c.email = p.email_lower ∨ c.email = "" ∧ ¬ db.HasEmail p.email_lower)

structure LinkRequest where
  purpose : Purpose
  email : String
  clientIp : String
  token : String
  newCustomerId : String
  /-- The mail was sent, or it may have been. -/
  delivered : Bool
  now : Int

/-- `issueLink`. -/
def issueLink (P : Platform) (r : LinkRequest) (email : String) : PortalProg Unit :=
  Prog.query (fun w => resetCredential email w.db) >>= fun credential =>
  Prog.query (fun w => addressTaken email w.db) >>= fun existing =>
  if (r.purpose = .register ∧ existing = true) ∨ (r.purpose = .reset ∧ credential = none) then
    pure ()
  else
    let row : PasswordAction := {
      purpose := r.purpose
      email_lower := email
      customer_id := credential.elim r.newCustomerId (·.customer_id)
      credential_hash := if r.purpose = .reset then credential.map (·.password_hash) else none
      token_hash := P.sha256Hex r.token
      created_at := r.now
      expires_at := r.now + 900
      consumed_at := none
      claim := none
      inserted := 0 }
    Prog.request (.sweepActions r.now) >>= fun
    | none => pure ()
    | some _ =>
      Prog.request (.insertAction row) >>= fun
      | some .done =>
        if r.delivered then pure ()
        else Prog.request (.dropAction row.token_hash) >>= fun _ => pure ()
      | _ => pure ()

def requestLink (P : Platform) (r : LinkRequest) : PortalProg PortalCode :=
  match loginEmail P r.email with
  | none => pure .invalid_email
  | some email =>
    throttle P r.clientIp email (if r.purpose = .register then "register" else "reset")
        (if r.purpose = .register then 5 else 30) r.now >>= fun limited =>
    if limited then pure .rate_limited
    else portalRateLimit ("password:mail:" ++ P.sha256Hex email) 1 60 r.now >>= fun limited =>
      if limited then pure .rate_limited
      else issueLink P r email >>= fun _ => pure .verification_requested

structure CompleteRequest where
  token : String
  password : String
  clientIp : String
  draw : SessionDraw
  now : Int

def openAction (tokenHash : String) (now : Int) (db : PortalDb) : Option Action :=
  (db.portal_password_actions.find? fun a =>
    a.token_hash = tokenHash ∧ a.consumed_at = none ∧ now < a.expires_at).map (·.toAction)

/-- `complete`. A credential that is written is never reported as a failed sign-in. -/
def completeAction (P : Platform) (peppers : Peppers) (r : CompleteRequest) :
    PortalProg PortalCode :=
  if token43 r.token = false then pure .invalid_link
  else if validPassword r.password = false then pure .invalid_registration
  else
    let tokenHash := P.sha256Hex r.token
    limits ("password:complete:ip:" ++ r.clientIp) 10 ("password:complete:token:" ++ tokenHash) 5
      r.now >>= fun limited =>
    if limited then pure .rate_limited
    else
      Prog.query (fun w => openAction tokenHash r.now w.db) >>= fun
      | none => pure .invalid_link
      | some action =>
        Prog.request (.complete ⟨tokenHash, action, r.password, r.now⟩) >>= fun
        | some (.password landed hash seen) =>
          if landed then
            signedIn P peppers r.draw action.customer_id hash seen r.now >>= fun code =>
            pure (if code = .signed_in then .signed_in else .password_updated)
          else pure .invalid_link
        | _ => pure .internal_error

/-- `POST /api/admin/customers` of the admin API. -/
def createCustomerRequest (email password : String) : PortalProg PortalCode :=
  Prog.query (fun w => addressTaken email w.db) >>= fun existing =>
  if existing then pure .email_in_use
  else
    Prog.request (.createCustomer email password) >>= fun
    | some .done => pure .customer_created
    | _ => pure .mutation_failed

/-! ## The system -/

/-- A statement of a logout, of a disconnect, of the maintenance, or of what else changes
customers. -/
def PortalWrite.Outside : PortalWrite → Prop
  | unlink _ | revokeSession .. | sweepOtp _ | sweepSessions _ | customers _ => True
  | _ => False

inductive PortalRun (P : Platform) : PortalProg PortalCode → Prop
  | requestOtp (peppers : Option Peppers) (r : OtpRequest) : PortalRun P (requestOtp P peppers r)
  | redeemOtpSession (otpPeppers sessionPeppers : Option Peppers) (input : OtpInput)
      (clientIp : String) (draw : SessionDraw) (now : Int) :
      PortalRun P (redeemOtpSession P otpPeppers sessionPeppers input clientIp draw now)
  | start (peppers : Option Peppers) (s : OauthStart) : PortalRun P (start P peppers s)
  | callback (peppers : Option Peppers) (c : OauthCallback) : PortalRun P (callback P peppers c)
  | login (peppers : Peppers) (r : Login) : PortalRun P (login P peppers r)
  | settings (peppers : Peppers) (r : Settings) : PortalRun P (settings P peppers r)
  | requestLink (r : LinkRequest) : PortalRun P (requestLink P r)
  | complete (peppers : Peppers) (r : CompleteRequest) : PortalRun P (completeAction P peppers r)
  | createCustomer (email password : String) : PortalRun P (createCustomerRequest email password)
  | outside (write : PortalWrite) : write.Outside →
      PortalRun P (Prog.request write >>= fun _ => pure .written)

/-- All requests at once. -/
def portalSystem (P : Platform) : System PortalWorld PortalWrite PortalResult String PortalCode :=
  ⟨execPortal P, Fresh, PortalRun P⟩

/-- A database before the portal has its first proof and its first session. The salts of
its passwords were drawn. -/
structure Opened (w : PortalWorld) : Prop where
  log : w.log = []
  sessions : w.db.portal_sessions.rows = []
  otp : w.db.portal_otp.rows = []
  states : w.db.portal_oauth_states.rows = []
  actions : w.db.portal_password_actions.rows = []
  salts : ∀ p ∈ w.db.portal_passwords, ∃ salt ∈ w.minted, salt.toList.length = 32 ∧
    ∃ digest, p.password_hash = PREFIX ++ "$" ++ salt ++ "$" ++ digest

end Licensecc.Portal
