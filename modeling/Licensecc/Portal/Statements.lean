-- The statements and batches of the portal, with those of the admin API and of the
-- maintenance that touch its tables. Each runs at one place of the log and draws at most
-- one random text.
import Licensecc.Portal.Store

open Licensecc.Sql

namespace Licensecc.Portal

def MAX_ATTEMPTS : Nat := 5

def SESSION_TTL_SEC : Int := 86400

def RECENT_SIGN_IN_SEC : Int := 600

/-- What the platform computes. The digests are SHA-256 as hex digits and as base64url. -/
structure Platform where
  hmac : String → String → String
  sha256Hex : String → String
  sha256Url : String → String
  scrypt : String → String → String
  toLowerCase : String → String

/-! ## Passwords -/

def PREFIX : String := "scrypt-32768-8-3"

/-- `hashPassword` with the salt that it draws, as hex digits. -/
def hashPassword (P : Platform) (salt password : String) : String :=
  PREFIX ++ "$" ++ salt ++ "$" ++ P.scrypt password salt

def lowerHex (c : Char) : Bool := "0123456789abcdef".toList.contains c

/-- The salt and the digest of a stored hash. -/
def parseHash (stored : String) : Option (String × String) :=
  let start := PREFIX.toList ++ ['$']
  let rest := stored.toList.drop start.length
  let salt := rest.take 32
  let digest := rest.drop 33
  if stored.toList.take start.length = start ∧ salt.length = 32 ∧ salt.all lowerHex ∧
      rest[32]? = some '$' ∧ digest.length = 64 ∧ digest.all lowerHex then
    some (String.ofList salt, String.ofList digest)
  else none

def verifyPassword (P : Platform) (password : String) (stored : Option String) : Bool :=
  match stored.bind parseHash with
  | some (salt, digest) => P.scrypt password salt = digest
  | none => false

/-! ## Writes -/

structure MintSession where
  id : String
  customer_id : String
  session_hmac : String
  authMethod : AuthMethod
  passwordHash : Option String
  now : Int
  proof : Proof

structure Identity where
  provider : Provider
  subject : String
  email : String

structure Unlink where
  customer_id : String
  session_id : String
  provider : Provider
  passwordEnabled : Bool
  otherEnabled : Bool
  emailCodes : Bool
  now : Int

/-- The batch of a password that a signed-in customer sets. -/
structure PasswordChange where
  session_id : String
  customer_id : String
  email : String
  credential : Option String
  password : String
  now : Int

/-- The batch of a password that comes with an emailed link. -/
structure Completion where
  tokenHash : String
  action : Action
  password : String
  now : Int

inductive PortalWrite where
  | countRequest (key : String) (windowStart expiresAt : Int)
  | sweepCounters (now : Int)
  | supersedeOtp (customer_id : String) (now : Int)
  | insertOtp (row : PortalOtp)
  | claimLink (candidates : List String) (now : Int)
  | claimCode (candidates : List String) (emailLower : String) (now : Int)
  | mintSession (m : MintSession)
  | sweepStates (now : Int)
  | insertState (row : OauthState)
  | claimState (stateHash : String) (provider : Provider) (browserHash : String) (now : Int)
  | linkIdentity (identity : Identity) (sessionId : String) (now : Int)
  | registerIdentity (customerId : String) (identity : Identity)
  | unlink (u : Unlink)
  | setPassword (c : PasswordChange)
  | sweepActions (now : Int)
  | insertAction (row : PasswordAction)
  | dropAction (tokenHash : String)
  | complete (c : Completion)
  | createCustomer (email password : String)
  | revokeSession (sessionId customerId : String)
  | sweepOtp (now : Int)
  | sweepSessions (now : Int)
  | customers (table : Table Customer)

/-- A claimed code or link. Only the customer comes back from the statement. -/
structure Claim where
  customer_id : String
  row : Nat
  redeemed : Nat
  deriving DecidableEq

/-- A claimed state. -/
structure Flow where
  nonce : String
  link_session_id : Option String
  row : Nat
  redeemed : Nat
  deriving DecidableEq

inductive PortalResult where
  | done
  | aborted
  | count (n : Nat)
  | claimed (claim : Option Claim)
  | flow (flow : Option Flow)
  | returning (landed : Bool)
  | customer (id : Option String)
  | password (landed : Bool) (hash : String) (seen : Nat)
  | unlinked (deleted linked signedIn : Bool)
  deriving DecidableEq

/-! ## Codes and links -/

/-- The row can still sign in. -/
def PortalOtp.Live (now : Int) (r : PortalOtp) : Prop :=
  r.consumed_at = none ∧ now < r.expires_at ∧ r.attempt_count < MAX_ATTEMPTS

instance (now : Int) (r : PortalOtp) : Decidable (r.Live now) :=
  inferInstanceAs (Decidable (_ ∧ _ ∧ _))

/-- The row that a link selects. -/
def linkRow (candidates : List String) (now : Int) (db : PortalDb) : Option PortalOtp :=
  db.portal_otp.find? fun r => r.secret_hmac ∈ candidates ∧ r.Live now

def claimLink (candidates : List String) (now : Int) (n : Nat) (db : PortalDb) :
    PortalResult × PortalDb :=
  match linkRow candidates now db with
  | none => (.claimed none, db)
  | some row =>
    let t := updateOtp (fun r => if r.id = row.id then r.attempt_count + 1 else r.attempt_count)
      (fun r => if r.id = row.id then some now else r.consumed_at) db.portal_otp
    (.claimed (some ⟨row.customer_id, row.inserted, n⟩), { db with portal_otp := t })

/-- The rows that a code is compared with. -/
def PortalOtp.Guessed (emailLower : String) (now : Int) (r : PortalOtp) : Prop :=
  r.email_lower = emailLower ∧ r.Live now

instance (emailLower : String) (now : Int) (r : PortalOtp) : Decidable (r.Guessed emailLower now) :=
  inferInstanceAs (Decidable (_ ∧ _))

def claimCode (candidates : List String) (emailLower : String) (now : Int) (n : Nat)
    (db : PortalDb) : PortalResult × PortalDb :=
  let claimed := db.portal_otp.find? fun r => r.Guessed emailLower now ∧ r.code_hmac ∈ candidates
  let t := updateOtp
    (fun r => if r.Guessed emailLower now then r.attempt_count + 1 else r.attempt_count)
    (fun r => if r.Guessed emailLower now then if r.code_hmac ∈ candidates then some now else none
      else r.consumed_at) db.portal_otp
  (.claimed (claimed.map fun row => ⟨row.customer_id, row.inserted, n⟩), { db with portal_otp := t })

def insertOtp (row : PortalOtp) (n : Nat) (db : PortalDb) : Except Abort PortalDb := do
  require (∃ c ∈ db.customers, c.id = row.customer_id)
  let t ← db.portal_otp.insert { row with attempt_count := 0, consumed_at := none, inserted := n }
  return { db with portal_otp := t }

/-! ## Sessions -/

/-- The guard of the insert: the customer is active and, for a sign-in by password, the
password is the one that was verified. -/
def MintSession.Guard (m : MintSession) (db : PortalDb) : Prop :=
  db.ActiveCustomer m.customer_id ∧ ∀ hash ∈ m.passwordHash,
    ∃ p ∈ db.portal_passwords, p.customer_id = m.customer_id ∧ p.password_hash = hash

instance (m : MintSession) (db : PortalDb) : Decidable (m.Guard db) :=
  inferInstanceAs (Decidable (_ ∧ ∀ _ ∈ _, _))

def MintSession.row (m : MintSession) : PortalSession where
  id := m.id
  customer_id := m.customer_id
  session_hmac := m.session_hmac
  status := .active
  created_at := m.now
  expires_at := m.now + SESSION_TTL_SEC
  auth_method := m.authMethod
  proof := m.proof

def insertSession (m : MintSession) (db : PortalDb) : Except Abort (Bool × PortalDb) :=
  if m.Guard db then do
    let t ← db.portal_sessions.insert m.row
    return (true, { db with portal_sessions := t })
  else return (false, db)

/-- A `DELETE` of sessions with its cascade. -/
def PortalDb.keepSessions (db : PortalDb) (p : PortalSession → Prop) [DecidablePred p] :
    PortalDb :=
  let t := db.portal_sessions.keep p
  { db with
    portal_sessions := t
    portal_oauth_states := db.portal_oauth_states.keep fun r =>
      ∀ id ∈ r.link_session_id, ∃ s ∈ t, s.id = id }

/-! ## Identities -/

def insertState (row : OauthState) (n : Nat) (db : PortalDb) : Except Abort PortalDb := do
  require (∀ id ∈ row.link_session_id, ∃ s ∈ db.portal_sessions, s.id = id)
  let t ← db.portal_oauth_states.insert { row with inserted := n }
  return { db with portal_oauth_states := t }

/-- The rows that a callback selects. -/
def OauthState.Selected (stateHash : String) (provider : Provider) (browserHash : String)
    (now : Int) (r : OauthState) : Prop :=
  r.state_hash = stateHash ∧ r.provider = provider ∧ r.browser_hash = browserHash ∧
    now < r.expires_at

instance (stateHash : String) (provider : Provider) (browserHash : String) (now : Int)
    (r : OauthState) : Decidable (r.Selected stateHash provider browserHash now) :=
  inferInstanceAs (Decidable (_ ∧ _ ∧ _ ∧ _))

def claimState (stateHash : String) (provider : Provider) (browserHash : String) (now : Int)
    (n : Nat) (db : PortalDb) : PortalResult × PortalDb :=
  let claimed := db.portal_oauth_states.find? (·.Selected stateHash provider browserHash now)
  (.flow (claimed.map fun r => ⟨r.nonce, r.link_session_id, r.inserted, n⟩),
    { db with portal_oauth_states :=
        db.portal_oauth_states.keep fun r => ¬ r.Selected stateHash provider browserHash now })

def Identity.row (identity : Identity) (customerId : String) : PortalIdentity :=
  ⟨identity.provider, identity.subject, customerId, identity.email⟩

def linkIdentity (identity : Identity) (sessionId : String) (now : Int) (db : PortalDb) :
    Except Abort (Option String × PortalDb) :=
  match db.portal_sessions.find? fun s => s.id = sessionId ∧ s.status = .active ∧
      now < s.expires_at ∧ now - RECENT_SIGN_IN_SEC ≤ s.created_at ∧
      db.ActiveCustomer s.customer_id with
  | none => return (none, db)
  | some s => do
    let t ← db.portal_identities.insert (identity.row s.customer_id)
    return (some s.customer_id, { db with portal_identities := t })

def registerIdentity (customerId : String) (identity : Identity) (db : PortalDb) :
    Except Abort PortalDb := do
  let customers ← db.customers.insert ⟨customerId, identity.email, .active⟩
  let identities ← db.portal_identities.insert (identity.row customerId)
  return { db with customers := customers, portal_identities := identities }

def Provider.other : Provider → Provider
  | google => github
  | github => google

def PortalDb.HasIdentity (db : PortalDb) (customerId : String) (provider : Provider) : Prop :=
  ∃ r ∈ db.portal_identities, r.customer_id = customerId ∧ r.provider = provider

instance (db : PortalDb) (customerId : String) (provider : Provider) :
    Decidable (db.HasIdentity customerId provider) := inferInstanceAs (Decidable (∃ _ ∈ _, _))

/-- Another way in is usable: `email <> '' AND instr(email, '@') > 1` for codes. -/
def Unlink.OtherWay (u : Unlink) (db : PortalDb) : Prop :=
  (u.passwordEnabled = true ∧ ∃ p ∈ db.portal_passwords, p.customer_id = u.customer_id) ∨
  (u.otherEnabled = true ∧ db.HasIdentity u.customer_id u.provider.other) ∨
  (u.emailCodes = true ∧ ∃ c ∈ db.customers, c.id = u.customer_id ∧
    '@' ∈ c.email.toList ∧ c.email.toList.head? ≠ some '@')

instance (u : Unlink) (db : PortalDb) : Decidable (u.OtherWay db) :=
  inferInstanceAs (Decidable (_ ∨ _ ∨ _))

/-- The rows that the `DELETE` selects. -/
def Unlink.Selects (u : Unlink) (db : PortalDb) (r : PortalIdentity) : Prop :=
  r.customer_id = u.customer_id ∧ r.provider = u.provider ∧
    db.LiveSession u.session_id u.customer_id u.now ∧ u.OtherWay db

instance (u : Unlink) (db : PortalDb) : DecidablePred (u.Selects db) :=
  fun _ => inferInstanceAs (Decidable (_ ∧ _ ∧ _ ∧ _))

/-- The sessions that the second statement revokes, for the `changes()` of the first. -/
def Unlink.Revokes (u : Unlink) (changes : Nat) (db : PortalDb) (s : PortalSession) : Prop :=
  changes = 1 ∧ s.customer_id = u.customer_id ∧ s.auth_method = .oauth ∧ s.id ≠ u.session_id ∧
    s.status = .active ∧ ¬ db.HasIdentity u.customer_id u.provider

instance (u : Unlink) (changes : Nat) (db : PortalDb) : DecidablePred (u.Revokes changes db) :=
  fun _ => inferInstanceAs (Decidable (_ ∧ _ ∧ _ ∧ _ ∧ _ ∧ _))

def unlink (u : Unlink) (db : PortalDb) : PortalResult × PortalDb :=
  let deleted := db.portal_identities.count (u.Selects db)
  let identities := db.portal_identities.keep fun r => ¬ u.Selects db r
  let db₁ := { db with portal_identities := identities }
  let sessions := revokeSessions (u.Revokes deleted db₁) db₁.portal_sessions
  let db₂ := { db₁ with portal_sessions := sessions }
  (.unlinked (0 < deleted) (db₂.HasIdentity u.customer_id u.provider)
    (db₂.LiveSession u.session_id u.customer_id u.now), db₂)

/-! ## Password batches -/

/-- `changed` of `passwordInvalidations`. -/
def PortalDb.HasHash (db : PortalDb) (customerId hash : String) : Prop :=
  ∃ p ∈ db.portal_passwords, p.customer_id = customerId ∧ p.password_hash = hash

instance (db : PortalDb) (customerId hash : String) : Decidable (db.HasHash customerId hash) :=
  inferInstanceAs (Decidable (∃ _ ∈ _, _))

/-- The statements that follow the write of a password in its batch. -/
def passwordInvalidations (customerId passwordHash : String) (now : Int) (email : Option String)
    (db : PortalDb) : PortalDb :=
  { db with
    portal_sessions := revokeSessions
      (fun s => s.customer_id = customerId ∧ db.HasHash customerId passwordHash) db.portal_sessions
    portal_otp := consumeOtp now (fun r => r.customer_id = customerId ∧ r.consumed_at = none ∧
      db.HasHash customerId passwordHash) db.portal_otp
    portal_password_actions := updateActions (fun a => if some a.email_lower = email ∧
        a.consumed_at = none ∧ db.HasHash customerId passwordHash then some now else a.consumed_at)
      (·.claim) db.portal_password_actions }

/-- The row that a change of a password selects. -/
def PasswordChange.Selects (c : PasswordChange) (db : PortalDb) (p : PortalPassword) : Prop :=
  p.customer_id = c.customer_id ∧ some p.password_hash = c.credential ∧
    db.LiveSession c.session_id c.customer_id c.now

instance (c : PasswordChange) (db : PortalDb) : DecidablePred (c.Selects db) :=
  fun _ => inferInstanceAs (Decidable (_ ∧ _ ∧ _))

/-- The first statement: an `UPDATE` of the credential that was read, or an `INSERT .. ON
CONFLICT DO NOTHING` when there was none. -/
def PasswordChange.write (c : PasswordChange) (hash : String) (db : PortalDb) :
    Bool × Table PortalPassword :=
  if c.credential = none then
    if db.LiveSession c.session_id c.customer_id c.now then
      match db.portal_passwords.insert ⟨c.customer_id, c.email, hash⟩ with
      | .ok t => (true, t)
      | .error _ => (false, db.portal_passwords)
    else (false, db.portal_passwords)
  else (∃ p ∈ db.portal_passwords, c.Selects db p, setHash hash (c.Selects db) db.portal_passwords)

def setPassword (P : Platform) (salt : String) (n : Nat) (c : PasswordChange) (db : PortalDb) :
    PortalResult × PortalDb :=
  let hash := hashPassword P salt c.password
  let w := c.write hash db
  (.password w.1 hash (n + 1),
    passwordInvalidations c.customer_id hash c.now none { db with portal_passwords := w.2 })

/-- The action that a completion takes. -/
def Completion.Takes (c : Completion) (a : PasswordAction) : Prop :=
  a.token_hash = c.tokenHash ∧ a.consumed_at = none ∧ c.now < a.expires_at

instance (c : Completion) : DecidablePred c.Takes :=
  fun _ => inferInstanceAs (Decidable (_ ∧ _ ∧ _))

/-- The first statement of the batch. -/
def Completion.take (c : Completion) (claim : String) (t : Table PasswordAction) :
    Table PasswordAction :=
  updateActions (fun a => if c.Takes a then some c.now else a.consumed_at)
    (fun a => if c.Takes a then some claim else a.claim) t

/-- `claimed` of the batch. -/
def Completion.Claimed (c : Completion) (claim : String) (t : Table PasswordAction) : Prop :=
  ∃ a ∈ t, a.token_hash = c.tokenHash ∧ a.claim = some claim

instance (c : Completion) (claim : String) (t : Table PasswordAction) :
    Decidable (c.Claimed claim t) := inferInstanceAs (Decidable (∃ _ ∈ _, _))

/-- Some customer has the address. -/
def PortalDb.HasEmail (db : PortalDb) (email : String) : Prop :=
  ∃ o ∈ db.customers, lower o.email = email

instance (db : PortalDb) (email : String) : Decidable (db.HasEmail email) :=
  inferInstanceAs (Decidable (∃ _ ∈ _, _))

/-- The row that a reset selects. -/
def Completion.Resets (c : Completion) (claimed : Prop) (db : PortalDb) (p : PortalPassword) :
    Prop :=
  p.customer_id = c.action.customer_id ∧ p.email_lower = c.action.email_lower ∧
    some p.password_hash = c.action.credential_hash ∧ claimed ∧
    ∃ o ∈ db.customers, o.id = c.action.customer_id ∧ o.status = .active ∧
      (lower o.email = c.action.email_lower ∨ o.email = "" ∧ ¬ db.HasEmail c.action.email_lower)

instance (c : Completion) (claimed : Prop) [Decidable claimed] (db : PortalDb) :
    DecidablePred (c.Resets claimed db) := fun _ => inferInstanceAs (Decidable (_ ∧ _ ∧ _ ∧ _ ∧ _))

/-- `INSERT INTO .. SELECT .. WHERE`. -/
def insertIf {ρ : Type} [Schema ρ] (p : Prop) [Decidable p] (row : ρ) (t : Table ρ) :
    Except Abort (Table ρ) := if p then t.insert row else .ok t

/-- The statements that write the credential of a registration. -/
def Completion.register (c : Completion) (claimed : Prop) [Decidable claimed] (hash : String)
    (db : PortalDb) : Except Abort (Bool × PortalDb) := do
  let a := c.action
  let customers ← insertIf (claimed ∧ ¬ db.HasEmail a.email_lower ∧
      ¬ ∃ p ∈ db.portal_passwords, p.email_lower = a.email_lower)
    ⟨a.customer_id, a.email_lower, .active⟩ db.customers
  let db₁ := { db with customers := customers }
  if claimed ∧ db₁.ActiveCustomer a.customer_id then do
    let passwords ← db.portal_passwords.insert ⟨a.customer_id, a.email_lower, hash⟩
    return (true, { db₁ with portal_passwords := passwords })
  else return (false, db₁)

/-- The statements that write the credential of a reset and record the contact address. -/
def Completion.reset (c : Completion) (claimed : Prop) [Decidable claimed] (hash : String)
    (db : PortalDb) : Except Abort (Bool × PortalDb) := do
  let a := c.action
  let db₁ := { db with portal_passwords := setHash hash (c.Resets claimed db) db.portal_passwords }
  let (_, customers) ← db.customers.update c.now
    (fun o => o.id = a.customer_id ∧ o.email = "" ∧ db₁.HasHash a.customer_id hash ∧
      ¬ db.HasEmail a.email_lower) fun o => { o with email := a.email_lower }
  return (∃ p ∈ db.portal_passwords, c.Resets claimed db p, { db₁ with customers := customers })

def complete (P : Platform) (fresh : String) (c : Completion) (db : PortalDb) :
    Except Abort (Bool × PortalDb) := do
  let hash := hashPassword P fresh c.password
  let actions := c.take fresh db.portal_password_actions
  let db₁ := { db with portal_password_actions := actions }
  let (landed, db₂) ← match c.action.purpose with
    | .register => c.register (c.Claimed fresh actions) hash db₁
    | .reset => c.reset (c.Claimed fresh actions) hash db₁
  return (landed, passwordInvalidations c.action.customer_id hash c.now (some c.action.email_lower)
    db₂)

def insertAction (row : PasswordAction) (n : Nat) (db : PortalDb) : Except Abort PortalDb := do
  let t ← db.portal_password_actions.insert
    { row with consumed_at := none, claim := none, inserted := n }
  return { db with portal_password_actions := t }

/-- The id of a customer that the admin API creates. -/
def newCustomerId (fresh : String) : String := "cust_" ++ fresh

/-- The batch of the admin API that creates a customer with a login. -/
def createCustomer (P : Platform) (fresh email password : String) (db : PortalDb) :
    Except Abort PortalDb := do
  let id := newCustomerId fresh
  let customers ← insertIf (¬ db.HasEmail email) ⟨id, "", .active⟩ db.customers
  require (∃ c ∈ customers, c.id = id)
  let passwords ← db.portal_passwords.insert ⟨id, email, hashPassword P fresh password⟩
  return { db with customers := customers, portal_passwords := passwords }

/-! ## Counters -/

/-- The counter after one more request. -/
def bump (key : String) (windowStart expiresAt : Int) : List RateCounter → Nat × List RateCounter
  | [] => (1, [⟨key, windowStart, 1, expiresAt⟩])
  | r :: rest =>
    if r.rate_key = key ∧ r.window_start = windowStart then
      let r' := { r with request_count := r.request_count + 1, expires_at := expiresAt }
      (r'.request_count, r' :: rest)
    else
      let b := bump key windowStart expiresAt rest
      (b.1, r :: b.2)

/-! ## All writes -/

/-- What a statement that can throw gives. -/
def attempt {α : Type} (x : Except Abort (α × PortalDb)) (f : α → PortalResult) (db : PortalDb) :
    PortalResult × PortalDb :=
  match x with
  | .ok r => (f r.1, r.2)
  | .error _ => (.aborted, db)

/-- The result of a write and the database after it. -/
def PortalWrite.apply (P : Platform) (fresh : String) (n : Nat) (db : PortalDb) :
    PortalWrite → PortalResult × PortalDb
  | countRequest key windowStart expiresAt =>
    let b := bump key windowStart expiresAt db.rate_limit_counters
    (.count b.1, { db with rate_limit_counters := b.2 })
  | sweepCounters now =>
    (.done, { db with rate_limit_counters :=
      db.rate_limit_counters.filter fun r => ¬ r.expires_at < now })
  | supersedeOtp customer_id now =>
    let t := consumeOtp now (fun r => r.customer_id = customer_id ∧ r.consumed_at = none)
      db.portal_otp
    (.done, { db with portal_otp := t })
  | insertOtp row => attempt ((Portal.insertOtp row n db).map ((), ·)) (fun _ => .done) db
  | claimLink candidates now => Portal.claimLink candidates now n db
  | claimCode candidates emailLower now => Portal.claimCode candidates emailLower now n db
  | mintSession m => attempt (insertSession m db) .returning db
  | sweepStates now =>
    (.done, { db with portal_oauth_states :=
      db.portal_oauth_states.keep fun r => ¬ r.expires_at ≤ now })
  | insertState row => attempt ((Portal.insertState row n db).map ((), ·)) (fun _ => .done) db
  | claimState stateHash provider browserHash now =>
    Portal.claimState stateHash provider browserHash now n db
  | linkIdentity identity sessionId now =>
    attempt (Portal.linkIdentity identity sessionId now db) .customer db
  | registerIdentity customerId identity =>
    attempt ((Portal.registerIdentity customerId identity db).map ((), ·)) (fun _ => .done) db
  | unlink u => Portal.unlink u db
  | setPassword c => Portal.setPassword P fresh n c db
  | sweepActions now =>
    (.done, { db with portal_password_actions :=
      db.portal_password_actions.keep fun a => ¬ a.expires_at ≤ now })
  | insertAction row => attempt ((Portal.insertAction row n db).map ((), ·)) (fun _ => .done) db
  | dropAction tokenHash =>
    (.done, { db with portal_password_actions := db.portal_password_actions.keep fun a =>
      ¬ (a.token_hash = tokenHash ∧ a.consumed_at = none) })
  | complete c => attempt (Portal.complete P fresh c db)
      (fun landed => .password landed (hashPassword P fresh c.password) (n + 1)) db
  | createCustomer email password =>
    attempt ((Portal.createCustomer P fresh email password db).map ((), ·)) (fun _ => .done) db
  | revokeSession sessionId customerId =>
    let t := revokeSessions (fun s => s.id = sessionId ∧ s.customer_id = customerId ∧
      s.status = .active) db.portal_sessions
    (.done, { db with portal_sessions := t })
  | sweepOtp now =>
    (.done, { db with portal_otp := db.portal_otp.keep fun r => ¬ r.expires_at < now })
  | sweepSessions now =>
    (.done, db.keepSessions fun s => ¬ (s.status = .revoked ∨ s.expires_at < now))
  | customers table =>
    if ∀ c ∈ db.customers, ∃ c' ∈ table, c'.id = c.id then (.done, { db with customers := table })
    else (.done, db)

end Licensecc.Portal
