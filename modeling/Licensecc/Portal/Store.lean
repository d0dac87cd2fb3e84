-- The database of the customer portal: customers, their passwords and identities, the
-- sessions, and the proofs that sign a customer in once. The rows of one-time proofs
-- have the number of their insert, which no statement reads.
import Licensecc.Schema.Grants
import Licensecc.Sql.Budget

open Licensecc.Sql

namespace Licensecc.Portal

/-! ## Rows -/

/-- `lower` of SQLite, which knows only ASCII. -/
def lower (s : String) : String := String.ofList (s.toList.map Char.toLower)

/-- A row of `customers` as the portal reads it. -/
structure Customer where
  id : String
  email : String
  status : CustomerStatus

instance : Schema Customer where
  check _ := True
  clash a b := a.id = b.id ∨ a.email ≠ "" ∧ b.email ≠ "" ∧ lower a.email = lower b.email
  clash_symm := fun h => h.imp Eq.symm fun h => ⟨h.2.1, h.1, h.2.2.symm⟩
  decCheck := fun _ => inferInstance
  decClash := fun _ _ => inferInstance

structure PortalPassword where
  customer_id : String
  email_lower : String
  password_hash : String

instance : Schema PortalPassword where
  check _ := True
  clash a b := a.customer_id = b.customer_id ∨ a.email_lower = b.email_lower
  clash_symm := fun h => h.imp Eq.symm Eq.symm
  decCheck := fun _ => inferInstance
  decClash := fun _ _ => inferInstance

inductive AuthMethod where
  | otp
  | oauth
  | password
  deriving DecidableEq

/-- What a session was minted from. A code or a link is a row of `portal_otp`, and the
identity of a provider comes with a row of `portal_oauth_states`: each has the number of
its insert and the place in the log at which it was redeemed. A password hash was seen
when the log had this length. -/
inductive Proof where
  | otp (row redeemed : Nat)
  | oauth (row redeemed : Nat)
  | password (seen : Nat)
  deriving DecidableEq

/-- The length of the log when the proof was obtained: a code when it was issued, an
identity when the callback has redeemed its state, and a password when its hash was read. -/
def Proof.obtained : Proof → Nat
  | otp row _ => row + 1
  | oauth _ redeemed => redeemed + 1
  | password seen => seen

inductive SessionStatus where
  | active
  | revoked
  deriving DecidableEq

structure PortalSession where
  id : String
  customer_id : String
  session_hmac : String
  status : SessionStatus
  created_at : Int
  expires_at : Int
  auth_method : AuthMethod
  proof : Proof

instance : Schema PortalSession where
  check _ := True
  clash a b := a.id = b.id ∨ a.session_hmac = b.session_hmac
  clash_symm := fun h => h.imp Eq.symm Eq.symm
  decCheck := fun _ => inferInstance
  decClash := fun _ _ => inferInstance

structure PortalOtp where
  id : String
  customer_id : String
  email_lower : String
  secret_hmac : String
  code_hmac : String
  attempt_count : Nat
  consumed_at : Option Int
  expires_at : Int
  inserted : Nat
  deriving DecidableEq

instance : Schema PortalOtp where
  check _ := True
  clash a b := a.id = b.id ∨ a.secret_hmac = b.secret_hmac ∨ a.code_hmac = b.code_hmac
  clash_symm := fun h => h.imp Eq.symm fun h => h.imp Eq.symm Eq.symm
  decCheck := fun _ => inferInstance
  decClash := fun _ _ => inferInstance

inductive Provider where
  | google
  | github
  deriving DecidableEq

structure OauthState where
  state_hash : String
  provider : Provider
  browser_hash : String
  nonce : String
  link_session_id : Option String
  expires_at : Int
  inserted : Nat

instance : Schema OauthState where
  check _ := True
  clash a b := a.state_hash = b.state_hash
  clash_symm := Eq.symm
  decCheck := fun _ => inferInstance
  decClash := fun _ _ => inferInstance

structure PortalIdentity where
  provider : Provider
  subject : String
  customer_id : String
  email : String

instance : Schema PortalIdentity where
  check _ := True
  clash a b := (a.provider = b.provider ∧ a.subject = b.subject) ∨
    (a.customer_id = b.customer_id ∧ a.provider = b.provider)
  clash_symm := fun h => h.imp (fun h => ⟨h.1.symm, h.2.symm⟩) fun h => ⟨h.1.symm, h.2.symm⟩
  decCheck := fun _ => inferInstance
  decClash := fun _ _ => inferInstance

inductive Purpose where
  | register
  | reset
  deriving DecidableEq

/-- What `complete` reads of an action. -/
structure Action where
  purpose : Purpose
  email_lower : String
  customer_id : String
  credential_hash : Option String

structure PasswordAction extends Action where
  token_hash : String
  created_at : Int
  expires_at : Int
  consumed_at : Option Int
  claim : Option String
  inserted : Nat

instance : Schema PasswordAction where
  check a := a.created_at < a.expires_at ∧
    ((a.purpose = .register ∧ a.credential_hash = none) ∨
      (a.purpose = .reset ∧ a.credential_hash ≠ none))
  clash a b := a.token_hash = b.token_hash
  clash_symm := Eq.symm
  decCheck := fun _ => inferInstance
  decClash := fun _ _ => inferInstance

/-- A row of `rate_limit_counters` in the namespace of the portal. -/
structure RateCounter where
  rate_key : String
  window_start : Int
  request_count : Nat
  expires_at : Int

structure PortalDb where
  customers : Table Customer := .empty
  portal_passwords : Table PortalPassword := .empty
  portal_sessions : Table PortalSession := .empty
  portal_otp : Table PortalOtp := .empty
  portal_oauth_states : Table OauthState := .empty
  portal_identities : Table PortalIdentity := .empty
  portal_password_actions : Table PasswordAction := .empty
  rate_limit_counters : List RateCounter := []

/-! ## Statements -/

/-- An `UPDATE` of the attempts and of the consumption. -/
def updateOtp (attempts : PortalOtp → Nat) (consumed : PortalOtp → Option Int)
    (t : Table PortalOtp) : Table PortalOtp :=
  t.modify (fun r => { r with attempt_count := attempts r, consumed_at := consumed r })
    (fun _ _ => trivial) fun _ _ h => h

/-- `SET consumed_at = ?` of the rows that a condition selects. -/
def consumeOtp (now : Int) (sel : PortalOtp → Prop) [DecidablePred sel] (t : Table PortalOtp) :
    Table PortalOtp :=
  updateOtp (·.attempt_count) (fun r => if sel r then some now else r.consumed_at) t

/-- `SET status = 'revoked'`. -/
def revokeSessions (sel : PortalSession → Prop) [DecidablePred sel] (t : Table PortalSession) :
    Table PortalSession :=
  t.modify (fun s => { s with status := if sel s then .revoked else s.status })
    (fun _ _ => trivial) fun _ _ h => h

theorem mem_consumeOtp {now : Int} {sel : PortalOtp → Prop} [DecidablePred sel]
    {t : Table PortalOtp} {r : PortalOtp} : r ∈ consumeOtp now sel t ↔
      ∃ a ∈ t, { a with consumed_at := if sel a then some now else a.consumed_at } = r :=
  List.mem_map

theorem mem_revokeSessions {sel : PortalSession → Prop} [DecidablePred sel]
    {t : Table PortalSession} {s : PortalSession} : s ∈ revokeSessions sel t ↔
      ∃ a ∈ t, { a with status := if sel a then .revoked else a.status } = s := List.mem_map

/-- `SET password_hash = ?`. -/
def setHash (hash : String) (sel : PortalPassword → Prop) [DecidablePred sel]
    (t : Table PortalPassword) : Table PortalPassword :=
  t.modify (fun p => { p with password_hash := if sel p then hash else p.password_hash })
    (fun _ _ => trivial) fun _ _ h => h

/-- An `UPDATE` of the consumption and of the claim. -/
def updateActions (consumed : PasswordAction → Option Int) (claim : PasswordAction → Option String)
    (t : Table PasswordAction) : Table PasswordAction :=
  t.modify (fun a => { a with consumed_at := consumed a, claim := claim a }) (fun _ h => h)
    fun _ _ h => h

theorem mem_updateActions {consumed : PasswordAction → Option Int}
    {claim : PasswordAction → Option String} {t : Table PasswordAction} {a : PasswordAction} :
    a ∈ updateActions consumed claim t ↔
      ∃ b ∈ t, { b with consumed_at := consumed b, claim := claim b } = a := List.mem_map

/-- The customer is there and active. -/
def PortalDb.ActiveCustomer (db : PortalDb) (id : String) : Prop :=
  ∃ c ∈ db.customers, c.id = id ∧ c.status = .active

instance (db : PortalDb) (id : String) : Decidable (db.ActiveCustomer id) :=
  inferInstanceAs (Decidable (∃ _ ∈ _, _))

/-- The session is live and its customer is active. -/
def PortalDb.LiveSession (db : PortalDb) (id customer_id : String) (now : Int) : Prop :=
  (∃ s ∈ db.portal_sessions, s.id = id ∧ s.customer_id = customer_id ∧ s.status = .active ∧
    now < s.expires_at) ∧ db.ActiveCustomer customer_id

instance (db : PortalDb) (id customer_id : String) (now : Int) :
    Decidable (db.LiveSession id customer_id now) := inferInstanceAs (Decidable (_ ∧ _))

/-- The password hash of a customer. -/
def PortalDb.passwordOf (db : PortalDb) (customer_id : String) : Option String :=
  (db.portal_passwords.find? fun p => p.customer_id = customer_id).map (·.password_hash)

end Licensecc.Portal
