-- The verifier of leases in the client. A lease is verified when it decodes, its
-- claims are the expected ones, the time is in its window and a trusted key has
-- signed it. A resume statement needs no time.
import Licensecc.Protocol.Native

open Licensecc.Codec Licensecc.Protocol

namespace Licensecc.Client

/-! ## Trust -/

structure BoundLeaseTrustKey where
  spki : Bytes
  retired : Bool

structure PreparedTrustKey where
  id : Bytes
  pkcs1 : Bytes
  retired : Bool

/-- What the platform's libraries decide: the RSA key of an SPKI with its identity,
and whether a key has signed some bytes. -/
structure Crypto where
  rsa3072_spki : Bytes → Option (Bytes × Bytes)
  verify_signature : Bytes → Bytes → Bytes → Bool

/-- The loop of `prepare_trust`. -/
def prepareKeys (crypto : Crypto) :
    List BoundLeaseTrustKey → List PreparedTrustKey → Option (List PreparedTrustKey)
  | [], prepared => some prepared
  | record :: keys, prepared =>
    match crypto.rsa3072_spki record.spki with
    | none => none
    | some (pkcs1, id) =>
      if prepared.any (fun item => item.id = id) then none
      else prepareKeys crypto keys (prepared ++ [⟨id, pkcs1, record.retired⟩])

def prepare_trust (crypto : Crypto) (keys : List BoundLeaseTrustKey) :
    Option (List PreparedTrustKey) :=
  if keys = [] ∨ 8 < keys.length then none else prepareKeys crypto keys []

def validate_bound_lease_trust (crypto : Crypto) (keys : List BoundLeaseTrustKey) : Bool :=
  (prepare_trust crypto keys).isSome

/-- The loop that selects the key of the signer. -/
def selectKey (signer : Bytes) : List PreparedTrustKey → Bytes → Option Bytes
  | [], selected => some selected
  | record :: keys, selected =>
    if record.id = signer then
      if record.retired then none else selectKey signer keys record.pkcs1
    else selectKey signer keys selected

def authenticated (crypto : Crypto) (decoded : ParsedBoundLease)
    (trusted_keys : List BoundLeaseTrustKey) : Bool :=
  match prepare_trust crypto trusted_keys with
  | none => false
  | some prepared =>
    match selectKey decoded.claims.signer_key_id prepared [] with
    | none => false
    | some selected => selected ≠ [] &&
      crypto.verify_signature selected (bytesOf "lccdl1.".toList ++ decoded.payload)
        decoded.signature

/-! ## Verification -/

structure BoundLeaseExpected where
  issuer : Bytes
  audience : Bytes
  project : Bytes
  feature : Bytes
  license_fingerprint : Bytes
  binding_id : Bytes
  device_key_id : Bytes
  operation_id : Bytes
  generation : Nat
  min_revocation_seq : Nat

def safe_max : Nat := 9007199254740991

def expected_claims (c : BoundLeaseClaims) (e : BoundLeaseExpected) : Bool :=
  e.min_revocation_seq ≤ safe_max && 1 ≤ e.generation && e.generation ≤ safe_max &&
    c.issuer = e.issuer && c.audience = e.audience && c.project = e.project &&
    c.feature = e.feature && c.license_fingerprint = e.license_fingerprint &&
    c.binding_id = e.binding_id && c.device_key_id = e.device_key_id &&
    c.operation_id = e.operation_id && c.generation = e.generation &&
    e.min_revocation_seq ≤ c.revocation_seq

def verify_bound_lease (crypto : Crypto) (token_value : Bytes)
    (trusted_keys : List BoundLeaseTrustKey) (expected : BoundLeaseExpected)
    (effective_now : Nat) : Option BoundLeaseClaims :=
  match decode_bound_lease token_value with
  | none => none
  | some decoded =>
    if trusted_keys = [] ∨ 8 < trusted_keys.length ∨ safe_max < effective_now ∨
        !expected_claims decoded.claims expected ∨ effective_now < decoded.claims.issued_at ∨
        decoded.claims.expires_at ≤ effective_now then none
    else if authenticated crypto decoded trusted_keys then some decoded.claims else none

structure BoundResumeExpected where
  issuer : Bytes
  audience : Bytes
  project : Bytes
  feature : Bytes
  device_key_id : Bytes

structure BoundResumeStatement where
  binding_id : Bytes
  license_fingerprint : Bytes
  generation : Nat
  revision_floor : Nat

def verify_bound_resume_statement (crypto : Crypto) (token : Bytes)
    (trust : List BoundLeaseTrustKey) (expected : BoundResumeExpected) :
    Option BoundResumeStatement :=
  match decode_bound_lease token with
  | none => none
  | some parsed =>
    let c := parsed.claims
    if c.issuer ≠ expected.issuer ∨ c.audience ≠ expected.audience ∨
        c.project ≠ expected.project ∨ c.feature ≠ expected.feature ∨
        c.device_key_id ≠ expected.device_key_id ∨ !authenticated crypto parsed trust then none
    else some ⟨c.binding_id, c.license_fingerprint, c.generation, c.revocation_seq⟩

/-! ## What is verified -/

variable {crypto : Crypto} {trust : List BoundLeaseTrustKey}

/-- A token is the signed lease with these claims. -/
def SignedLease (crypto : Crypto) (trust : List BoundLeaseTrustKey) (token : Bytes)
    (c : BoundLeaseClaims) : Prop :=
  ∃ d, decode_bound_lease token = some d ∧ d.claims = c ∧ authenticated crypto d trust = true

theorem SignedLease.unique {token : Bytes} {c c' : BoundLeaseClaims}
    (h : SignedLease crypto trust token c) (h' : SignedLease crypto trust token c') : c = c' := by
  obtain ⟨d, hd, rfl, -⟩ := h
  obtain ⟨d', hd', rfl, -⟩ := h'
  rw [hd] at hd'
  rw [Option.some.inj hd']

theorem verify_bound_lease_ok {token : Bytes} {expected : BoundLeaseExpected} {now : Nat}
    {c : BoundLeaseClaims} (h : verify_bound_lease crypto token trust expected now = some c) :
    SignedLease crypto trust token c ∧ expected_claims c expected = true ∧
      c.issued_at ≤ now ∧ now < c.expires_at := by
  unfold verify_bound_lease at h
  split at h
  · cases h
  rename_i d hd
  split at h
  · cases h
  rename_i hchecks
  split at h
  swap
  · cases h
  rename_i hauth
  obtain rfl := Option.some.inj h
  simp only [not_or, Bool.not_eq_true', Bool.not_eq_false, not_lt, not_le] at hchecks
  obtain ⟨-, -, -, hexpected, hissued, hexpires⟩ := hchecks
  exact ⟨⟨d, hd, rfl, hauth⟩, hexpected, hissued, hexpires⟩

/-- The claims that a resume statement is about meet what is expected. -/
structure ResumeMatches (expected : BoundResumeExpected) (c : BoundLeaseClaims) : Prop where
  issuer : c.issuer = expected.issuer
  audience : c.audience = expected.audience
  project : c.project = expected.project
  feature : c.feature = expected.feature
  device_key_id : c.device_key_id = expected.device_key_id

theorem verify_bound_resume_statement_ok {token : Bytes} {expected : BoundResumeExpected}
    {s : BoundResumeStatement} : verify_bound_resume_statement crypto token trust expected = some s ↔
      ∃ c, SignedLease crypto trust token c ∧ ResumeMatches expected c ∧
        s = ⟨c.binding_id, c.license_fingerprint, c.generation, c.revocation_seq⟩ := by
  unfold verify_bound_resume_statement
  constructor
  · intro h
    split at h
    · cases h
    rename_i d hd
    dsimp only at h
    split at h
    · cases h
    rename_i hchecks
    simp only [not_or, not_not, Bool.not_eq_true', Bool.not_eq_false, ne_eq] at hchecks
    obtain ⟨h1, h2, h3, h4, h5, hauth⟩ := hchecks
    exact ⟨d.claims, ⟨d, hd, rfl, hauth⟩, ⟨h1, h2, h3, h4, h5⟩, (Option.some.inj h).symm⟩
  · rintro ⟨c, ⟨d, hd, rfl, hauth⟩, ⟨h1, h2, h3, h4, h5⟩, rfl⟩
    rw [hd]
    dsimp only
    rw [if_neg]
    simp only [not_or, not_not, Bool.not_eq_true', Bool.not_eq_false, ne_eq]
    exact ⟨h1, h2, h3, h4, h5, hauth⟩

end Licensecc.Client
