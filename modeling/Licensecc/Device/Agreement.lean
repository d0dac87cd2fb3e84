-- The laws of the two authority checks. A run checks its request over values
-- that it has read, and its batch checks the candidate in SQL. With no write
-- between them they agree.
import Licensecc.Device.Admit
import Licensecc.Device.Issue

open Licensecc.Sql Licensecc.Conc

namespace Licensecc

open Prog

variable {k : IssueEnv} {request : BoundRequest} {w : DeviceWorld}

/-! ## The checks of a run alone -/

@[simp] theorem yields_select {α : Type} {f : Db → Int → α} {a : α} :
    Yields w (select f) a ↔ a = f w.db w.now := yields_query

@[simp] theorem not_writes_select {α : Type} {f : Db → Int → α} {write : DeviceWrite} :
    ¬ Writes w (select f) write := not_writes_query

@[simp] theorem not_yields_deny {α : Type} {code : String} {status : Nat} {a : α} :
    ¬ Yields w (deny code status) a := not_yields_throw

@[simp] theorem not_writes_deny {α : Type} {code : String} {status : Nat} {write : DeviceWrite} :
    ¬ Writes w (deny code status : Issue α) write := not_writes_throw

@[simp] theorem yields_refuse {e : Option BoundRequestError} {u : Unit} :
    Yields w (refuse e) u ↔ e = none := by
  cases e with
  | none => simp [refuse]
  | some e => simp [refuse]

@[simp] theorem not_writes_refuse {e : Option BoundRequestError} {write : DeviceWrite} :
    ¬ Writes w (refuse e) write := by
  cases e with
  | none => simp [refuse]
  | some e => simp [refuse]

/-- The subject that the rows give. -/
def subjectOf (k : IssueEnv) (semantic : Semantic) (w : DeviceWorld) : Option Subject :=
  match semantic with
  | .exchange attempt_handle .. =>
    (selectAttempt (k.boundSecretHash attempt_handle) w.db).map (Subject.ofAttempt · w.now)
  | .renew binding_id .. =>
    (selectBound binding_id w.db).map fun r => Subject.ofBinding r.1 r.2 w.now

theorem yields_proveSubject {semantic : Semantic} {s : Subject} :
    Yields w (proveSubject k semantic) s ↔ subjectOf k semantic w = some s := by
  cases semantic with
  | exchange h =>
    simp only [proveSubject, subjectOf, yields_bind, yields_select, exists_eq_left]
    cases selectAttempt (k.boundSecretHash h) w.db with
    | none => simp
    | some a => simp [eq_comm]
  | renew id =>
    simp only [proveSubject, subjectOf, yields_bind, yields_select, exists_eq_left]
    cases selectBound id w.db with
    | none => simp
    | some r => simp [eq_comm]

theorem not_writes_proveSubject {semantic : Semantic} {write : DeviceWrite} :
    ¬ Writes w (proveSubject k semantic) write := by
  cases semantic with
  | exchange h =>
    simp only [proveSubject, writes_bind, yields_select, not_writes_select, false_or,
      exists_eq_left]
    split <;> simp
  | renew id =>
    simp only [proveSubject, writes_bind, yields_select, not_writes_select, false_or,
      exists_eq_left]
    split <;> simp

/-- What a run knows when it has proved its request. -/
structure Proven (k : IssueEnv) (request : BoundRequest) (w : DeviceWorld) (v : Verified) :
    Prop where
  subject : subjectOf k request.semantic w = some v.subject
  challenge : w.db.device_bound_challenges.find? (·.id = request.proof.challenge_id) =
    some v.challenge
  nonceHash : v.nonceHash = k.boundSecretHash request.proof.nonce
  fits : challengeFits request v.subject v.nonceHash v.challenge
  ahead : w.now < v.challenge.expires_at
  signature : k.verifyBoundDeviceProof v.subject.public_key_spki
    (signedInput k request v.subject v.challenge) request.proof.signature = true
  requestDigest : v.requestDigest = k.requestDigest v.subject.key_id request.semantic

theorem yields_prove {v : Verified} :
    Yields w (prove k request) v ↔ Proven k request w v := by
  simp only [prove, yields_bind, yields_proveSubject, yields_select, exists_eq_left]
  constructor
  · rintro ⟨s, hs, h⟩
    split at h
    · simp at h
    rename_i c hc
    split at h
    · simp at h
    rename_i hfits
    split at h
    · simp at h
    rename_i hahead
    split at h
    · simp at h
    rename_i hsig
    obtain rfl := yields_pure.mp h
    exact ⟨hs, hc, rfl, not_not.mp hfits, by dsimp only; omega, by simpa using hsig, rfl⟩
  · rintro ⟨hs, hc, hn, hfits, hahead, hsig, hd⟩
    refine ⟨v.subject, hs, ?_⟩
    rw [hc]
    dsimp only
    rw [← hn, if_neg (not_not.mpr hfits), if_neg (by omega), if_neg (by simpa using hsig),
      yields_pure, ← hd]

theorem not_writes_prove {write : DeviceWrite} : ¬ Writes w (prove k request) write := by
  simp only [prove, writes_bind, yields_select, not_writes_proveSubject, not_writes_select,
    false_or, exists_eq_left]
  rintro ⟨s, -, h⟩
  split at h
  · simp at h
  split at h
  · simp at h
  split at h
  · simp at h
  split at h
  · simp at h
  · simp at h

/-- The named binding and its device are active. -/
def NamedActive (named : Option String) (db : Db) : Prop :=
  ∀ id ∈ named, ∀ r ∈ selectBound id db, r.1.state = .active ∧ r.2.status = .active

theorem yields_checkBound {named : Option String} {u : Unit} :
    Yields w (checkBound named) u ↔ NamedActive named w.db := by
  unfold checkBound NamedActive
  cases named with
  | none => simp
  | some id =>
    simp only [yields_bind, yields_select, exists_eq_left, Option.mem_def, Option.some.injEq,
      forall_eq']
    cases selectBound id w.db with
    | none => simp
    | some r =>
      dsimp only
      split
      · rename_i hno
        simp only [not_yields_deny, Option.some.injEq, forall_eq', false_iff]
        rintro ⟨h1, h2⟩
        exact hno.elim (fun h => h h1) fun h => h h2
      · rename_i hyes
        simp only [yields_pure, Option.some.injEq, forall_eq', true_iff]
        exact ⟨by_contra fun h => hyes (.inl h), by_contra fun h => hyes (.inr h)⟩

theorem not_writes_checkBound {named : Option String} {write : DeviceWrite} :
    ¬ Writes w (checkBound named) write := by
  unfold checkBound
  cases named with
  | none => simp
  | some id =>
    simp only [writes_bind, not_writes_select, yields_select, exists_eq_left, false_or]
    split
    · split <;> simp
    · simp

theorem yields_checkCapacity {subject : Subject} {e : Entitlement} {u : Unit} :
    Yields w (checkCapacity subject e) u ↔
      (selectOccupied subject w.db w.now : Int) < e.max_active_devices := by
  simp only [checkCapacity, yields_bind, yields_select, exists_eq_left]
  split
  · rename_i hfull
    simp only [yields_bind, yields_select, exists_eq_left]
    have hno : ¬ (selectOccupied subject w.db w.now : Int) < e.max_active_devices := by omega
    split <;> simp [hno]
  · rename_i hfree
    simp only [yields_pure, true_iff]
    omega

theorem not_writes_checkCapacity {subject : Subject} {e : Entitlement} {write : DeviceWrite} :
    ¬ Writes w (checkCapacity subject e) write := by
  simp only [checkCapacity, writes_bind, not_writes_select, yields_select, exists_eq_left, false_or]
  split
  · simp only [writes_bind, not_writes_select, yields_select, exists_eq_left, false_or]
    split <;> simp
  · simp

/-- What a run without a stored operation knows when it has its authority. -/
structure Authorized (k : IssueEnv) (semantic : Semantic) (subject : Subject) (w : DeviceWorld)
    (a : IssueAuthority) : Prop where
  attempt : attemptRefused k semantic subject none = none
  named : NamedActive (boundId semantic none) w.db
  entitlement : ∃ c, selectEntitlement subject w.db = some (a.entitlement, c) ∧
    a.customer_revision = c.authority_revision ∧ entitlementOpen a.entitlement c w.now
  now : a.now = w.now
  trial : boundTrialState a.entitlement subject.key_id w.now (startsTrial semantic none) =
    some a.trial
  room : ¬ (a.trial.stamp ≠ 0 ∧ maxSafeInteger ≤ a.entitlement.authority_revision)
  device : a.device = w.db.device_bound_devices.find? (·.key_id = subject.key_id)
  device_ok : a.device.bind (deviceRefused subject) = none
  binding : a.binding = selectBinding subject (boundId semantic none) a.device w.db
  binding_ok : a.binding.bind (bindingRefused subject a.device) = none
  found : ¬ (boundId semantic none ≠ none ∧ (a.binding = none ∨ a.device = none))
  generation : ∀ b ∈ a.binding, generationRefused semantic b = none
  capacity : a.binding = none →
    (selectOccupied subject w.db w.now : Int) < a.entitlement.max_active_devices

theorem yields_authority {semantic : Semantic} {subject : Subject} {a : IssueAuthority} :
    Yields w (authority k semantic subject none) a ↔ Authorized k semantic subject w a := by
  simp only [authority, yields_bind, yields_refuse, yields_checkBound, yields_select,
    exists_eq_left, exists_and_left, exists_const]
  constructor
  · rintro ⟨hattempt, hnamed, h⟩
    split at h
    · simp at h
    rename_i e c now hrow
    obtain ⟨hent, rfl⟩ := Prod.mk.inj hrow
    split at h
    · simp at h
    rename_i hopen
    split at h
    · simp at h
    rename_i trial htrial
    split at h
    · simp at h
    rename_i hroom
    simp only [yields_bind, yields_refuse, yields_select, exists_eq_left, exists_and_left,
      exists_const] at h
    obtain ⟨hdevice, hbinding, h⟩ := h
    split at h
    · simp at h
    rename_i hfound
    split at h
    · rename_i b hb
      simp only [yields_bind, yields_refuse, yields_pure, exists_and_left, exists_const] at h
      obtain ⟨hgen, rfl⟩ := h
      exact ⟨hattempt, hnamed, ⟨c, hent, rfl, not_not.mp hopen⟩, rfl, htrial, hroom, rfl, hdevice,
        rfl, hbinding, hfound, fun b' hb' => Option.some.inj (hb.symm.trans hb') ▸ hgen,
        fun hnone => absurd (hb.symm.trans hnone) (Option.some_ne_none b)⟩
    · rename_i hb
      simp only [yields_bind, yields_checkCapacity, yields_pure, exists_and_left, exists_const] at h
      obtain ⟨hcap, rfl⟩ := h
      exact ⟨hattempt, hnamed, ⟨c, hent, rfl, not_not.mp hopen⟩, rfl, htrial, hroom, rfl, hdevice,
        rfl, hbinding, hfound,
        fun b' hb' => absurd (hb'.symm.trans hb) (Option.some_ne_none b'), fun _ => hcap⟩
  · rintro ⟨hattempt, hnamed, ⟨c, hent, hrev, hopen⟩, hnow, htrial, hroom, hdev, hdevice, hbind,
      hbinding, hfound, hgen, hcap⟩
    refine ⟨hattempt, hnamed, ?_⟩
    rw [hent]
    dsimp only
    rw [if_neg (not_not.mpr hopen), htrial]
    dsimp only
    rw [if_neg hroom]
    simp only [yields_bind, yields_refuse, yields_select, exists_eq_left, exists_and_left,
      exists_const]
    rw [← hdev, ← hbind]
    refine ⟨hdevice, hbinding, ?_⟩
    rw [if_neg hfound]
    have ha : a = ⟨a.entitlement, c.authority_revision, w.now, a.device, a.binding, a.trial⟩ := by
      rw [← hrev, ← hnow]
    cases hb : a.binding with
    | some b =>
      simp only [yields_bind, yields_refuse, yields_pure, exists_and_left, exists_const]
      exact ⟨hgen b hb, hb ▸ ha⟩
    | none =>
      simp only [yields_bind, yields_checkCapacity, yields_pure, exists_and_left, exists_const]
      exact ⟨hcap hb, hb ▸ ha⟩

theorem not_writes_authority {semantic : Semantic} {subject : Subject}
    {operation : Option Operation} {write : DeviceWrite} :
    ¬ Writes w (authority k semantic subject operation) write := by
  simp only [authority, writes_bind, yields_refuse, yields_checkBound, yields_select,
    not_writes_refuse, not_writes_checkBound, not_writes_select, false_or, exists_eq_left,
    exists_and_left, exists_const, not_and]
  intro _ _ h
  split at h
  · simp at h
  split at h
  · simp at h
  split at h
  · simp at h
  split at h
  · simp at h
  simp only [writes_bind, yields_refuse, yields_select, not_writes_refuse, not_writes_select,
    false_or, exists_eq_left, exists_and_left, exists_const] at h
  obtain ⟨-, -, h⟩ := h
  split at h
  · simp at h
  split at h
  · simp at h
  · simp [not_writes_checkCapacity] at h

/-! ## The candidate of a run -/

variable {ids : IssueIds} {p : Candidate}

theorem writes_respond {write write' : DeviceWrite} :
    Writes w (respond write) write' ↔ write' = write := by
  simp only [respond, writes_bind, writes_request, not_yields_request, false_and, exists_false,
    or_false]

theorem not_writes_currentSubject {v : Verified} {operation : Option Operation}
    {write : DeviceWrite} : ¬ Writes w (currentSubject v operation) write := by
  unfold currentSubject
  split
  · simp only [writes_bind, not_writes_select, yields_select, false_or, exists_eq_left]
    split <;> simp
  · simp

theorem currentSubject_none (v : Verified) : currentSubject v none = pure v := rfl

theorem yields_currentAuthority {v : Verified} {a : IssueAuthority} :
    Yields w (currentAuthority k request v none) a ↔
      Authorized k request.semantic v.subject w a := by
  unfold currentAuthority
  rw [yields_tryCatch, yields_authority]
  constructor
  · rintro (h | ⟨e, -, h⟩)
    · exact h
    · split at h
      · simp only [yields_bind, yields_select, exists_eq_left] at h
        split at h <;> simp at h
      · simp at h
  · exact .inl

theorem not_writes_currentAuthority {v : Verified} {operation : Option Operation}
    {write : DeviceWrite} : ¬ Writes w (currentAuthority k request v operation) write := by
  unfold currentAuthority
  rw [writes_tryCatch]
  rintro (h | ⟨e, -, h⟩)
  · exact not_writes_authority h
  · split at h
    · simp only [writes_bind, not_writes_select, yields_select, false_or, exists_eq_left] at h
      split at h <;> simp at h
    · simp at h

/-- A run alone that comes to a commit has passed every check, with no
operation stored, and the commit is of the candidate that it has built. -/
theorem writes_issueBoundLease (h : Writes w (issueBoundLease k request ids) (.commit p)) :
    ∃ v a window, Proven k request w v ∧ selectOperation v.subject.key_id request w.db = none ∧
      Authorized k request.semantic v.subject w a ∧
      deviceLeaseWindow a.now (authorityUntil a) = some window ∧
      p = (v.snapshot request a ids).candidate k a.entitlement window ids.lease := by
  simp only [issueBoundLease, writes_bind, yields_prove, not_writes_prove, yields_select,
    not_writes_select, not_writes_refuse, yields_refuse, false_or, exists_eq_left,
    exists_and_left, exists_const] at h
  obtain ⟨v, hv, -, h⟩ := h
  replace h := h.resolve_left not_writes_currentSubject
  obtain ⟨v', hv', h⟩ := h
  replace h := h.resolve_left not_writes_currentAuthority
  obtain ⟨a, ha, h⟩ := h
  cases ho : selectOperation v.subject.key_id request w.db with
  | some o =>
    rw [ho] at h
    cases writes_respond.mp h
  | none =>
    rw [ho] at hv' ha h
    obtain rfl := yields_pure.mp hv'
    dsimp only at h
    rw [writes_bind] at h
    replace h := h.resolve_left not_writes_refuse
    obtain ⟨u, -, h⟩ := h
    split at h
    · simp at h
    · rename_i window hwindow
      exact ⟨v', a, window, hv, ho, yields_currentAuthority.mp ha, hwindow,
        DeviceWrite.commit.inj (writes_respond.mp h)⟩

/-! ## The guard admits what the run has admitted -/

/-- A subject is an attempt for an exchange, and a binding with its device for
a renewal. -/
theorem subjectOf_cases {s : Subject} (h : subjectOf k request.semantic w = some s) :
    (request.purpose = .exchange ∧ boundId request.semantic none = none ∧
      ∃ a ∈ w.db.device_bound_authorizations, s = .ofAttempt a w.now) ∨
    (request.purpose = .renew ∧ ∃ b ∈ w.db.device_bound_bindings,
      ∃ d ∈ w.db.device_bound_devices, boundId request.semantic none = some b.id ∧
        d.id = b.device_id ∧ s = .ofBinding b d w.now) := by
  unfold BoundRequest.purpose
  cases hs : request.semantic with
  | exchange handle code verifier uri op =>
    rw [hs] at h
    obtain ⟨a, ha, rfl⟩ := Option.map_eq_some_iff.mp h
    exact .inl ⟨rfl, rfl, a, (Table.find?_some ha).1, rfl⟩
  | renew id generation op =>
    rw [hs] at h
    obtain ⟨⟨b, d⟩, hbd, rfl⟩ := Option.map_eq_some_iff.mp h
    obtain ⟨b', hb', hd⟩ := Option.bind_eq_some_iff.mp hbd
    obtain ⟨d', hd', hpair⟩ := Option.map_eq_some_iff.mp hd
    obtain ⟨rfl, rfl⟩ := Prod.mk.inj hpair
    obtain ⟨hb, hid⟩ := Table.find?_some hb'
    obtain ⟨hd, hdid⟩ := Table.find?_some hd'
    exact .inr ⟨rfl, b', hb, d', hd, congrArg some hid.symm, hdid, rfl⟩

theorem startsTrial_renew {semantic : Semantic} {id : String}
    (h : boundId semantic none = some id) : startsTrial semantic none = false := by
  cases semantic with
  | exchange => cases h
  | renew => rfl

/-- The ids of a run are new. -/
structure FreshIds (db : Db) (ids : IssueIds) : Prop where
  device : ∀ d ∈ db.device_bound_devices, d.id ≠ ids.device
  binding : ∀ b ∈ db.device_bound_bindings, b.id ≠ ids.binding
  lease : ∀ l ∈ db.device_bound_leases, l.id ≠ ids.lease

/-- The foreign key of the bindings holds. -/
def Referential (db : Db) : Prop :=
  ∀ b ∈ db.device_bound_bindings, ∃ d ∈ db.device_bound_devices, d.id = b.device_id

/-- A run alone that has come to its commit: what it has checked and built. -/
structure Built (k : IssueEnv) (request : BoundRequest) (ids : IssueIds) (w : DeviceWorld)
    (v : Verified) (a : IssueAuthority) (window : LeaseWindow) : Prop where
  proven : Proven k request w v
  authorized : Authorized k request.semantic v.subject w a
  window : deviceLeaseWindow w.now (authorityUntil a) = some window

variable {v : Verified} {a : IssueAuthority} {window : LeaseWindow}

theorem Built.safe (h : Built k request ids w v a window) : SafeTime w.now :=
  (deviceLeaseWindow_spec h.window).2.1

theorem Built.trial (h : Built k request ids w v a window) :
    boundTrialSql a.entitlement v.subject.key_id w.now (startsTrial request.semantic none) ∧
      a.trial.stamp = (if a.entitlement.is_trial = 1 ∧ a.entitlement.trial_started_at = none then 1
        else 0) ∧
      a.trial.expiresAt = if a.entitlement.is_trial = 0 then none
        else boundTrialDeadlineSql a.entitlement w.now :=
  (boundTrialState_iff h.safe).mp h.authorized.trial

/-- A renewal starts no trial. -/
theorem Built.stamp_renew (h : Built k request ids w v a window)
    (hr : request.purpose ≠ .exchange) : a.trial.stamp = 0 := by
  obtain ⟨htrial, hstamp, -⟩ := h.trial
  rw [hstamp, if_neg]
  rintro ⟨h1, hnone⟩
  rcases subjectOf_cases h.proven.subject with ⟨hx, -⟩ | ⟨-, b, -, d, -, hid, -⟩
  · exact hr hx
  rw [startsTrial_renew hid] at htrial
  rcases htrial with h0 | ⟨-, -, -, ⟨hf, -⟩ | ⟨⟨s, hs, -⟩, -⟩, -⟩
  · omega
  · cases hf
  · rw [hnone] at hs
    cases hs

/-- The candidate that a run has built, with the invocation of its batch. -/
def builtCandidate (k : IssueEnv) (request : BoundRequest) (ids : IssueIds) (v : Verified)
    (a : IssueAuthority) (window : LeaseWindow) (invocationId : String) : Candidate :=
  { (v.snapshot request a ids).candidate k a.entitlement window ids.lease with invocationId }

theorem Built.window_guard (h : Built k request ids w v a window) (i : String) :
    WindowGuard (builtCandidate k request ids v a window i) w.now a.entitlement := by
  obtain ⟨hissued, hsafe, hshort, hlong, huntil, haccept, -⟩ := deviceLeaseWindow_spec h.window
  obtain ⟨htrial, hstamp, hexpires⟩ := h.trial
  have hbounds : window.expiresAt ≤ a.entitlement.valid_until.getD maxSafeInteger ∧
      window.expiresAt ≤ a.trial.expiresAt.getD maxSafeInteger ∧
      (0 < a.entitlement.lease_seconds →
        window.expiresAt ≤ w.now + a.entitlement.lease_seconds) := by
    unfold authorityUntil at huntil
    rw [h.authorized.now] at huntil
    split at huntil
    · omega
    · omega
  refine ⟨le_of_eq hissued, ?_, hshort, hlong, haccept, ?_, ?_, hstamp, ?_, ?_, ?_⟩
  · simp only [builtCandidate, Snapshot.candidate]
    omega
  · intro t ht
    have hle := hbounds.1
    rw [Option.mem_def.mp ht] at hle
    exact hle
  · by_cases hl : 0 < a.entitlement.lease_seconds
    · have hle := hbounds.2.2 hl
      simp only [builtCandidate, Snapshot.candidate]
      omega
    · exact .inl (by omega)
  · by_cases hz : a.trial.stamp = 0
    · exact .inl hz
    · exact .inr (by_contra fun hn => h.authorized.room ⟨hz, by omega⟩)
  · by_cases hx : request.purpose = .exchange
    · exact .inl hx
    · exact .inr (h.stamp_renew hx)
  · by_cases h0 : a.entitlement.is_trial = 0
    · exact .inl h0
    · have hopen := (htrial.resolve_left h0).2.2.2.2
      obtain ⟨t, ht, -⟩ := trialOpenSql_deadline hopen
      rw [if_neg h0, ht] at hexpires
      have hle := hbounds.2.1
      rw [hexpires] at hle
      refine .inr ⟨t, ?_, hle⟩
      simp only [builtCandidate, Snapshot.candidate, hissued]
      exact ht

theorem Built.challenge (h : Built k request ids w v a window) (i : String) :
    OpenChallenge (builtCandidate k request ids v a window i) w.now v.challenge := by
  obtain ⟨hsubject, hkey, -, hpurpose, hop, hnonce, -, hopen⟩ := h.proven.fits
  exact ⟨rfl, hkey, hpurpose, hop, hsubject, hnonce, hopen, rfl, h.proven.ahead⟩

/-- A chain of checks refuses nothing when each of its checks passes. -/
theorem refused_none {c : Prop} [Decidable c] {e : BoundRequestError}
    {rest : Option BoundRequestError} : (if c then some e else rest) = none ↔ ¬ c ∧ rest = none := by
  by_cases hc : c
  · simp [hc]
  · simp [hc]

/-- The entitlement that a subject selects, with its owner. -/
structure Selected (subject : Subject) (db : Db) (e : Entitlement) (c : Customer) : Prop where
  entitlement : e ∈ db.entitlements
  customer : c ∈ db.customers
  owner : c.id = e.customer_id
  project : e.project = subject.project
  feature : some e.feature = subject.feature
  license_fingerprint : some e.license_fingerprint = subject.license_fingerprint
  customer_id : some e.customer_id = subject.customer_id

theorem selectEntitlement_eq_some {subject : Subject} {db : Db} {e : Entitlement} {c : Customer} :
    selectEntitlement subject db = some (e, c) ↔ Selected subject db e c := by
  unfold selectEntitlement
  constructor
  · intro h
    obtain ⟨e', he, hmap⟩ := Option.bind_eq_some_iff.mp h
    obtain ⟨c', hc, hpair⟩ := Option.map_eq_some_iff.mp hmap
    obtain ⟨rfl, rfl⟩ := Prod.mk.inj hpair
    obtain ⟨hmem, h1, h2, h3, h4⟩ := Table.find?_some he
    obtain ⟨hcmem, hcid⟩ := Table.find?_some hc
    exact ⟨hmem, hcmem, hcid, h1, h2, h3, h4⟩
  · rintro ⟨hmem, hcmem, hcid, h1, h2, h3, h4⟩
    rw [Table.find?_eq hmem ⟨h1, h2, h3, h4⟩, Option.bind_some,
      Table.find?_eq hcmem hcid fun _ _ ha hb => ha.trans hb.symm]
    · rfl
    · rintro x y ⟨hx1, hx2, hx3, -⟩ ⟨hy1, hy2, hy3, -⟩
      exact EntitlementKey.ext (hx1.trans hy1.symm) (Option.some.inj (hx2.trans hy2.symm))
        (Option.some.inj (hx3.trans hy3.symm))

/-- The bindings of a subject are the bindings of its entitlement. -/
theorem Selected.same {subject : Subject} {db : Db} {e : Entitlement} {c : Customer}
    (h : Selected subject db e c) {b : Binding} :
    sameEntitlement subject b ↔ b.toEntitlementKey = e.toEntitlementKey := by
  unfold sameEntitlement
  rw [← h.project, ← h.feature, ← h.license_fingerprint, Option.some.injEq, Option.some.injEq,
    EntitlementKey.ext_iff]

theorem Selected.occupied {subject : Subject} {db : Db} {e : Entitlement} {c : Customer}
    (h : Selected subject db e c) (now : Int) :
    selectOccupied subject db now = db.occupied now e.toEntitlementKey :=
  Table.count_congr fun b _ => by rw [h.same]

/-- The attempt of an exchange that has passed its checks is approved for the
candidate. -/
theorem Built.approved (h : Built k request ids w v a window) (i : String) {t : Authorization}
    (hx : request.purpose = .exchange) (hs : v.subject = .ofAttempt t w.now) :
    Approved (builtCandidate k request ids v a window i) w.now t := by
  have hattempt := h.authorized.attempt
  obtain ⟨c, hent, -, -⟩ := h.authorized.entitlement
  obtain ⟨-, -, -, hproject, hfeature, hprint, hcustomer⟩ := Iff.mp selectEntitlement_eq_some hent
  unfold BoundRequest.purpose at hx
  cases hsem : request.semantic with
  | renew id generation op =>
    rw [hsem] at hx
    cases hx
  | exchange handle code verifier uri op =>
    rw [hsem, hs] at hattempt
    rw [hs] at hproject hfeature hprint hcustomer
    obtain ⟨-, hrest⟩ := refused_none.mp hattempt
    obtain ⟨hcode, hlast⟩ := refused_none.mp hrest
    obtain ⟨hstatus, -⟩ := refused_none.mp hlast
    obtain ⟨hstatus, hlate⟩ := not_or.mp hstatus
    obtain ⟨hlate, hcodelate⟩ := not_or.mp hlate
    obtain ⟨hcode, -⟩ := not_or.mp hcode
    have hcodehash : t.code_hash ≠ none := by
      rw [not_not.mp hcode]
      exact Option.some_ne_none _
    refine ⟨⟨?_, hcustomer.symm, hproject.symm, hfeature.symm, hprint.symm, ?_, ?_, ?_, ?_,
      not_le.mp hlate, not_not.mp hcodelate⟩, ?_, not_not.mp hstatus, ?_⟩
    all_goals simp only [builtCandidate, Snapshot.candidate, Verified.snapshot, hs,
      Subject.ofAttempt, Option.map_some, Option.bind_some]
    exact same_self hcodehash

/-- The entitlement and the owner of the candidate. -/
theorem Built.owned (h : Built k request ids w v a window) (i : String) :
    a.entitlement ∈ w.db.entitlements ∧
      Owned (builtCandidate k request ids v a window i) a.entitlement.authority_revision true w.now
        a.entitlement ∧
      ∃ c ∈ w.db.customers, ActiveOwner (builtCandidate k request ids v a window i) c := by
  obtain ⟨c, hent, hrev, hstatus, hactive, hfrom, huntil⟩ := h.authorized.entitlement
  have hsel := Iff.mp selectEntitlement_eq_some hent
  exact ⟨hsel.entitlement, ⟨rfl, rfl, hstatus, rfl, boundTrialSql_allow h.trial.1, hfrom, huntil⟩,
    c, hsel.customer, hsel.owner, hactive, hrev.symm⟩

/-- The device of the candidate, when the key has one. -/
theorem Built.device (h : Built k request ids w v a window) (i : String) {d : Device}
    (hd : a.device = some d) : d ∈ w.db.device_bound_devices ∧
      ActiveDevice (builtCandidate k request ids v a window i) d := by
  have hok := h.authorized.device_ok
  obtain ⟨c, hent, -⟩ := h.authorized.entitlement
  have hsel := Iff.mp selectEntitlement_eq_some hent
  obtain ⟨hmem, hkey⟩ := Table.find?_some (h.authorized.device.symm.trans hd)
  rw [hd] at hok
  obtain ⟨howner, hrest⟩ := refused_none.mp hok
  obtain ⟨hstatus, hlast⟩ := refused_none.mp hrest
  obtain ⟨hspki, -⟩ := refused_none.mp hlast
  obtain ⟨hcus, hproj⟩ := not_or.mp howner
  refine ⟨hmem, ?_, hkey, not_not.mp hspki, ?_, ?_, not_not.mp hstatus, ?_⟩
  · simp only [builtCandidate, Snapshot.candidate, Verified.snapshot, hd, Option.map_some,
      Option.getD_some]
  · exact Option.some.inj ((not_not.mp hcus).trans hsel.customer_id.symm)
  · exact (not_not.mp hproj).trans hsel.project.symm
  · simp only [builtCandidate, Snapshot.candidate, Verified.snapshot, hd, Option.map_some,
      Option.getD_some]

theorem selectBinding_mem {subject : Subject} {named : Option String} {device : Option Device}
    {db : Db} {b : Binding} (h : selectBinding subject named device db = some b) :
    b ∈ db.device_bound_bindings := by
  unfold selectBinding at h
  split at h
  · exact (Table.find?_some h).1
  · exact (Table.find?_some h).1
  · cases h

/-- The binding of the candidate, when the run has found one. -/
theorem Built.binding (h : Built k request ids w v a window) (i : String) {b : Binding}
    (hb : a.binding = some b) : b ∈ w.db.device_bound_bindings ∧
      ActiveBinding (builtCandidate k request ids v a window i) b ∧
      ∃ d, a.device = some d ∧ d.id = b.device_id := by
  have hok := h.authorized.binding_ok
  obtain ⟨c, hent, -⟩ := h.authorized.entitlement
  have hsel := Iff.mp selectEntitlement_eq_some hent
  have hmem := selectBinding_mem (h.authorized.binding.symm.trans hb)
  rw [hb] at hok
  obtain ⟨hplace, hrest⟩ := refused_none.mp hok
  obtain ⟨hstate, -⟩ := refused_none.mp hrest
  obtain ⟨hdev, hsame⟩ := not_or.mp hplace
  obtain ⟨d, hd, hdid⟩ := Option.map_eq_some_iff.mp (not_not.mp hdev)
  refine ⟨hmem, ⟨?_, hsel.same.mp (not_not.mp hsame), ?_, not_not.mp hstate, ?_, ?_⟩, d, hd, hdid⟩
  · simp only [builtCandidate, Snapshot.candidate, Verified.snapshot, hb, Option.map_some,
      Option.getD_some]
  · simp only [builtCandidate, Snapshot.candidate, Verified.snapshot, hd, Option.map_some,
      Option.getD_some, hdid]
  · simp only [builtCandidate, Snapshot.candidate, Verified.snapshot, hb, Option.map_some,
      Option.getD_some]
  · simp only [builtCandidate, Snapshot.candidate, Verified.snapshot, hb, Option.map_some,
      Option.getD_some]

/-- A run that has found no binding has room for a new one. -/
theorem Built.fresh (h : Built k request ids w v a window) (i : String)
    (hids : FreshIds w.db ids) (href : Referential w.db) (hb : a.binding = none) :
    FreshBinding w.db (builtCandidate k request ids v a window i) w.now a.entitlement := by
  obtain ⟨c, hent, -⟩ := h.authorized.entitlement
  have hsel := Iff.mp selectEntitlement_eq_some hent
  have hnamed : boundId request.semantic none = none := by
    by_contra hne
    exact h.authorized.found ⟨hne, .inl hb⟩
  have hid : (builtCandidate k request ids v a window i).bindingId = ids.binding := by
    simp only [builtCandidate, Snapshot.candidate, Verified.snapshot, hb, Option.map_none,
      Option.getD_none]
  refine ⟨?_, ?_, ?_, ?_, ?_⟩
  · simp only [builtCandidate, Snapshot.candidate, Verified.snapshot, hb, Option.map_none,
      Option.getD_none]
  · simp only [builtCandidate, Snapshot.candidate, Verified.snapshot, hb, Option.map_none,
      Option.getD_none]
  · rintro ⟨b, hmem, hbid⟩
    exact hids.binding b hmem (hbid.trans hid)
  · rintro ⟨b, hmem, hkey, hdev, hstate⟩
    cases hd : a.device with
    | none =>
      obtain ⟨d, hdmem, hdid⟩ := href b hmem
      refine hids.device d hdmem (hdid.trans (hdev.trans ?_))
      simp only [builtCandidate, Snapshot.candidate, Verified.snapshot, hd, Option.map_none,
        Option.getD_none]
    | some d =>
      have hnone := h.authorized.binding.symm.trans hb
      rw [hnamed, hd] at hnone
      refine Table.find?_none.mp hnone b hmem ⟨?_, hsel.same.mpr hkey, hstate⟩
      rw [hdev]
      simp only [builtCandidate, Snapshot.candidate, Verified.snapshot, hd, Option.map_some,
        Option.getD_some]
  · have hcap := h.authorized.capacity hb
    rw [hsel.occupied] at hcap
    exact hcap

theorem Built.subject (h : Built k request ids w v a window) (i : String)
    (hids : FreshIds w.db ids) (href : Referential w.db) :
    SubjectGuard w.db (builtCandidate k request ids v a window i) w.now a.entitlement := by
  rcases subjectOf_cases h.proven.subject with ⟨hx, hnamed, t, ht, hs⟩ |
    ⟨hr, b, hb, d, hd, hnamed, hdid, hs⟩
  · refine .inr ⟨hx, ⟨t, ht, h.approved i hx hs⟩, ?_, ?_⟩
    · cases hdev : a.device with
      | some d =>
        obtain ⟨hmem, hact⟩ := h.device i hdev
        exact .inl ⟨d, hmem, hact⟩
      | none =>
        have hnone := Table.find?_none.mp (h.authorized.device.symm.trans hdev)
        refine .inr ⟨?_, ?_⟩
        · simp only [builtCandidate, Snapshot.candidate, Verified.snapshot, hdev, Option.map_none,
            Option.getD_none]
        · rintro ⟨d, hmem, hkey | hid⟩
          · exact hnone d hmem hkey
          · refine hids.device d hmem (hid.trans ?_)
            simp only [builtCandidate, Snapshot.candidate, Verified.snapshot, hdev,
              Option.map_none, Option.getD_none]
    · cases hbind : a.binding with
      | some b =>
        obtain ⟨hmem, hact, -⟩ := h.binding i hbind
        exact .inl ⟨b, hmem, hact⟩
      | none => exact .inr (h.fresh i hids href hbind)
  · have hfound := h.authorized.found
    rw [hnamed] at hfound
    have hboth := fun hn => hfound ⟨Option.some_ne_none _, hn⟩
    obtain ⟨hbind, hdev⟩ := not_or.mp hboth
    obtain ⟨b', hbind⟩ := Option.ne_none_iff_exists'.mp hbind
    obtain ⟨d', hdev⟩ := Option.ne_none_iff_exists'.mp hdev
    obtain ⟨hbmem, hbact, -⟩ := h.binding i hbind
    obtain ⟨hdmem, hdact⟩ := h.device i hdev
    have hsame := h.authorized.binding.symm.trans hbind
    rw [hnamed] at hsame
    refine .inl ⟨hr, ?_, ⟨d', hdmem, hdact⟩, b', hbmem, hbact⟩
    rw [← hbact.id, (Table.find?_some hsame).2]
    simp only [builtCandidate, Snapshot.candidate, Verified.snapshot, hs, Subject.ofBinding]

/-- The guard holds of the candidate of a run, at the state and the time of its
reads. -/
theorem Built.guard (h : Built k request ids w v a window) (i : String)
    (hids : FreshIds w.db ids) (href : Referential w.db) :
    LeaseGuard w.db (builtCandidate k request ids v a window i) w.now a.entitlement := by
  obtain ⟨-, hown, howner⟩ := h.owned i
  have hpurpose : request.purpose = .exchange ∨ request.purpose = .renew := by
    rcases subjectOf_cases h.proven.subject with ⟨hx, -⟩ | ⟨hr, -⟩
    · exact .inl hx
    · exact .inr hr
  exact ⟨hown, howner, hpurpose, h.window_guard i,
    ⟨v.challenge, (Table.find?_some h.proven.challenge).1, h.challenge i⟩, h.subject i hids href⟩

/-- No row has the invocation yet. -/
structure FreshInvocation (db : Db) (i : String) : Prop where
  operation : ∀ o ∈ db.device_bound_operations, o.invocation_id ≠ i
  lease : ∀ l ∈ db.device_bound_leases, l.invocation_id ≠ i
  event : ∀ e ∈ db.device_bound_events, e.invocation_id ≠ i
  check : ∀ c ∈ db.device_bound_commit_checks, c.invocation_id ≠ i

/-- The commit of a run that nothing has disturbed succeeds. -/
theorem Built.commits (h : Built k request ids w v a window) {i : String}
    (hop : selectOperation v.subject.key_id request w.db = none) (hids : FreshIds w.db ids)
    (hi : FreshInvocation w.db i) (href : Referential w.db) (hroom : RevisionRoom w.db w.now)
    (hrange : w.now ≤ maxUnixepoch) :
    (commitBoundDeviceLease (builtCandidate k request ids v a window i) (fun _ => w.now) w.db).1 =
      .ok (builtCandidate k request ids v a window i).responseJson := by
  obtain ⟨hissued, hsafe, -, -, -, -, haccept⟩ := deviceLeaseWindow_spec h.window
  have hguard := h.guard i hids href
  have hfresh : FreshCommit w.db (builtCandidate k request ids v a window i) := by
    refine ⟨fun o ho => ⟨fun hk => ?_, hi.operation o ho⟩, fun l hl => ⟨hids.lease l hl, hi.lease l hl⟩,
      hi.event, hi.check⟩
    obtain ⟨h1, h2, h3⟩ := OperationKey.mk.inj hk
    exact Table.find?_none.mp hop o ho ⟨h1, h2, h3⟩
  have hcommittable : Committable w.db (builtCandidate k request ids v a window i) w.now
      a.entitlement := by
    refine ⟨(h.owned i).1, hguard, hfresh, hroom, ?_, haccept, hrange⟩
    simp only [builtCandidate, Snapshot.candidate, hissued]
    exact hsafe.1
  obtain ⟨ns, db', hr⟩ := hcommittable.commits
  have heff := boundLeaseCommit_ok hi.operation hr
  have hfits : (builtCandidate k request ids v a window i).responseFits := ⟨rfl, rfl, rfl, rfl⟩
  unfold commitBoundDeviceLease
  rw [if_neg (not_not.mpr hguard.purpose), if_neg (not_not.mpr hfits)]
  simp only [transact, hr, commitResult_ok heff, ↓reduceIte]

/-! ## The run admits what the guard has admitted -/

variable {w' : DeviceWorld} {e : Entitlement} {i : String}

/-- The same device proof, checked again over rows with the same keys. -/
theorem Built.proven_again (h : Built k request ids w v a window) {s : Subject} {c : Challenge}
    (hc : c ∈ w'.db.device_bound_challenges)
    (hopen : OpenChallenge (builtCandidate k request ids v a window i) w'.now c)
    (hs : subjectOf k request.semantic w' = some s) (hid : s.id = v.subject.id)
    (hkey : s.key_id = v.subject.key_id)
    (hspki : s.public_key_spki = v.subject.public_key_spki) :
    Proven k request w' { v with subject := s, challenge := c } := by
  obtain ⟨-, hk, hproof, -, -, -, hexpires, -⟩ := h.proven.fits
  have hcid : c.id = v.challenge.id := hopen.id
  have hcex : c.expires_at = v.challenge.expires_at := hopen.expires_at
  have hpid := (Table.find?_some h.proven.challenge).2
  refine ⟨hs, Table.find?_eq hc (hcid.trans hpid) fun _ _ ha hb => .inl (ha.trans hb.symm),
    h.proven.nonceHash, ⟨hopen.subject_id.trans hid.symm, hopen.key_id.trans hkey.symm,
      hopen.key_id.trans (hk.symm.trans hproof), hopen.purpose, hopen.operation_id, hopen.nonce_hash,
      hcex.trans hexpires, hopen.unconsumed⟩, hopen.ahead, ?_, ?_⟩
  · have hinput : signedInput k request s c = signedInput k request v.subject v.challenge := by
      simp only [signedInput, hkey, hcid, hcex]
    dsimp only
    rw [hinput, hspki]
    exact h.proven.signature
  · dsimp only
    rw [hkey]
    exact h.proven.requestDigest

/-- The trial of the guard is a trial of the run. -/
theorem trial_again {p : Candidate} {allow : Bool} (hsafe : SafeTime w'.now)
    (hg : LeaseGuard w'.db p w'.now e) (hallow : allow = false → p.purpose ≠ .exchange) :
    ∃ trial, boundTrialState e p.keyId w'.now allow = some trial ∧ trial.stamp = p.trialStamp ∧
      trial.expiresAt = if e.is_trial = 0 then none else boundTrialDeadlineSql e w'.now := by
  have hstamp := hg.window.stamp
  have htrial : boundTrialSql e p.keyId w'.now allow := by
    cases allow with
    | true => exact hg.owned.trial
    | false =>
      have h0 := hg.window.stamp_exchange.resolve_left (hallow rfl)
      refine boundTrialSql_started hg.owned.trial fun hs => ?_
      rw [if_pos hs, h0] at hstamp
      cases hstamp
  exact ⟨⟨_, _⟩, (boundTrialState_iff hsafe).mpr ⟨htrial, hstamp, rfl⟩, rfl, rfl⟩

/-- The subject is the one of the candidate. -/
structure Matches (s : Subject) (p : Candidate) : Prop where
  key_id : s.key_id = p.keyId
  public_key_spki : s.public_key_spki = p.publicKeySpki
  project : s.project = p.project
  customer_id : s.customer_id = some p.customerId
  feature : s.feature = some p.feature
  license_fingerprint : s.license_fingerprint = some p.fingerprint

theorem Matches.selected {s : Subject} {p : Candidate} {db : Db} {c : Customer} {now : Int}
    {revision : Int} (h : Matches s p) (he : e ∈ db.entitlements)
    (hown : Owned p revision true now e) (hc : c ∈ db.customers) (hcu : ActiveOwner p c) :
    Selected s db e c := by
  obtain ⟨h1, h2, h3⟩ := EntitlementKey.ext_iff.mp hown.key
  exact ⟨he, hc, hcu.id.trans hown.customer.symm, h1.trans h.project.symm,
    (congrArg some h2).trans h.feature.symm, (congrArg some h3).trans h.license_fingerprint.symm,
    (congrArg some hown.customer).trans h.customer_id.symm⟩

theorem Matches.device_ok {s : Subject} {p : Candidate} {d : Device} (h : Matches s p)
    (hd : ActiveDevice p d) : deviceRefused s d = none := by
  refine refused_none.mpr ⟨not_or.mpr ⟨not_not.mpr ?_, not_not.mpr ?_⟩,
    refused_none.mpr ⟨not_not.mpr hd.status, refused_none.mpr ⟨not_not.mpr ?_, rfl⟩⟩⟩
  · exact (congrArg some hd.customer_id).trans h.customer_id.symm
  · exact hd.project.trans h.project.symm
  · exact hd.public_key_spki.trans h.public_key_spki.symm

theorem Matches.same {s : Subject} {p : Candidate} {b : Binding} (h : Matches s p) :
    sameEntitlement s b ↔ b.toEntitlementKey = p.key := by
  unfold sameEntitlement
  rw [h.project, h.feature, h.license_fingerprint, Option.some.injEq, Option.some.injEq,
    EntitlementKey.ext_iff]
  rfl

theorem Matches.binding_ok {s : Subject} {p : Candidate} {d : Device} {b : Binding}
    (h : Matches s p) (hd : ActiveDevice p d) (hb : ActiveBinding p b) :
    bindingRefused s (some d) b = none := by
  refine refused_none.mpr ⟨not_or.mpr ⟨not_not.mpr ?_, not_not.mpr (h.same.mpr hb.key)⟩,
    refused_none.mpr ⟨not_not.mpr hb.state, rfl⟩⟩
  exact congrArg some (hd.id.trans hb.device_id.symm)

/-- The device row that the key selects. -/
theorem find_device {p : Candidate} {db : Db} {d : Device} (hd : d ∈ db.device_bound_devices)
    (ha : ActiveDevice p d) : db.device_bound_devices.find? (·.key_id = p.keyId) = some d :=
  Table.find?_eq hd ha.key_id fun _ _ h1 h2 => .inr (h1.trans h2.symm)

/-- The end of the authority of a run reaches the end of every window that the
guard admits, and is a time that the run can use. -/
theorem until_again {p : Candidate} {authority : IssueAuthority}
    (hg : LeaseGuard w'.db p w'.now authority.entitlement) (hnow : authority.now = w'.now)
    (hexpires : authority.trial.expiresAt = if authority.entitlement.is_trial = 0 then none
      else boundTrialDeadlineSql authority.entitlement w'.now)
    (hmax : p.expiresAt ≤ maxSafeInteger) :
    p.expiresAt ≤ authorityUntil authority ∧ authorityUntil authority ≤ maxSafeInteger := by
  have hw := hg.window
  have hissued := hw.issued
  have huntil : p.expiresAt ≤ authority.entitlement.valid_until.getD maxSafeInteger := by
    cases hv : authority.entitlement.valid_until with
    | none => exact hmax
    | some t => exact hw.within t hv
  have htrial : p.expiresAt ≤ authority.trial.expiresAt.getD maxSafeInteger ∧
      authority.trial.expiresAt.getD maxSafeInteger ≤ maxSafeInteger := by
    rw [hexpires]
    split
    · exact ⟨hmax, le_rfl⟩
    · rename_i h0
      obtain ⟨t, ht, hle⟩ := hw.trial_deadline.resolve_left h0
      obtain ⟨t', ht', hle'⟩ := boundTrialDeadlineSql_later hissued ht
      obtain ⟨x, hx, hsafe⟩ := trialOpenSql_deadline (hg.owned.trial.resolve_left h0).2.2.2.2
      obtain rfl := Option.some.inj (ht'.symm.trans hx)
      rw [ht', Option.getD_some]
      exact ⟨le_trans hle hle', hsafe⟩
  have hseconds := hw.lease_seconds
  unfold authorityUntil
  rw [hnow]
  split
  · omega
  · omega

/-- The checks of the run hold at one state, with an authority that reaches the
end of the window of the candidate. -/
def AdmitsAgain (k : IssueEnv) (request : BoundRequest) (w : DeviceWorld) (e : Entitlement)
    (p : Candidate) : Prop :=
  ∃ v a, Proven k request w v ∧ Authorized k request.semantic v.subject w a ∧ a.entitlement = e ∧
    p.expiresAt ≤ authorityUntil a ∧ authorityUntil a ≤ maxSafeInteger

/-- The device and the binding that a run selects for a subject pass its
checks. -/
structure Found (semantic : Semantic) (s : Subject) (db : Db) (device : Option Device)
    (binding : Option Binding) : Prop where
  device_row : db.device_bound_devices.find? (·.key_id = s.key_id) = device
  device_ok : device.bind (deviceRefused s) = none
  binding_row : selectBinding s (boundId semantic none) device db = binding
  binding_ok : binding.bind (bindingRefused s device) = none
  found : ¬ (boundId semantic none ≠ none ∧ (binding = none ∨ device = none))
  generation : ∀ b ∈ binding, generationRefused semantic b = none

/-- The authority of the run at a state in which the guard holds. -/
theorem authorized_again {p : Candidate} {s : Subject} {semantic : Semantic}
    {device : Option Device} {binding : Option Binding} (hm : Matches s p)
    (hsafe : SafeTime w'.now) (he : e ∈ w'.db.entitlements) (hg : LeaseGuard w'.db p w'.now e)
    (hmax : p.expiresAt ≤ maxSafeInteger) (hattempt : attemptRefused k semantic s none = none)
    (hnamed : NamedActive (boundId semantic none) w'.db)
    (hallow : startsTrial semantic none = false → p.purpose ≠ .exchange)
    (hfound : Found semantic s w'.db device binding)
    (hcap : binding = none → (w'.db.occupied w'.now p.key : Int) < e.max_active_devices) :
    ∃ a, Authorized k semantic s w' a ∧ a.entitlement = e ∧ p.expiresAt ≤ authorityUntil a ∧
      authorityUntil a ≤ maxSafeInteger := by
  obtain ⟨owner, howner, hactive⟩ := hg.owner
  obtain ⟨trial, htrial, hstamp, hexpires⟩ := trial_again hsafe hg hallow
  have hsel := hm.selected he hg.owned howner hactive
  refine ⟨⟨e, owner.authority_revision, w'.now, device, binding, trial⟩,
    ⟨hattempt, hnamed, ⟨owner, selectEntitlement_eq_some.mpr hsel, rfl, hg.owned.status,
      hactive.status, hg.owned.valid_from, hg.owned.valid_until⟩, rfl, ?_, ?_, hfound.device_row.symm,
      hfound.device_ok, hfound.binding_row.symm, hfound.binding_ok, hfound.found, hfound.generation, ?_⟩,
    rfl, until_again hg rfl hexpires hmax⟩
  · rw [hm.key_id]
    exact htrial
  · rintro ⟨h1, h2⟩
    rw [hstamp] at h1
    have hroom := hg.window.stamp_room.resolve_left h1
    dsimp only at h2
    omega
  · intro hnone
    rw [hsel.occupied, hg.owned.key]
    exact hcap hnone

/-- The candidate of an exchange at a state in which the guard holds: the rows
that the run finds pass its checks. -/
theorem found_exchange {p : Candidate} {s : Subject} {semantic : Semantic} (hm : Matches s p)
    (href : Referential w'.db) (hg : LeaseGuard w'.db p w'.now e) (hx : p.purpose = .exchange)
    (hnamed : boundId semantic none = none) :
    ∃ device binding, Found semantic s w'.db device binding ∧
      (binding = none → (w'.db.occupied w'.now p.key : Int) < e.max_active_devices) := by
  obtain ⟨-, hdev, hbind⟩ : _ ∧ _ ∧ _ := by
    rcases hg.subject with ⟨hr, -⟩ | ⟨-, hrest⟩
    · exact absurd (hx.symm.trans hr) (by decide)
    · exact hrest
  have hfound : ∀ x : Prop, ¬ (boundId semantic none ≠ none ∧ x) := fun x hn => hn.1 hnamed
  have hgen : ∀ b, generationRefused semantic b = none := by
    intro b
    cases semantic with
    | exchange => rfl
    | renew => cases hnamed
  rcases hdev with ⟨d, hd, hact⟩ | ⟨-, hfree⟩
  · have hfind := find_device hd hact
    rw [← hm.key_id] at hfind
    have hdok := hm.device_ok hact
    rcases hbind with ⟨b, hb, hbact⟩ | hfresh
    · refine ⟨some d, some b, ⟨hfind, hdok, ?_, hm.binding_ok hact hbact, hfound _,
        fun b _ => hgen b⟩, nofun⟩
      rw [hnamed]
      refine Table.find?_eq hb ⟨hbact.device_id.trans hact.id.symm, hm.same.mpr hbact.key,
        hbact.state⟩ ?_
      rintro x y ⟨hx1, hx2, hx3⟩ ⟨hy1, hy2, hy3⟩
      exact .inr ⟨(hm.same.mp hx2).trans (hm.same.mp hy2).symm, hx1.trans hy1.symm, hx3, hy3⟩
    · refine ⟨some d, none, ⟨hfind, hdok, ?_, rfl, hfound _, nofun⟩, fun _ => hfresh.capacity⟩
      rw [hnamed]
      refine Table.find?_none.mpr fun b hb ⟨h1, h2, h3⟩ => ?_
      exact hfresh.device ⟨b, hb, hm.same.mp h2, h1.trans hact.id, h3⟩
  · have hnone : w'.db.device_bound_devices.find? (·.key_id = s.key_id) = none :=
      Table.find?_none.mpr fun d hd hk => hfree ⟨d, hd, .inl (hk.trans hm.key_id)⟩
    rcases hbind with ⟨b, hb, hbact⟩ | hfresh
    · obtain ⟨d, hd, hdid⟩ := href b hb
      exact absurd ⟨d, hd, .inr (hdid.trans hbact.device_id)⟩ hfree
    · refine ⟨none, none, ⟨hnone, rfl, ?_, rfl, hfound _, nofun⟩, fun _ => hfresh.capacity⟩
      rw [hnamed]
      rfl

/-- The attempt of the guard passes the checks of the run again. -/
theorem attempt_again {p : Candidate} {s : Subject} {t : Authorization}
    {handle code verifier uri op : String} (ht : s.attempt = some t) (hnow : s.now = w'.now)
    (happ : Approved p w'.now t)
    (hcode : p.codeHash = some (k.boundSecretHash code))
    (hpkce : p.pkceChallenge = some (k.pkceHash verifier)) (huri : p.redirectUri = some uri) :
    attemptRefused k (.exchange handle code verifier uri op) s none = none := by
  unfold attemptRefused
  rw [ht]
  dsimp only
  refine refused_none.mpr ⟨not_not.mpr (.inl happ.status), refused_none.mpr ⟨?_,
    refused_none.mpr ⟨?_, rfl⟩⟩⟩
  · rintro (h | h | h)
    · exact h (happ.code_hash.eq.trans hcode)
    · exact h (Option.some.inj (happ.pkce_challenge.symm.trans hpkce))
    · exact h (Option.some.inj (happ.redirect_uri.symm.trans huri))
  · rw [hnow]
    rintro (h | h | h)
    · exact h happ.status
    · exact absurd happ.expires_at (not_lt.mpr h)
    · exact h happ.code_expires_at

theorem Built.admits_exchange (h : Built k request ids w v a window) (hsafe : SafeTime w'.now)
    (href : Referential w'.db) (he : e ∈ w'.db.entitlements)
    (hg : LeaseGuard w'.db (builtCandidate k request ids v a window i) w'.now e)
    (hmax : window.expiresAt ≤ maxSafeInteger) (hx : request.purpose = .exchange) :
    AdmitsAgain k request w' e (builtCandidate k request ids v a window i) := by
  obtain ⟨c, hc, hopen⟩ := hg.challenge
  obtain ⟨t', ht', happ⟩ : ∃ t' ∈ w'.db.device_bound_authorizations,
      Approved (builtCandidate k request ids v a window i) w'.now t' := by
    rcases hg.subject with ⟨hr, -⟩ | ⟨-, ha, -⟩
    · exact absurd (hx.symm.trans hr) (by decide)
    · exact ha
  have hm : Matches (.ofAttempt t' w'.now) (builtCandidate k request ids v a window i) :=
    ⟨happ.key_id, happ.public_key_spki, happ.project, happ.customer_id, happ.feature,
      happ.license_fingerprint⟩
  have hattempt := h.authorized.attempt
  have hsubject := h.proven.subject
  unfold BoundRequest.purpose at hx
  cases hsem : request.semantic with
  | renew id generation op =>
    rw [hsem] at hx
    cases hx
  | exchange handle code verifier uri op =>
    rw [hsem] at hsubject hattempt
    obtain ⟨t, ht, hs⟩ := Option.map_eq_some_iff.mp hsubject
    obtain ⟨-, hhandle⟩ := Table.find?_some ht
    rw [← hs] at hattempt
    obtain ⟨-, hrest⟩ := refused_none.mp hattempt
    obtain ⟨hkeys, -⟩ := refused_none.mp hrest
    obtain ⟨hcode, hkeys⟩ := not_or.mp hkeys
    obtain ⟨hpkce, huri⟩ := not_or.mp hkeys
    have hid : t'.handle_hash = v.subject.id := happ.handle_hash
    have hsubject' : subjectOf k request.semantic w' = some (.ofAttempt t' w'.now) := by
      rw [hsem]
      refine Option.map_eq_some_iff.mpr ⟨t', Table.find?_eq ht' ?_ ?_, rfl⟩
      · rw [hid, ← hs]
        exact hhandle
      · exact fun _ _ ha hb => ha.trans hb.symm
    have hproven := h.proven_again hc hopen hsubject' hid happ.key_id happ.public_key_spki
    obtain ⟨device, binding, hfound, hcap⟩ := @found_exchange _ _ _ _ request.semantic hm href hg
      (by rw [← hx]; rfl) (by rw [hsem]; rfl)
    obtain ⟨a', ha', hent, huntil⟩ := authorized_again hm hsafe he hg hmax (k := k)
      (by
        rw [hsem]
        refine attempt_again rfl rfl happ ?_ ?_ ?_
        · exact (congrArg (·.attempt.bind (·.code_hash)) hs.symm).trans (not_not.mp hcode)
        · exact (congrArg (·.attempt.map (·.pkce_challenge)) hs.symm).trans
            (congrArg some (not_not.mp hpkce))
        · exact (congrArg (·.attempt.map (·.redirect_uri)) hs.symm).trans
            (congrArg some (not_not.mp huri)))
      (by rw [hsem]; exact nofun) (by rw [hsem]; exact nofun) hfound hcap
    exact ⟨_, a', hproven, ha', hent, huntil⟩

theorem Built.admits_renew (h : Built k request ids w v a window) (hsafe : SafeTime w'.now)
    (he : e ∈ w'.db.entitlements)
    (hg : LeaseGuard w'.db (builtCandidate k request ids v a window i) w'.now e)
    (hmax : window.expiresAt ≤ maxSafeInteger) (hr : request.purpose = .renew) :
    AdmitsAgain k request w' e (builtCandidate k request ids v a window i) := by
  obtain ⟨c, hc, hopen⟩ := hg.challenge
  obtain ⟨-, hsub, ⟨d', hd', hdact⟩, b', hb', hbact⟩ := hg.subject.resolve_right
    fun hx => absurd (hr.symm.trans hx.1) (by decide)
  have hm : Matches (.ofBinding b' d' w'.now) (builtCandidate k request ids v a window i) := by
    obtain ⟨h1, h2, h3⟩ := EntitlementKey.ext_iff.mp hbact.key
    exact ⟨hdact.key_id, hdact.public_key_spki, h1, congrArg some hdact.customer_id,
      congrArg some h2, congrArg some h3⟩
  have hsubject := h.proven.subject
  have hfound := h.authorized.found
  have hbinding := h.authorized.binding
  have hgeneration := h.authorized.generation
  unfold BoundRequest.purpose at hr
  cases hsem : request.semantic with
  | exchange handle code verifier uri op =>
    rw [hsem] at hr
    cases hr
  | renew id generation op =>
    rw [hsem] at hsubject hfound hbinding hgeneration
    obtain ⟨⟨b, d⟩, -, hs⟩ := Option.map_eq_some_iff.mp hsubject
    obtain ⟨hb, -⟩ := not_or.mp fun hn => hfound ⟨Option.some_ne_none _, hn⟩
    obtain ⟨b₀, hb₀⟩ := Option.ne_none_iff_exists'.mp hb
    have hid : b'.id = v.subject.id := hbact.id.trans hsub.symm
    have hb₀id : b₀.id = id := (Table.find?_some (hbinding.symm.trans hb₀)).2
    have hb'id : b'.id = id := by
      rw [hbact.id, ← hb₀id]
      exact congrArg (fun o => (o.map (·.id)).getD ids.binding) hb₀
    have hb'generation : b'.generation = b₀.generation := by
      rw [hbact.generation]
      exact congrArg (fun o => (o.map (·.generation)).getD 1) hb₀
    have hbound : selectBound id w'.db = some (b', d') := by
      unfold selectBound
      rw [Table.find?_eq hb' hb'id fun _ _ hx hy => .inl (hx.trans hy.symm), Option.bind_some,
        Table.find?_eq hd' (hdact.id.trans hbact.device_id.symm) fun _ _ hx hy =>
          .inl (hx.trans hy.symm)]
      rfl
    have hsubject' : subjectOf k request.semantic w' = some (.ofBinding b' d' w'.now) := by
      rw [hsem]
      exact Option.map_eq_some_iff.mpr ⟨_, hbound, rfl⟩
    have hproven := h.proven_again hc hopen hsubject' hid hdact.key_id hdact.public_key_spki
    have hagain : Found request.semantic (.ofBinding b' d' w'.now) w'.db (some d') (some b') := by
      have hdfind := find_device hd' hdact
      rw [← hm.key_id] at hdfind
      refine ⟨hdfind, hm.device_ok hdact, ?_, hm.binding_ok hdact hbact, ?_, ?_⟩
      · rw [hsem]
        exact Table.find?_eq hb' hb'id fun _ _ hx hy => .inl (hx.trans hy.symm)
      · rintro ⟨-, hn | hn⟩
        · cases hn
        · cases hn
      · intro x hx
        obtain rfl := Option.some.inj hx
        rw [hsem]
        have hg₀ := hgeneration b₀ hb₀
        unfold generationRefused at hg₀ ⊢
        rw [hb'generation]
        exact hg₀
    obtain ⟨a', ha', hent, huntil⟩ := authorized_again hm hsafe he hg hmax (k := k)
      (by rw [hsem]; rfl)
      (by
        rw [hsem]
        rintro x hx ⟨y, z⟩ hyz
        obtain rfl := Option.some.inj hx
        obtain ⟨rfl, rfl⟩ := Prod.mk.inj (Option.some.inj (hbound.symm.trans hyz))
        exact ⟨hbact.state, hdact.status⟩)
      (fun _ hx => absurd (hr.symm.trans hx) (by decide)) hagain nofun
    exact ⟨_, a', hproven, ha', hent, huntil⟩

/-- A new window fails only when one second of the authority is left. -/
theorem Built.window_again (h : Built k request ids w v a window) {now authorityEnd : Int}
    (hrange : now ≤ maxUnixepoch) (hissued : window.issuedAt ≤ now) (hahead : now < window.expiresAt)
    (hle : window.expiresAt ≤ authorityEnd) (hmax : authorityEnd ≤ maxSafeInteger)
    (hnone : deviceLeaseWindow now authorityEnd = none) : authorityEnd = now + 1 := by
  obtain ⟨hat, ⟨hfrom, -⟩, -⟩ := deviceLeaseWindow_spec h.window
  by_contra hne
  have hwindow : SafeTime now ∧ SafeTime authorityEnd ∧ SafeTime (leaseExpiresAt now authorityEnd) ∧
      2 ≤ leaseExpiresAt now authorityEnd - now ∧
      SafeTime (leaseExpiresAt now authorityEnd + deviceAcceptanceAllowance) := by
    unfold maxUnixepoch at hrange
    unfold SafeTime leaseExpiresAt deviceLeaseSeconds deviceAcceptanceAllowance maxSafeInteger at *
    omega
  unfold deviceLeaseWindow at hnone
  rw [if_pos hwindow] at hnone
  cases hnone

theorem Built.admits (h : Built k request ids w v a window) (hsafe : SafeTime w'.now)
    (href : Referential w'.db) (he : e ∈ w'.db.entitlements)
    (hg : LeaseGuard w'.db (builtCandidate k request ids v a window i) w'.now e)
    (hmax : window.expiresAt ≤ maxSafeInteger) :
    AdmitsAgain k request w' e (builtCandidate k request ids v a window i) := by
  by_cases hx : request.purpose = .exchange
  · exact h.admits_exchange hsafe href he hg hmax hx
  · refine h.admits_renew hsafe he hg hmax ?_
    exact ((subjectOf_cases h.proven.subject).resolve_left fun hn => hx hn.1).1

/-- What a run that comes to a commit means for the guard of that commit. At the
state of its reads the commit goes through. At any state in which the guard
holds, the checks of the run pass again, and only a new window can fail them: a
run needs two seconds for one. -/
theorem the_two_authority_checks_agree {p : Candidate}
    (h : Writes w (issueBoundLease k request ids) (.commit p)) :
    (∀ i, FreshIds w.db ids → FreshInvocation w.db i → Referential w.db →
      RevisionRoom w.db w.now → w.now ≤ maxUnixepoch →
        (∃ e ∈ w.db.entitlements, LeaseGuard w.db { p with invocationId := i } w.now e) ∧
        (commitBoundDeviceLease { p with invocationId := i } (fun _ => w.now) w.db).1 =
          .ok p.responseJson) ∧
    ∀ (w' : DeviceWorld) (i : String), Referential w'.db → w'.now ≤ maxUnixepoch →
      ∀ e ∈ w'.db.entitlements, LeaseGuard w'.db { p with invocationId := i } w'.now e →
        ∃ v a, Yields w' (prove k request) v ∧
          Yields w' (authority k request.semantic v.subject none) a ∧ a.entitlement = e ∧
          w'.now < authorityUntil a ∧
          (deviceLeaseWindow w'.now (authorityUntil a) = none → authorityUntil a = w'.now + 1) := by
  obtain ⟨v, a, window, hv, hop, ha, hwindow, rfl⟩ := writes_issueBoundLease h
  have hbuilt : Built k request ids w v a window := ⟨hv, ha, ha.now ▸ hwindow⟩
  obtain ⟨hat, ⟨hfrom, -⟩, hshort, -, -, haccept, hmax⟩ := deviceLeaseWindow_spec hbuilt.window
  constructor
  · intro i hids hi href hroom hrange
    exact ⟨⟨a.entitlement, (hbuilt.owned i).1, hbuilt.guard i hids href⟩,
      hbuilt.commits hop hids hi href hroom hrange⟩
  · intro w' i href hrange e he hg
    have hissued : window.issuedAt ≤ w'.now := hg.window.issued
    have hahead : w'.now < window.expiresAt := hg.window.ahead
    have hsafe : SafeTime w'.now := ⟨by omega, by omega⟩
    obtain ⟨v', a', hv', ha', hent, hle, hend⟩ := hbuilt.admits hsafe href he hg (by omega)
    have hle : window.expiresAt ≤ authorityUntil a' := hle
    exact ⟨v', a', yields_prove.mpr hv', yields_authority.mpr ha', hent, by omega,
      hbuilt.window_again hrange hissued hahead hle hend⟩

/-! ## Where the two checks differ -/

def exampleIds : IssueIds := ⟨"d", "b", "le"⟩

/-- The candidate that the request alone commits in a world. -/
def requestCandidate (w : DeviceWorld) : Option Candidate :=
  (alone w (issueBoundLease exampleEnv exampleRequest exampleIds).run).getRight?.bind
    fun write => match write with
      | .commit p => some p
      | _ => none

theorem writes_of_requestCandidate {w : DeviceWorld} {p : Candidate}
    (h : requestCandidate w = some p) :
    Writes w (issueBoundLease exampleEnv exampleRequest exampleIds) (.commit p) := by
  obtain ⟨write, hw, hp⟩ := Option.bind_eq_some_iff.mp h
  cases write with
  | commit q =>
    obtain rfl := Option.some.inj hp
    exact Sum.getRight?_eq_some_iff.mp hw
  | recover => cases hp
  | change => cases hp

/-- The guard and the batch of the candidate at a later time of the same
state. -/
def admitsAt (db : Db) (later : Int) (p : Candidate) : Bool × Bool :=
  (decide (∃ e ∈ db.entitlements, LeaseGuard db { p with invocationId := "i" } later e),
    (commitBoundDeviceLease { p with invocationId := "i" } (fun _ => later) db).1.isOk)

/-- The checks agree on a first exchange: its commit goes through, and two
seconds later the run would still pass its checks. -/
theorem the_first_exchange_is_admitted :
    ∃ p, requestCandidate ⟨10, [], exampleDb, []⟩ = some p ∧
      (∃ e ∈ exampleDb.entitlements, LeaseGuard exampleDb { p with invocationId := "i" } 10 e) ∧
      (commitBoundDeviceLease { p with invocationId := "i" } (fun _ => 10) exampleDb).1 =
        .ok p.responseJson ∧
      ∃ v a, Yields ⟨12, [], exampleDb, []⟩ (prove exampleEnv exampleRequest) v ∧
        Yields ⟨12, [], exampleDb, []⟩ (authority exampleEnv exampleRequest.semantic v.subject none)
          a := by
  have hlater : (requestCandidate ⟨10, [], exampleDb, []⟩).map (admitsAt exampleDb 12) =
      some (true, true) := by decide
  obtain ⟨p, hp, hadmits⟩ := Option.map_eq_some_iff.mp hlater
  obtain ⟨e, he, hguard⟩ := of_decide_eq_true (Prod.mk.inj hadmits).1
  have hagree := the_two_authority_checks_agree (writes_of_requestCandidate hp)
  obtain ⟨hadmitted, hcommits⟩ := hagree.1 "i" ⟨by decide, by decide, by decide⟩
    ⟨by decide, by decide, by decide, by decide⟩ nofun ⟨by decide, by decide, by decide⟩ (by decide)
  obtain ⟨v, a, hv, ha, -⟩ := hagree.2 ⟨12, [], exampleDb, []⟩ "i" nofun (by decide) e he hguard
  exact ⟨p, hp, hadmitted, hcommits, v, a, hv, ha⟩

/-- The state of the first exchange with an attempt that was created in the
future. -/
def earlyDb : Db := { exampleDb with
  device_bound_authorizations := ⟨[{ exampleAttempt with
    created_at := 172900, expires_at := 173500, code_expires_at := some 173400 }],
    by decide, by decide⟩ }

/-- The state of the first exchange with an entitlement that ends soon. -/
def endingDb : Db := { exampleDb with
  entitlements := ⟨[{ exampleEntitlement with valid_until := some 20 }], by decide, by decide⟩ }

/-- The run admits an attempt from the future and the batch aborts. The guard
takes a window that was built in time one second before the end of the
entitlement, when the run refuses every window. -/
theorem the_two_authority_checks_can_differ :
    (∃ p, Writes ⟨10, [], earlyDb, []⟩ (issueBoundLease exampleEnv exampleRequest exampleIds)
        (.commit p) ∧ admitsAt earlyDb 10 p = (true, false)) ∧
    (∃ p, Writes ⟨10, [], endingDb, []⟩ (issueBoundLease exampleEnv exampleRequest exampleIds)
        (.commit p) ∧ admitsAt endingDb 19 p = (true, true) ∧
      Fails ⟨19, [], endingDb, []⟩ (issueBoundLease exampleEnv exampleRequest exampleIds)
        (.denied ⟨"access_denied", 403⟩)) := by
  have early : (requestCandidate ⟨10, [], earlyDb, []⟩).map (admitsAt earlyDb 10) =
      some (true, false) := by decide
  have ending : (requestCandidate ⟨10, [], endingDb, []⟩).map (admitsAt endingDb 19) =
      some (true, true) := by decide
  have late : (alone (⟨19, [], endingDb, []⟩ : DeviceWorld)
      (issueBoundLease exampleEnv exampleRequest exampleIds).run).getLeft? =
        some (.error (.denied ⟨"access_denied", 403⟩)) := by decide
  obtain ⟨p, hp, hadmits⟩ := Option.map_eq_some_iff.mp early
  obtain ⟨q, hq, hadmits'⟩ := Option.map_eq_some_iff.mp ending
  exact ⟨⟨p, writes_of_requestCandidate hp, hadmits⟩, q, writes_of_requestCandidate hq, hadmits',
    Sum.getLeft?_eq_some_iff.mp late⟩

end Licensecc
