-- The laws of the two trial rules. The trial of an entitlement is decided
-- once over values and once as a predicate of SQL, and both give one answer
-- at every safe time. The window of a lease follows them.
import Licensecc.Schema.Device
import Licensecc.Sql.Truth
import Mathlib.Data.List.Basic

open Licensecc.Sql

namespace Licensecc

/-! ## Key ids -/

def hexDigit (c : Char) : Prop := ('0' ≤ c ∧ c ≤ '9') ∨ ('a' ≤ c ∧ c ≤ 'f')

instance (c : Char) : Decidable (hexDigit c) := inferInstanceAs (Decidable (_ ∧ _ ∨ _ ∧ _))

/-- The UTF-16 code units of a character. -/
def utf16Size (c : Char) : Nat := if c.val ≤ 0xFFFF then 1 else 2

/-- The `length` of a JavaScript string. -/
def utf16Length (value : String) : Nat :=
  value.toList.foldr (fun c units => utf16Size c + units) 0

/-- The pattern `^sha256:[0-9a-f]{64}$`. -/
def keyIdPattern (value : String) : Prop :=
  value.toList.take 7 = "sha256:".toList ∧ (value.toList.drop 7).length = 64 ∧
    ∀ c ∈ value.toList.drop 7, hexDigit c

def keyId (value : String) : Prop := utf16Length value = 71 ∧ keyIdPattern value

/-- The key id test of `boundTrialSql`. The last part is the GLOB that finds a
character that is no digit. -/
def keyIdSql (value : String) : Prop :=
  length value = 71 ∧ blobLength value = 71 ∧ value.toList.take 7 = "sha256:".toList ∧
    ¬ ∃ c ∈ value.toList.drop 7, ¬ hexDigit c

instance (l : List Char) : Decidable (∀ c ∈ l, hexDigit c) := List.decidableBAll _ l

instance (l : List Char) : Decidable (∃ c ∈ l, ¬ hexDigit c) := List.decidableBEx _ l

instance (value : String) : Decidable (keyIdPattern value) :=
  inferInstanceAs (Decidable (_ ∧ _ ∧ _))

instance (value : String) : Decidable (keyId value) := inferInstanceAs (Decidable (_ ∧ _))

instance (value : String) : Decidable (keyIdSql value) :=
  inferInstanceAs (Decidable (_ ∧ _ ∧ _ ∧ ¬ _))

/-- A character that takes one byte in UTF-8 and one unit in UTF-16, and that
is no NUL. -/
def Plain (c : Char) : Prop := c.utf8Size = 1 ∧ utf16Size c = 1 ∧ c ≠ '\x00'

instance (c : Char) : Decidable (Plain c) := inferInstanceAs (Decidable (_ ∧ _ ∧ _))

theorem hexDigit_plain {c : Char} (h : hexDigit c) : Plain c := by
  have hle : c.val ≤ 127 := by
    rcases h with ⟨-, h⟩ | ⟨-, h⟩
    · exact UInt32.le_trans h (by decide)
    · exact UInt32.le_trans h (by decide)
  refine ⟨Char.utf8Size_eq_one_iff.mpr hle, ?_, ?_⟩
  · unfold utf16Size
    exact if_pos (UInt32.le_trans hle (by decide))
  · rintro rfl
    revert h
    decide

/-- A text of the pattern has 71 plain characters. -/
theorem keyIdPattern_plain {value : String} (h : keyIdPattern value) :
    value.toList.length = 71 ∧ ∀ c ∈ value.toList, Plain c := by
  obtain ⟨htake, hlen, hhex⟩ := h
  have hsplit := List.take_append_drop 7 value.toList
  constructor
  · have hl := congrArg List.length hsplit
    rw [List.length_append, htake, hlen] at hl
    exact hl.symm
  · intro c hc
    rw [← hsplit, List.mem_append, htake] at hc
    rcases hc with hc | hc
    · have hall : "sha256:".toList.all (fun c => Plain c) = true := by decide
      exact of_decide_eq_true (List.all_eq_true.mp hall c hc)
    · exact hexDigit_plain (hhex c hc)

theorem utf16Length_eq {value : String} (h : ∀ c ∈ value.toList, Plain c) :
    utf16Length value = value.toList.length := by
  unfold utf16Length
  revert h
  induction value.toList with
  | nil => exact fun _ => rfl
  | cons c l ih =>
    intro h
    have hc := (h c List.mem_cons_self).2.1
    have hl := ih fun d hd => h d (List.mem_cons_of_mem c hd)
    simp only [List.foldr_cons, List.length_cons, hc, hl]
    omega

/-- Both key id tests accept the texts of the pattern. -/
theorem keyId_iff_pattern (value : String) : keyId value ↔ keyIdPattern value := by
  constructor
  · exact And.right
  · intro h
    obtain ⟨hlen, hplain⟩ := keyIdPattern_plain h
    exact ⟨(utf16Length_eq hplain).trans hlen, h⟩

theorem keyIdSql_iff_pattern (value : String) : keyIdSql value ↔ keyIdPattern value := by
  constructor
  · rintro ⟨h1, h2, h3, h4⟩
    have hchars := length_le value
    have hbytes := le_blobLength value
    refine ⟨h3, by rw [List.length_drop]; omega, fun c hc => ?_⟩
    by_contra hn
    exact h4 ⟨c, hc, hn⟩
  · intro h
    obtain ⟨hlen, hplain⟩ := keyIdPattern_plain h
    refine ⟨(length_eq fun c hc => (hplain c hc).2.2).trans hlen,
      (blobLength_eq fun c hc => (hplain c hc).1).trans hlen, h.1, ?_⟩
    rintro ⟨c, hc, hn⟩
    exact hn (h.2.2 c hc)

theorem keyId_iff_keyIdSql (value : String) : keyId value ↔ keyIdSql value :=
  (keyId_iff_pattern value).trans (keyIdSql_iff_pattern value).symm

/-! ## The trial over values -/

structure TrialState where
  stamp : Int
  expiresAt : Option Int
  deriving DecidableEq

def activationBases (basis : Option String) : Prop :=
  basis = some "from_first_activation" ∨ basis = some "from_first_use"

instance (basis : Option String) : Decidable (activationBases basis) :=
  inferInstanceAs (Decidable (_ ∨ _))

/-- The deadline of a trial, or none for a basis or a duration that is not
valid. -/
def trialExpiresAt (row : Entitlement) (now : Int) : Option Int :=
  if row.trial_expiration_basis = some "from_issue" then
    match row.valid_until with
    | some expiresAt => if SafeTime expiresAt then some expiresAt else none
    | none => none
  else if activationBases row.trial_expiration_basis then
    if row.trial_duration_sec < 2 ∨ maxSafeInteger < row.trial_duration_sec then none
    else
      let expiresAt := row.trial_started_at.getD now + row.trial_duration_sec
      if SafeTime expiresAt then some expiresAt else none
  else none

/-- The tests of `boundTrialState` on the start and on the device that the
trial is locked to: a trial that has not started has no device yet. -/
def trialHolder (row : Entitlement) (provenKeyId : String) (now : Int) (allowUnstarted : Bool) :
    Prop :=
  match row.trial_started_at with
  | none => allowUnstarted = true ∧ row.trial_device_key_id = none
  | some started => (SafeTime started ∧ started ≤ now ∧ ∃ key ∈ row.trial_device_key_id, keyId key) ∧
      ¬ (row.trial_one_per_device = 1 ∧ row.trial_device_key_id ≠ some provenKeyId)

instance (row : Entitlement) (provenKeyId : String) (now : Int) (allowUnstarted : Bool) :
    Decidable (trialHolder row provenKeyId now allowUnstarted) := by
  unfold trialHolder
  split <;> exact inferInstance

/-- `boundTrialState`: what a verified key may do with the trial of an
entitlement at a time. -/
def boundTrialState (row : Entitlement) (provenKeyId : String) (now : Int)
    (allowUnstarted : Bool) : Option TrialState :=
  if row.is_trial = 0 then some ⟨0, none⟩
  else if row.is_trial = 1 ∧ SafeTime now ∧ keyId provenKeyId ∧
      (row.trial_one_per_device = 0 ∨ row.trial_one_per_device = 1) ∧
      trialHolder row provenKeyId now allowUnstarted then
    match trialExpiresAt row now with
    | some expiresAt =>
      if now < expiresAt then
        some ⟨if row.trial_started_at = none then 1 else 0, some expiresAt⟩
      else none
    | none => none
  else none

/-! ## The trial in SQL -/

/-- `boundTrialDeadlineSql`. -/
def boundTrialDeadlineSql (e : Entitlement) (prospectiveStart : Int) : Option Int :=
  if e.trial_expiration_basis = some "from_issue" then e.valid_until
  else some (e.trial_started_at.getD prospectiveStart + e.trial_duration_sec)

/-- The part of `boundTrialSql` about the device that the trial is locked
to. -/
def trialHolderSql (e : Entitlement) (provenKey : String) (now : Int) (allowUnstarted : Bool) :
    Prop :=
  (allowUnstarted = true ∧ e.trial_started_at = none ∧ e.trial_device_key_id = none) ∨
    ((∃ started ∈ e.trial_started_at, 0 ≤ started ∧ started ≤ now) ∧
      ∃ lockedKey ∈ e.trial_device_key_id, keyIdSql lockedKey ∧
        (e.trial_one_per_device = 0 ∨ lockedKey = provenKey))

/-- The part of `boundTrialSql` about the deadline. -/
def trialOpenSql (e : Entitlement) (now : Int) : Prop :=
  (e.trial_expiration_basis = some "from_issue" ∧
      ∃ until_ ∈ e.valid_until, 0 ≤ until_ ∧ until_ ≤ maxSafeInteger ∧ now < until_) ∨
    (activationBases e.trial_expiration_basis ∧ 2 ≤ e.trial_duration_sec ∧
      e.trial_duration_sec ≤ maxSafeInteger - e.trial_started_at.getD now ∧
      now < e.trial_started_at.getD now + e.trial_duration_sec)

/-- `boundTrialSql`. -/
def boundTrialSql (e : Entitlement) (provenKey : String) (now : Int) (allowUnstarted : Bool) :
    Prop :=
  e.is_trial = 0 ∨ (e.is_trial = 1 ∧ keyIdSql provenKey ∧
    (e.trial_one_per_device = 0 ∨ e.trial_one_per_device = 1) ∧
    trialHolderSql e provenKey now allowUnstarted ∧ trialOpenSql e now)

instance (e : Entitlement) (provenKey : String) (now : Int) (allowUnstarted : Bool) :
    Decidable (trialHolderSql e provenKey now allowUnstarted) :=
  inferInstanceAs (Decidable (_ ∧ _ ∧ _ ∨ (∃ _ ∈ _, _ ∧ _) ∧ ∃ _ ∈ _, _ ∧ (_ ∨ _)))

instance (e : Entitlement) (now : Int) : Decidable (trialOpenSql e now) :=
  inferInstanceAs (Decidable (_ ∧ (∃ _ ∈ _, _ ∧ _ ∧ _) ∨ _ ∧ _ ∧ _ ∧ _))

instance (e : Entitlement) (provenKey : String) (now : Int) (allowUnstarted : Bool) :
    Decidable (boundTrialSql e provenKey now allowUnstarted) :=
  inferInstanceAs (Decidable (_ ∨ _ ∧ _ ∧ _ ∧ _ ∧ _))

/-! ## The agreement of the two -/

/-- The deadline that both rules read is one number, and it is ahead. -/
theorem trialExpiresAt_iff {e : Entitlement} {now expiresAt : Int}
    (hnow : SafeTime now) (hstart : ∀ s ∈ e.trial_started_at, 0 ≤ s) :
    (trialExpiresAt e now = some expiresAt ∧ now < expiresAt) ↔
      trialOpenSql e now ∧ boundTrialDeadlineSql e now = some expiresAt := by
  have hbase : 0 ≤ e.trial_started_at.getD now := by
    cases hs : e.trial_started_at with
    | none => exact hnow.1
    | some s => exact hstart s hs
  unfold trialExpiresAt trialOpenSql boundTrialDeadlineSql
  by_cases hb : e.trial_expiration_basis = some "from_issue"
  · have ha : ¬ activationBases (some "from_issue") := by decide
    cases hv : e.valid_until with
    | none => simp [hb, ha]
    | some u =>
      by_cases hu : SafeTime u
      · simp only [hb, ↓reduceIte, if_pos hu, Option.mem_def, Option.some.injEq, exists_eq_left',
          true_and, ha, false_and, or_false]
        constructor
        · rintro ⟨rfl, h⟩; exact ⟨⟨hu.1, hu.2, h⟩, rfl⟩
        · rintro ⟨⟨-, -, h⟩, rfl⟩; exact ⟨rfl, h⟩
      · simp only [hb, ↓reduceIte, if_neg hu, reduceCtorEq, false_and, Option.mem_def,
          Option.some.injEq, exists_eq_left', true_and, ha, or_false, false_iff]
        rintro ⟨⟨h1, h2, -⟩, -⟩
        exact hu ⟨h1, h2⟩
  · simp only [hb, ↓reduceIte, false_and, false_or, Option.some.injEq]
    by_cases ha : activationBases e.trial_expiration_basis
    · simp only [ha, ↓reduceIte, true_and]
      split
      · simp only [reduceCtorEq, false_and, false_iff]
        omega
      · split
        · simp only [Option.some.injEq]
          constructor <;> omega
        · simp only [reduceCtorEq, false_and, false_iff]
          omega
    · simp [ha]

theorem trialOpenSql_deadline {e : Entitlement} {now : Int} (h : trialOpenSql e now) :
    ∃ x, boundTrialDeadlineSql e now = some x ∧ x ≤ maxSafeInteger := by
  unfold boundTrialDeadlineSql
  rcases h with ⟨hb, x, hx, -, hle, -⟩ | ⟨hb, -, hle, -⟩
  · exact ⟨x, by rw [if_pos hb]; exact hx, hle⟩
  · have hne : e.trial_expiration_basis ≠ some "from_issue" := by
      rcases hb with hb | hb <;> rw [hb] <;> decide
    exact ⟨_, if_neg hne, by omega⟩

/-- The two rules ask the same of the start and of the locked device. -/
theorem trialHolder_iff {e : Entitlement} {key : String} {now : Int} {allow : Bool}
    (hnow : SafeTime now)
    (hone : e.trial_one_per_device = 0 ∨ e.trial_one_per_device = 1) :
    trialHolder e key now allow ↔ trialHolderSql e key now allow := by
  unfold trialHolder trialHolderSql
  cases hs : e.trial_started_at with
  | none => simp
  | some started =>
    cases hd : e.trial_device_key_id with
    | none => simp
    | some locked =>
      simp only [Option.mem_def, Option.some.injEq, exists_eq_left', keyId_iff_keyIdSql, ne_eq,
        reduceCtorEq, and_false, false_or]
      constructor
      · rintro ⟨⟨h1, h2, h3⟩, h4⟩
        refine ⟨⟨h1.1, h2⟩, h3, ?_⟩
        rcases hone with h | h
        · exact .inl h
        · exact .inr (by_contra fun hne => h4 ⟨h, hne⟩)
      · rintro ⟨⟨h1, h2⟩, h3, h4⟩
        refine ⟨⟨⟨h1, le_trans h2 hnow.2⟩, h2, h3⟩, fun ⟨h5, h6⟩ => ?_⟩
        rcases h4 with h | h
        · omega
        · exact h6 h

/-- The trial over values admits exactly what the predicate admits, with the
stamp and the deadline that the commit checks. -/
theorem boundTrialState_iff {e : Entitlement} {key : String} {now : Int} {allow : Bool}
    {trial : TrialState} (hnow : SafeTime now) :
    boundTrialState e key now allow = some trial ↔ boundTrialSql e key now allow ∧
      trial.stamp = (if e.is_trial = 1 ∧ e.trial_started_at = none then 1 else 0) ∧
      trial.expiresAt = if e.is_trial = 0 then none else boundTrialDeadlineSql e now := by
  obtain ⟨stamp, expires⟩ := trial
  unfold boundTrialState boundTrialSql
  by_cases h0 : e.is_trial = 0
  · simp [h0, eq_comm]
  rw [if_neg h0]
  by_cases hall : e.is_trial = 1 ∧ SafeTime now ∧ keyId key ∧
      (e.trial_one_per_device = 0 ∨ e.trial_one_per_device = 1) ∧ trialHolder e key now allow
  · obtain ⟨h1, -, hk, hone, hh⟩ := hall
    rw [if_pos ⟨h1, hnow, hk, hone, hh⟩]
    have hstart : ∀ s ∈ e.trial_started_at, 0 ≤ s := by
      intro s hs
      rw [Option.mem_def] at hs
      simp only [trialHolder, hs] at hh
      exact hh.1.1.1
    have hx := fun x => @trialExpiresAt_iff e now x hnow hstart
    rw [keyId_iff_keyIdSql] at hk
    rw [trialHolder_iff hnow hone] at hh
    simp only [h1, hk, hone, hh, true_and]
    constructor
    · intro h
      cases ht : trialExpiresAt e now with
      | none => rw [ht] at h; cases h
      | some x =>
        rw [ht] at h
        by_cases hlt : now < x
        · obtain ⟨ho, hd⟩ := (hx x).mp ⟨ht, hlt⟩
          simp only [hlt, ↓reduceIte, Option.some.injEq, TrialState.mk.injEq] at h
          exact ⟨.inr ho, h.1.symm, by rw [← h.2, if_neg (by omega), hd]⟩
        · simp [hlt] at h
    · rintro ⟨h | ho, rfl, rfl⟩
      · omega
      · obtain ⟨x, hd, -⟩ := trialOpenSql_deadline ho
        obtain ⟨ht, hlt⟩ := (hx x).mpr ⟨ho, hd⟩
        simp [ht, hlt, hd]
  · rw [if_neg hall]
    simp only [reduceCtorEq, h0, false_or, false_iff]
    rintro ⟨⟨h1, hk, hone, hh, -⟩, -⟩
    exact hall ⟨h1, hnow, (keyId_iff_keyIdSql key).mpr hk, hone, (trialHolder_iff hnow hone).mpr hh⟩

/-- A deadline that starts with the issue moves on with the time, and any other
deadline stays. -/
theorem boundTrialDeadlineSql_later {e : Entitlement} {start later t : Int} (hle : start ≤ later)
    (ht : boundTrialDeadlineSql e start = some t) :
    ∃ t', boundTrialDeadlineSql e later = some t' ∧ t ≤ t' := by
  unfold boundTrialDeadlineSql at ht ⊢
  by_cases hb : e.trial_expiration_basis = some "from_issue"
  · rw [if_pos hb] at ht ⊢
    exact ⟨t, ht, le_rfl⟩
  · rw [if_neg hb] at ht ⊢
    obtain rfl := Option.some.inj ht
    refine ⟨_, rfl, ?_⟩
    cases e.trial_started_at with
    | none =>
      simp only [Option.getD_none]
      omega
    | some started => exact le_rfl

theorem boundTrialSql_allow {e : Entitlement} {key : String} {now : Int} {allow : Bool}
    (h : boundTrialSql e key now allow) : boundTrialSql e key now true := by
  rcases h with h0 | ⟨h1, hk, hone, hh, ho⟩
  · exact .inl h0
  · refine .inr ⟨h1, hk, hone, ?_, ho⟩
    rcases hh with ⟨-, hh⟩ | hh
    · exact .inl ⟨rfl, hh⟩
    · exact .inr hh

/-- A trial that has started does not need the leave to start one. -/
theorem boundTrialSql_started {e : Entitlement} {key : String} {now : Int}
    (h : boundTrialSql e key now true) (hs : ¬ (e.is_trial = 1 ∧ e.trial_started_at = none)) :
    boundTrialSql e key now false := by
  rcases h with h0 | ⟨h1, hk, hone, hh, ho⟩
  · exact .inl h0
  · refine .inr ⟨h1, hk, hone, ?_, ho⟩
    rcases hh with ⟨-, hn, -⟩ | hh
    · exact absurd ⟨h1, hn⟩ hs
    · exact .inr hh

/-! ## The window of a lease -/

/-- `DEVICE_LEASE_SECONDS` and `DEVICE_ACCEPTANCE_ALLOWANCE`. -/
def deviceLeaseSeconds : Int := 86400

def deviceAcceptanceAllowance : Int := 120

structure LeaseWindow where
  issuedAt : Int
  renewAfter : Int
  expiresAt : Int
  acceptUntil : Int

def leaseExpiresAt (issuedAt entitlementUntil : Int) : Int :=
  issuedAt + min deviceLeaseSeconds (entitlementUntil - issuedAt)

/-- `deviceLeaseWindow`: none where the code throws. -/
def deviceLeaseWindow (issuedAt entitlementUntil : Int) : Option LeaseWindow :=
  if SafeTime issuedAt ∧ SafeTime entitlementUntil ∧
      SafeTime (leaseExpiresAt issuedAt entitlementUntil) ∧
      2 ≤ leaseExpiresAt issuedAt entitlementUntil - issuedAt ∧
      SafeTime (leaseExpiresAt issuedAt entitlementUntil + deviceAcceptanceAllowance) then
    some {
      issuedAt
      renewAfter := issuedAt + (leaseExpiresAt issuedAt entitlementUntil - issuedAt) / 2
      expiresAt := leaseExpiresAt issuedAt entitlementUntil
      acceptUntil := leaseExpiresAt issuedAt entitlementUntil + deviceAcceptanceAllowance }
  else none

/-- A window is at least two seconds and at most a day, ends with the
entitlement or sooner, and is accepted two minutes longer. -/
theorem deviceLeaseWindow_spec {issuedAt entitlementUntil : Int} {w : LeaseWindow}
    (h : deviceLeaseWindow issuedAt entitlementUntil = some w) :
    w.issuedAt = issuedAt ∧ SafeTime issuedAt ∧ 2 ≤ w.expiresAt - w.issuedAt ∧
      w.expiresAt - w.issuedAt ≤ 86400 ∧ w.expiresAt ≤ entitlementUntil ∧
      w.acceptUntil = w.expiresAt + 120 ∧ w.acceptUntil ≤ maxSafeInteger := by
  obtain ⟨⟨h1, -, -, h4, -, h5⟩, h⟩ := Option.ite_none_right_eq_some.mp h
  obtain rfl := Option.some.inj h
  have hle : leaseExpiresAt issuedAt entitlementUntil ≤ issuedAt + 86400 ∧
      leaseExpiresAt issuedAt entitlementUntil ≤ entitlementUntil := by
    unfold leaseExpiresAt deviceLeaseSeconds
    omega
  exact ⟨rfl, h1, h4, by dsimp only; omega, hle.2, rfl, h5⟩

end Licensecc
