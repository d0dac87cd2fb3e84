-- The laws of an admitted commit. When the guard holds and the random ids are
-- new, no statement of the batch can fail, and the last check finds every row.
import Licensecc.Conc.World
import Licensecc.Device.Commit

open Licensecc.Sql Licensecc.Conc

namespace Licensecc

/-- Ids that no row has yet, and an operation that was never run. -/
structure FreshCommit (db : Db) (p : Candidate) : Prop where
  operation : ∀ o ∈ db.device_bound_operations,
    o.operationKey ≠ p.operationKey ∧ o.invocation_id ≠ p.invocationId
  lease : ∀ l ∈ db.device_bound_leases, l.id ≠ p.leaseId ∧ l.invocation_id ≠ p.invocationId
  event : ∀ a ∈ db.device_bound_events, a.invocation_id ≠ p.invocationId
  check : ∀ c ∈ db.device_bound_commit_checks, c.invocation_id ≠ p.invocationId

/-- No revision is at its end, and no attempt was created in the future. -/
structure RevisionRoom (db : Db) (now : Int) : Prop where
  bindings : ∀ b ∈ db.device_bound_bindings, b.revision < maxSafeInteger
  attempts : ∀ a ∈ db.device_bound_authorizations, a.revision < maxSafeInteger
  created : ∀ a ∈ db.device_bound_authorizations, a.created_at ≤ now

/-- What a commit at one time needs to succeed. -/
structure Committable (db : Db) (p : Candidate) (now : Int) (e : Entitlement) : Prop where
  entitlement : e ∈ db.entitlements
  guard : LeaseGuard db p now e
  fresh : FreshCommit db p
  room : RevisionRoom db now
  issued : 0 ≤ p.issuedAt
  accept : p.acceptUntil ≤ maxSafeInteger
  range : now ≤ maxUnixepoch

variable {p : Candidate} {db : Db} {now : Int} {e : Entitlement} {o : Operation}

theorem Committable.now_nonneg (h : Committable db p now e) : 0 ≤ now :=
  le_trans h.issued h.guard.window.issued

theorem Committable.now_safe (h : Committable db p now e) :
    SafeTime now ∧ now < now + 172800 ∧ now + 172800 ≤ maxSafeInteger := by
  have h0 := h.now_nonneg
  have hr := h.range
  unfold maxUnixepoch at hr
  unfold SafeTime maxSafeInteger
  omega

/-! ## The guard and the trial -/

theorem Committable.leaseGuard_runs (h : Committable db p now e) {changes : Nat} :
    ∃ n t, leaseGuard p now changes db = .ok (n, { db with device_bound_operations := t }) ∧
      db.device_bound_operations.insert (p.operation now) = .ok t := by
  obtain ⟨c, hc, ho⟩ := h.guard.owner
  obtain ⟨hsafe, hlt, hle⟩ := h.now_safe
  have hclash : ∀ r ∈ db.device_bound_operations, ¬ (p.operation now).sameSlot r := by
    rintro r hr (hk | hi)
    · exact (h.fresh.operation r hr).1 hk.symm
    · exact (h.fresh.operation r hr).2 hi.symm
  have hbefore : Schema.beforeInsert db.device_bound_operations.rows (p.operation now) = none := by
    refine if_neg ?_
    rintro ⟨r, hr, hs⟩
    exact hclash r hr (Operation.sameSlot_symm hs)
  obtain ⟨t, ht⟩ := Table.insert_ok hbefore ⟨hsafe, hlt, hle⟩ hclash
  have hinsert := Db.insertOperation_eq_ok.mpr ⟨⟨c, hc, ho.id⟩, t, ht, rfl⟩
  exact ⟨1, t, (if_pos ⟨e, h.entitlement, h.guard⟩).trans (inserted_eq_ok.mpr ⟨rfl, hinsert⟩), ht⟩

/-- The trial that an exchange starts is open for its key. -/
theorem stamped_trial (h : boundTrialSql e p.keyId now true)
    (hs : e.is_trial = 1 ∧ e.trial_started_at = none) (hnow : 0 ≤ now) (ho : o.committed_at = now) :
    boundTrialSql (stampSet p o e) p.keyId now false := by
  rcases h with h0 | ⟨h1, hk, hone, -, hopen⟩
  · rw [h0] at hs
    cases hs.1
  refine .inr ⟨h1, hk, hone, .inr ⟨⟨now, congrArg some ho, hnow, le_rfl⟩, p.keyId, rfl, hk,
    .inr rfl⟩, ?_⟩
  unfold trialOpenSql at hopen ⊢
  simpa only [stampSet, ho, hs.2, Option.getD_none, Option.getD_some] using hopen

theorem stamped_deadline {t : Int} (hd : boundTrialDeadlineSql e p.issuedAt = some t)
    (hs : e.trial_started_at = none) (hle : p.issuedAt ≤ now) (ho : o.committed_at = now) :
    ∃ t' ∈ boundTrialDeadlineSql (stampSet p o e) p.issuedAt, t ≤ t' := by
  unfold boundTrialDeadlineSql at hd ⊢
  by_cases hb : e.trial_expiration_basis = some "from_issue"
  · rw [if_pos hb] at hd
    exact ⟨t, (if_pos hb).trans hd, le_rfl⟩
  · rw [if_neg hb, hs, Option.getD_none] at hd
    refine ⟨now + e.trial_duration_sec, (if_neg hb).trans ?_, ?_⟩
    · simp [stampSet, ho]
    · obtain rfl := Option.some.inj hd
      omega

/-- The entitlement that the stamp leaves is the one that the last check
asks for. -/
theorem Committable.stamped (h : Committable db p now e) (ho : o.committed_at = now)
    (hstamp : p.trialStamp = 1) :
    FinalEntitlement p now o (e.bumped (stampSet p o e)) := by
  have hw := h.guard.window
  have hown := h.guard.owned
  have hs : e.is_trial = 1 ∧ e.trial_started_at = none := by
    have hst := hw.stamp
    rw [hstamp] at hst
    by_contra hn
    rw [if_neg hn] at hst
    cases hst
  have hne : (stampSet p o e).authorityOf ≠ e.authorityOf := by
    intro heq
    have hstart := congrArg Authority.trial_started_at heq
    simp only [Entitlement.authorityOf, stampSet, hs.2] at hstart
    cases hstart
  have hbump : e.bumped (stampSet p o e) =
      { stampSet p o e with authority_revision := e.authority_revision + 1 } := if_neg hne
  have htrial := stamped_trial hown.trial hs h.now_nonneg ho
  rw [hbump]
  refine ⟨⟨hown.key, hown.customer, hown.status, ?_, htrial, hown.valid_from, hown.valid_until⟩, ?_,
    .inr ⟨by rw [ho]; exact congrArg some ho, rfl⟩⟩
  · rw [hstamp]
    exact congrArg (· + 1) hown.authority_revision
  · rcases hw.trial_deadline with h0 | ⟨t, ht, hle⟩
    · rw [h0] at hs
      cases hs.1
    · obtain ⟨t', ht', hle'⟩ := stamped_deadline ht hs.2 hw.issued ho
      exact .inr ⟨t', ht', le_trans hle hle'⟩

theorem Committable.unstamped (h : Committable db p now e) (hstamp : p.trialStamp ≠ 1) :
    FinalEntitlement p now o e := by
  have hw := h.guard.window
  have hown := h.guard.owned
  have hst := hw.stamp
  have hs : ¬ (e.is_trial = 1 ∧ e.trial_started_at = none) := by
    intro hs
    rw [if_pos hs] at hst
    exact hstamp hst
  rw [if_neg hs] at hst
  refine ⟨⟨hown.key, hown.customer, hown.status, ?_, boundTrialSql_started hown.trial hs,
    hown.valid_from, hown.valid_until⟩, hw.trial_deadline, .inl hst⟩
  rw [hst, add_zero]
  exact hown.authority_revision

theorem Committable.stamp_selects (h : Committable db p now e) (hstamp : p.trialStamp = 1) :
    stampSelects p e := by
  have hw := h.guard.window
  have hown := h.guard.owned
  have hs : e.is_trial = 1 ∧ e.trial_started_at = none := by
    have hst := hw.stamp
    rw [hstamp] at hst
    by_contra hn
    rw [if_neg hn] at hst
    cases hst
  have hkey : e.trial_device_key_id = none := by
    rcases hown.trial with h0 | ⟨-, -, -, ⟨-, -, hk⟩ | ⟨⟨s, hss, -⟩, -⟩, -⟩
    · rw [h0] at hs
      cases hs.1
    · exact hk
    · rw [hs.2] at hss
      cases hss
  have hx : p.purpose = .exchange := hw.stamp_exchange.resolve_right (by rw [hstamp]; decide)
  exact ⟨hs.2, hkey, hs.1, hstamp, hx, hown.key, hown.authority_revision⟩

/-- The stamp of a trial succeeds, and it leaves the entitlement that the last
check asks for. -/
theorem Committable.stamps (h : Committable db p now e) (ho : o.committed_at = now) {db₁ : Db}
    (hsame : db₁.entitlements = db.entitlements) :
    ∃ n t g e', db₁.updateEntitlements now false (stampSelects p) (stampSet p o) =
      .ok (n, { db₁ with entitlements := t, generation := g }) ∧
      e' ∈ t ∧ FinalEntitlement p now o e' := by
  have he : e ∈ db₁.entitlements := hsame ▸ h.entitlement
  have hone : ∀ r ∈ db₁.entitlements, stampSelects p r → r = e := fun r hr hs =>
    Table.unique hr he (hs.2.2.2.2.2.1.trans h.guard.owned.key.symm)
  have hno : ∀ r ∈ db₁.entitlements, stampSelects p r →
      ¬ db₁.capacityInUse now false r (stampSet p o r) := by
    rintro r - - (⟨hf, -⟩ | ⟨hc, -⟩)
    · cases hf
    · exact hc rfl
  have hraise : ∀ r ∈ db₁.entitlements, stampSelects p r →
      Schema.beforeUpdate now r (r.bumped (stampSet p o r)) = none := by
    intro r _ _
    have hrev := @Entitlement.bumped_revision r (stampSet p o r) rfl
    exact if_neg (by omega)
  have hcheck : ∀ r ∈ db₁.entitlements, stampSelects p r →
      Schema.check (r.bumped (stampSet p o r)) := by
    intro r hr hs
    obtain ⟨hblank, hlow, -⟩ := db₁.entitlements.checked r hr
    have hrev := @Entitlement.bumped_revision r (stampSet p o r) rfl
    have hroom := h.guard.window.stamp_room.resolve_left (by rw [hs.2.2.2.1]; decide)
    rw [← hone r hr hs] at hroom
    refine ⟨?_, by omega, by omega⟩
    rw [Entitlement.bumped_eq]
    exact hblank
  obtain ⟨t, ht⟩ := Table.update_ok hraise hcheck fun a _ b _ hc => by
    have hsame : ∀ r : Entitlement, (if stampSelects p r then r.bumped (stampSet p o r) else
        r).toEntitlementKey = r.toEntitlementKey := by
      intro r
      split
      · exact Entitlement.bumped_key
      · rfl
    exact (hsame a).symm.trans (hc.trans (hsame b))
  have hupdate := Db.updateEntitlements_eq_ok.mpr ⟨hno, t, ht, rfl⟩
  by_cases hstamp : p.trialStamp = 1
  · exact ⟨_, t, _, _, hupdate, (Table.mem_of_update ht).mpr
      ⟨e, he, (if_pos (h.stamp_selects hstamp)).symm⟩, h.stamped ho hstamp⟩
  · exact ⟨_, t, _, _, hupdate, (Table.mem_of_update ht).mpr
      ⟨e, he, (if_neg fun hs => hstamp hs.2.2.2.1).symm⟩, h.unstamped hstamp⟩

/-! ## The other statements -/

section
variable {changes : Nat} (ho : db.device_bound_operations.find? (PreparedFor p ·) = some o)
include ho

theorem stampTrial_runs {db₁ : Db} (h : Committable db₁ p now e) (hcommit : o.committed_at = now)
    (hsame : db.entitlements = db₁.entitlements) : ∃ n, ∃ r : Table Entitlement × Int,
      stampTrial p now changes db =
        .ok (n, { db with entitlements := r.1, generation := r.2 }) ∧
      ∃ e' ∈ r.1, FinalEntitlement p now o e' := by
  obtain ⟨n, t, g, e', hrun, he', hf⟩ := h.stamps hcommit hsame
  exact ⟨n, (t, g), (joined_some ho).trans hrun, e', he', hf⟩

theorem createDevice_runs (hnow : SafeTime o.committed_at)
    (hcustomer : ∃ c ∈ db.customers, c.id = p.customerId)
    (hd : (∃ d ∈ db.device_bound_devices, ActiveDevice p d) ∨
      (p.purpose = .exchange ∧ p.deviceRevision = 0 ∧
        ¬ ∃ d ∈ db.device_bound_devices, d.key_id = p.keyId ∨ d.id = p.deviceId)) :
    ∃ n t, createDevice p now changes db = .ok (n, { db with device_bound_devices := t }) ∧
      ∃ d ∈ t, ActiveDevice p d := by
  rw [createDevice, joined_some ho]
  rcases hd with ⟨d, hd, ha⟩ | ⟨hx, hrev, hfree⟩
  · refine ⟨0, db.device_bound_devices, if_neg ?_, d, hd, ha⟩
    rintro ⟨-, hno⟩
    exact hno ⟨d, hd, ha.id⟩
  · have hid : ¬ ∃ d ∈ db.device_bound_devices, d.id = p.deviceId := by
      rintro ⟨d, hd, hid⟩
      exact hfree ⟨d, hd, .inr hid⟩
    have hclash : ∀ d ∈ db.device_bound_devices, ¬ Schema.clash (p.device o) d := by
      rintro d hd (hc | hc)
      · exact hfree ⟨d, hd, .inr hc.symm⟩
      · exact hfree ⟨d, hd, .inl hc.symm⟩
    have h0 : SafeTime 0 := by decide
    have hcheck : Schema.check (p.device o) := ⟨h0, hnow, hnow⟩
    obtain ⟨t, ht⟩ := Table.insert_ok rfl hcheck hclash
    have hinsert := Db.insertDevice_eq_ok.mpr ⟨hcustomer, t, ht, rfl⟩
    refine ⟨1, t, (if_pos ⟨hx, hid⟩).trans (inserted_eq_ok.mpr ⟨rfl, hinsert⟩), p.device o,
      (Table.mem_of_insert ht).mpr (.inl rfl), rfl, rfl, rfl, rfl, rfl, rfl, hrev.symm⟩

theorem createBinding_runs (hnow : SafeTime o.committed_at)
    (hdevice : ∃ d ∈ db.device_bound_devices, d.id = p.deviceId)
    (hentitlement : ∃ e ∈ db.entitlements, e.toEntitlementKey = p.key)
    (hb : (∃ b ∈ db.device_bound_bindings, ActiveBinding p b) ∨
      (p.purpose = .exchange ∧ p.generation = 1 ∧ p.bindingRevision = 0 ∧
        (¬ ∃ b ∈ db.device_bound_bindings, b.id = p.bindingId) ∧
        ¬ ∃ b ∈ db.device_bound_bindings, b.toEntitlementKey = p.key ∧ b.device_id = p.deviceId ∧
          b.state = .active)) :
    ∃ n t, createBinding p now changes db = .ok (n, { db with device_bound_bindings := t }) ∧
      ∃ b ∈ t, ActiveBinding p b := by
  rw [createBinding, joined_some ho]
  rcases hb with ⟨b, hb, ha⟩ | ⟨hx, hgen, hrev, hid, hactive⟩
  · refine ⟨0, db.device_bound_bindings, if_neg ?_, b, hb, ha⟩
    rintro ⟨-, hno⟩
    exact hno ⟨b, hb, ha.id⟩
  · have hclash : ∀ b ∈ db.device_bound_bindings, ¬ Schema.clash (p.binding o) b := by
      rintro b hb (hc | ⟨hk, hd, -, hs⟩)
      · exact hid ⟨b, hb, hc.symm⟩
      · exact hactive ⟨b, hb, hk.symm, hd.symm, hs⟩
    have h0 : SafeTime 0 := by decide
    have h1 : (1 : Int) ≤ 1 ∧ 1 ≤ maxSafeInteger := by decide
    have hcheck : Schema.check (p.binding o) := ⟨h1, h0, h0, hnow, hnow⟩
    obtain ⟨t, ht⟩ := Table.insert_ok rfl hcheck hclash
    have hinsert := Db.insertBinding_eq_ok.mpr ⟨⟨hdevice, hentitlement⟩, t, ht, rfl⟩
    exact ⟨1, t, (if_pos ⟨hx, hid⟩).trans (inserted_eq_ok.mpr ⟨rfl, hinsert⟩), p.binding o,
      (Table.mem_of_insert ht).mpr (.inl rfl), rfl, rfl, rfl, rfl, hgen.symm, hrev.symm⟩

theorem consumeChallenge_runs (hc : ∃ c ∈ db.device_bound_challenges, OpenChallenge p now c) :
    ∃ n t, consumeChallenge p now changes db = .ok (n, { db with device_bound_challenges := t }) ∧
      ∃ c ∈ t, FinalChallenge p now c := by
  rw [consumeChallenge, joined_some ho]
  have hraise : ∀ c ∈ db.device_bound_challenges, OpenChallenge p now c →
      Schema.beforeUpdate now c (challengeSet p.invocationId c) = none := by
    intro c _ hs
    refine if_neg ?_
    simp [challengeSet, hs.unconsumed]
  obtain ⟨t, ht⟩ := Table.update_ok hraise
    (fun c hc _ => db.device_bound_challenges.checked c hc) fun a _ b _ hab => by
      split at hab <;> split at hab <;> exact hab
  obtain ⟨c, hc, hopen⟩ := hc
  exact ⟨_, t, stored_eq_ok.mpr ⟨t, ht, rfl⟩, challengeSet p.invocationId c,
    (Table.mem_of_update ht).mpr ⟨c, hc, (if_pos hopen).symm⟩, hopen.id, rfl, hopen.operation_id,
    hopen.key_id, hopen.subject_id, hopen.purpose, hopen.nonce_hash, hopen.expires_at, hopen.ahead⟩

theorem consumeApproval_runs (hretain : SafeTime o.retain_until)
    (ha : p.purpose = .renew ∨ (p.purpose = .exchange ∧
      ∃ a ∈ db.device_bound_authorizations, Approved p now a))
    (hrev : ∀ a ∈ db.device_bound_authorizations, a.revision < maxSafeInteger)
    (hcreated : ∀ a ∈ db.device_bound_authorizations, a.created_at < o.retain_until) :
    ∃ n t, consumeApproval p now changes db =
        .ok (n, { db with device_bound_authorizations := t }) ∧
      (p.purpose = .renew ∨ ∃ a ∈ t, FinalApproval p now a) := by
  rw [consumeApproval, joined_some ho]
  have hraise : ∀ a ∈ db.device_bound_authorizations, (p.purpose = .exchange ∧ Approved p now a) →
      Schema.beforeUpdate now a (approvalSet p o a) = none := by
    rintro a - ⟨-, happ⟩
    have hstatus := happ.status
    simp only [Schema.beforeUpdate, approvalSet, Authorization.approvalOf, Authorization.intentOf,
      Authorization.consumptionOf, AuthorizationStatus.mayBecome, hstatus]
    simp
  have hcheck : ∀ a ∈ db.device_bound_authorizations, (p.purpose = .exchange ∧ Approved p now a) →
      Schema.check (approvalSet p o a) := by
    rintro a ha ⟨-, happ⟩
    obtain ⟨h1, h2, h3, h4, h5, -, h7, -, h9⟩ := db.device_bound_authorizations.checked a ha
    have hr := hrev a ha
    have hc := hcreated a ha
    have hanswered : (approvalSet p o a).answered := by
      unfold Authorization.answered at h7
      rw [happ.status] at h7
      exact h7
    refine ⟨⟨by dsimp only [approvalSet]; omega, by dsimp only [approvalSet]; omega⟩, h2, h3, h4, h5,
      ?_, hanswered, ?_, h9⟩
    · rintro t ht
      obtain rfl := Option.some.inj ht
      exact hretain
    · exact ⟨nofun, nofun, ⟨_, rfl, hc⟩, rfl⟩
  obtain ⟨t, ht⟩ := Table.update_ok hraise hcheck fun a _ b _ hab => by
    split at hab <;> split at hab <;> exact hab
  refine ⟨_, t, stored_eq_ok.mpr ⟨t, ht, rfl⟩, ?_⟩
  rcases ha with hr | ⟨hx, a, ha, happ⟩
  · exact .inl hr
  refine .inr ⟨approvalSet p o a, (Table.mem_of_update ht).mpr ⟨a, ha, (if_pos ⟨hx, happ⟩).symm⟩,
    ⟨happ.handle_hash, happ.customer_id, happ.project, happ.feature, happ.license_fingerprint,
      happ.key_id, happ.code_hash, happ.pkce_challenge, happ.redirect_uri, happ.expires_at,
      happ.code_expires_at⟩, rfl, ?_, rfl, rfl⟩
  rw [happ.revision]
  rfl

theorem updateBinding_runs (hnow : SafeTime o.committed_at)
    (hb : ∃ b ∈ db.device_bound_bindings, ActiveBinding p b)
    (hrev : p.bindingRevision < maxSafeInteger) (haccept : p.acceptUntil ≤ maxSafeInteger) :
    ∃ n t, updateBinding p now changes db = .ok (n, { db with device_bound_bindings := t }) ∧
      ∃ b ∈ t, FinalBinding p b := by
  rw [updateBinding, joined_some ho]
  have hraise : ∀ b ∈ db.device_bound_bindings, ActiveBinding p b →
      Schema.beforeUpdate now b (bindingSet p o b) = none := by
    intro b _ hs
    have hstate := hs.state
    simp [Schema.beforeUpdate, bindingSet, hstate]
  have hcheck : ∀ b ∈ db.device_bound_bindings, ActiveBinding p b →
      Schema.check (bindingSet p o b) := by
    intro b hb hs
    obtain ⟨h1, h2, h3, h4, -⟩ := db.device_bound_bindings.checked b hb
    have hr := hs.revision
    refine ⟨h1, ⟨by dsimp only [bindingSet]; omega, by dsimp only [bindingSet]; omega⟩, ⟨?_, ?_⟩,
      h4, hnow⟩
    · exact le_trans h3.1 (le_max_left _ _)
    · exact max_le h3.2 haccept
  obtain ⟨t, ht⟩ := Table.update_ok hraise hcheck fun a _ b _ hab => by
    split at hab <;> split at hab <;> exact hab
  obtain ⟨b, hb, ha⟩ := hb
  refine ⟨_, t, stored_eq_ok.mpr ⟨t, ht, rfl⟩, bindingSet p o b,
    (Table.mem_of_update ht).mpr ⟨b, hb, (if_pos ha).symm⟩, ha.id, ha.key, ha.device_id, ha.state,
    ha.generation, ?_, le_max_right _ _⟩
  rw [← ha.revision]
  rfl

theorem updateDevice_runs (hnow : SafeTime o.committed_at)
    (hd : ∃ d ∈ db.device_bound_devices, ActiveDevice p d) :
    ∃ n t, updateDevice p now changes db = .ok (n, { db with device_bound_devices := t }) ∧
      ∃ d ∈ t, ActiveDevice p d ∧ d.last_proof_at = o.committed_at := by
  rw [updateDevice, joined_some ho]
  have hraise : ∀ d ∈ db.device_bound_devices, ActiveDevice p d →
      Schema.beforeUpdate now d (deviceSet o d) = none := by
    intro d _ _
    simp [Schema.beforeUpdate, deviceSet]
  have hcheck : ∀ d ∈ db.device_bound_devices, ActiveDevice p d →
      Schema.check (deviceSet o d) := by
    intro d hd _
    obtain ⟨h1, h2, -⟩ := db.device_bound_devices.checked d hd
    exact ⟨h1, h2, hnow⟩
  obtain ⟨t, ht⟩ := Table.update_ok hraise hcheck fun a _ b _ hab => by
    split at hab <;> split at hab <;> exact hab
  obtain ⟨d, hd, ha⟩ := hd
  exact ⟨_, t, stored_eq_ok.mpr ⟨t, ht, rfl⟩, deviceSet o d,
    (Table.mem_of_update ht).mpr ⟨d, hd, (if_pos ha).symm⟩,
    ⟨ha.id, ha.key_id, ha.public_key_spki, ha.customer_id, ha.project, ha.status, ha.revision⟩, rfl⟩

theorem issueLease_runs (hb : ∃ b ∈ db.device_bound_bindings, b.id = p.bindingId)
    (hcheck : Schema.check p.lease)
    (hfresh : ∀ l ∈ db.device_bound_leases, l.id ≠ p.leaseId ∧ l.invocation_id ≠ p.invocationId) :
    ∃ n t, issueLease p now changes db = .ok (n, { db with device_bound_leases := t }) ∧
      p.lease ∈ t := by
  rw [issueLease, joined_some ho]
  have hclash : ∀ l ∈ db.device_bound_leases, ¬ Schema.clash p.lease l := by
    rintro l hl (hc | hc)
    · exact (hfresh l hl).1 hc.symm
    · exact (hfresh l hl).2 hc.symm
  obtain ⟨t, ht⟩ := Table.insert_ok rfl hcheck hclash
  have hinsert := Db.insertLease_eq_ok.mpr ⟨hb, t, ht, rfl⟩
  exact ⟨1, t, inserted_eq_ok.mpr ⟨rfl, hinsert⟩, (Table.mem_of_insert ht).mpr (.inl rfl)⟩

theorem audit_runs (hnow : SafeTime o.committed_at)
    (hb : ∃ b ∈ db.device_bound_bindings, b.id = p.bindingId)
    (hcustomer : ∃ c ∈ db.customers, c.id = p.customerId)
    (hfresh : ∀ a ∈ db.device_bound_events, a.invocation_id ≠ p.invocationId) :
    ∃ n t, audit p now changes db = .ok (n, { db with device_bound_events := t }) ∧
      ∃ a ∈ t, FinalEvent p a := by
  rw [audit, joined_some ho]
  have hclash : ∀ a ∈ db.device_bound_events, ¬ Schema.clash (p.event o) a :=
    fun a ha hc => hfresh a ha hc.symm
  obtain ⟨t, ht⟩ := @Table.insert_ok _ _ (p.event o) _ rfl hnow hclash
  have hinsert := Db.insertEvent_eq_ok.mpr ⟨⟨hb, hcustomer⟩, t, ht, rfl⟩
  exact ⟨1, t, inserted_eq_ok.mpr ⟨rfl, hinsert⟩, p.event o, (Table.mem_of_insert ht).mpr (.inl rfl),
    rfl, rfl, rfl, rfl, rfl⟩

end

theorem finalize_runs {changes : Nat} (ho : p.operation now ∈ db.device_bound_operations)
    (hf : Finalizes db p now (p.operation now)) :
    ∃ n t, finalize p now changes db = .ok (n, { db with device_bound_operations := t }) ∧
      ∃ o ∈ t, CompleteFor p o := by
  have hraise : ∀ r ∈ db.device_bound_operations, Finalizes db p now r →
      Schema.beforeUpdate now r (operationSet r) = none := by
    intro r _ hr
    have hs := hr.prepared
    cases r
    cases hs
    simp [Schema.beforeUpdate, operationSet]
  obtain ⟨t, ht⟩ := Table.update_ok hraise
    (fun r hr _ => db.device_bound_operations.checked r hr) fun a _ b _ hab => by
      split at hab <;> split at hab <;> exact hab
  exact ⟨_, t, stored_eq_ok.mpr ⟨t, ht, rfl⟩, operationSet (p.operation now),
    (Table.mem_of_update ht).mpr ⟨_, ho, (if_pos hf).symm⟩, rfl, rfl, rfl, rfl, rfl, rfl, rfl, rfl,
    rfl⟩

/-- The check row goes in and out again. -/
theorem checks_run {changes : Nat} (ho : ∃ o ∈ db.device_bound_operations, CompleteFor p o)
    (hfresh : ∀ c ∈ db.device_bound_commit_checks, c.invocation_id ≠ p.invocationId) :
    ∃ ns db', runBatch [assertComplete p, removeCheck p.invocationId] (fun _ => now) changes db =
      .ok (ns, db') := by
  have hclash : ∀ c ∈ db.device_bound_commit_checks, ¬ Schema.clash ⟨p.invocationId, 1⟩ c :=
    fun c hc he => hfresh c hc he.symm
  obtain ⟨t, ht⟩ := Table.insert_ok rfl rfl hclash
  obtain ⟨t', ht'⟩ := @Table.delete_ok _ _ (·.invocation_id = p.invocationId) _ t fun _ _ _ => rfl
  have hassert : assertComplete p now changes db =
      .ok (1, { db with device_bound_commit_checks := t }) := by
    unfold assertComplete assertThat
    rw [if_pos ho, ht]
    rfl
  refine ⟨_, _, runBatch_cons.mpr ⟨_, _, _, hassert, runBatch_cons.mpr ⟨_, _, _,
    stored_eq_ok.mpr ⟨t', ht', rfl⟩, runBatch_nil.mpr ⟨rfl, rfl⟩, rfl⟩, rfl⟩⟩

/-! ## The batch -/

/-- A batch goes on when its first statement succeeds. -/
theorem runs_cons {τ : Type} {stmt : Stmt Db} {rest : List (Stmt Db)} {changes : Nat}
    {f : τ → Db} {Q : τ → Prop} (h : ∃ n t, stmt now changes db = .ok (n, f t) ∧ Q t)
    (hrest : ∀ n t, Q t → ∃ ns db', runBatch rest (fun _ => now) n (f t) = .ok (ns, db')) :
    ∃ ns db', runBatch (stmt :: rest) (fun _ => now) changes db = .ok (ns, db') := by
  obtain ⟨n, t, hs, hq⟩ := h
  obtain ⟨ns, db', hr⟩ := hrest n t hq
  exact ⟨_, db', runBatch_cons.mpr ⟨n, f t, ns, hs, hr, rfl⟩⟩

theorem Committable.device (h : Committable db p now e) :
    (∃ d ∈ db.device_bound_devices, ActiveDevice p d) ∨
      (p.purpose = .exchange ∧ p.deviceRevision = 0 ∧
        ¬ ∃ d ∈ db.device_bound_devices, d.key_id = p.keyId ∨ d.id = p.deviceId) := by
  rcases h.guard.subject with ⟨-, -, hd, -⟩ | ⟨hx, -, hd | hd, -⟩
  · exact .inl hd
  · exact .inl hd
  · exact .inr ⟨hx, hd⟩

theorem Committable.binding (h : Committable db p now e) :
    (∃ b ∈ db.device_bound_bindings, ActiveBinding p b) ∨
      (p.purpose = .exchange ∧ p.generation = 1 ∧ p.bindingRevision = 0 ∧
        (¬ ∃ b ∈ db.device_bound_bindings, b.id = p.bindingId) ∧
        ¬ ∃ b ∈ db.device_bound_bindings, b.toEntitlementKey = p.key ∧ b.device_id = p.deviceId ∧
          b.state = .active) := by
  rcases h.guard.subject with ⟨-, -, -, hb⟩ | ⟨hx, -, -, hb | hb⟩
  · exact .inl hb
  · exact .inl hb
  · exact .inr ⟨hx, hb.generation, hb.revision, hb.id, hb.device⟩

theorem Committable.approval (h : Committable db p now e) : p.purpose = .renew ∨
    (p.purpose = .exchange ∧ ∃ a ∈ db.device_bound_authorizations, Approved p now a) := by
  rcases h.guard.subject with ⟨hr, -⟩ | ⟨hx, ha, -⟩
  · exact .inl hr
  · exact .inr ⟨hx, ha⟩

theorem Committable.revision (h : Committable db p now e) :
    p.bindingRevision < maxSafeInteger ∧ 1 ≤ p.generation ∧ p.generation ≤ maxSafeInteger := by
  rcases h.binding with ⟨b, hb, ha⟩ | ⟨-, hgen, hrev, -⟩
  · have hroom := h.room.bindings b hb
    have hcheck := (db.device_bound_bindings.checked b hb).1
    have hr := ha.revision
    have hg := ha.generation
    omega
  · rw [hgen, hrev]
    decide

theorem Committable.lease_check (h : Committable db p now e) : Schema.check p.lease := by
  have hw := h.guard.window
  have hrev := h.guard.owned.authority_revision
  have hsafe := (db.entitlements.checked e h.entitlement).2
  have hroom := hw.stamp_room
  have hst := hw.stamp
  obtain ⟨-, hgen⟩ := h.revision
  have haccept := h.accept
  have hissued := h.issued
  have hlong := hw.longest
  have hshort := hw.shortest
  have hacc := hw.accept
  have hbit : p.trialStamp = 0 ∨ p.trialStamp = 1 := by
    rw [hst]
    split
    · exact .inr rfl
    · exact .inl rfl
  refine ⟨hgen, ⟨?_, ?_⟩, ⟨hissued, ?_⟩, ?_, hlong, hacc, haccept⟩ <;>
    simp only [Candidate.lease] <;> omega

/-- A commit whose guard holds, with new ids, succeeds. -/
theorem Committable.commits (h : Committable db p now e) :
    ∃ ns db', runBatch (boundLeaseCommit p) (fun _ => now) 0 db = .ok (ns, db') := by
  obtain ⟨hsafe, -, hle⟩ := h.now_safe
  obtain ⟨hrev, -⟩ := h.revision
  obtain ⟨c, hc, howner⟩ := h.guard.owner
  have hcustomer : ∃ c ∈ db.customers, c.id = p.customerId := ⟨c, hc, howner.id⟩
  have hretain : SafeTime (p.operation now).retain_until := by
    refine ⟨?_, hle⟩
    simp only [Candidate.operation]
    omega
  have hcreated : ∀ a ∈ db.device_bound_authorizations,
      a.created_at < (p.operation now).retain_until := by
    intro a ha
    have hcr := h.room.created a ha
    simp only [Candidate.operation]
    omega
  refine runs_cons h.leaseGuard_runs fun _ ops hops => ?_
  have ho := find_prepared hops
  refine runs_cons (stampTrial_runs ho h rfl rfl) fun _ r hr => ?_
  obtain ⟨e', he', hentitlement⟩ := hr
  refine runs_cons (createDevice_runs ho hsafe hcustomer h.device) fun _ devices hdevices => ?_
  obtain ⟨d, hd, hdev⟩ := hdevices
  refine runs_cons (createBinding_runs ho hsafe ⟨d, hd, hdev.id⟩
    ⟨e', he', hentitlement.owned.key⟩ h.binding) fun _ bindings hbinding => ?_
  refine runs_cons (consumeChallenge_runs ho h.guard.challenge) fun _ challenges hchallenge => ?_
  refine runs_cons (consumeApproval_runs ho hretain h.approval h.room.attempts hcreated)
    fun _ authorizations happroval => ?_
  refine runs_cons (updateBinding_runs ho hsafe hbinding hrev h.accept) fun _ bindings hb => ?_
  obtain ⟨b, hb, hbound⟩ := hb
  refine runs_cons (updateDevice_runs ho hsafe ⟨d, hd, hdev⟩) fun _ devices hdevice => ?_
  refine runs_cons (issueLease_runs ho ⟨b, hb, hbound.id⟩ h.lease_check h.fresh.lease)
    fun _ leases hlease => ?_
  refine runs_cons (audit_runs ho hsafe ⟨b, hb, hbound.id⟩ hcustomer h.fresh.event)
    fun _ events hevent => ?_
  have hmem : p.operation now ∈ ops := (Table.mem_of_insert hops).mpr (.inl rfl)
  refine runs_cons (finalize_runs hmem ⟨rfl, rfl, h.guard.window.ahead, h.guard.owner,
    ⟨e', he', hentitlement, p.lease, hlease, ?_⟩, hdevice, ⟨b, hb, hbound⟩, hevent, hchallenge,
    happroval⟩) fun _ ops hcomplete => ?_
  · exact ⟨rfl, rfl, rfl, hentitlement.owned.authority_revision.symm, rfl, rfl, rfl, rfl, rfl⟩
  exact checks_run hcomplete h.fresh.check

end Licensecc
