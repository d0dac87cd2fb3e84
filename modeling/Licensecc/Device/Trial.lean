-- The law of the trial agreement. The predicate of SQL, with NULL as unknown,
-- is true exactly when the rule over values admits the device, and both name
-- the same deadline.
import Licensecc.Device.Policy

open Licensecc.Sql

namespace Licensecc

/-! ## The predicate over NULL-able columns -/

/-- `substr(x,8) NOT GLOB '*[^0-9a-f]*'`. -/
def noOtherCharacter (value : Option String) : Truth :=
  .not (.test (fun v => ∃ c ∈ v.toList.drop 7, ¬ hexDigit c) value)

def keyIdTruth (value : Option String) : Truth :=
  .and (.eq (value.map length) (some 71))
    (.and (.eq (value.map blobLength) (some 71))
      (.and (.eq (value.map fun v => v.toList.take 7) (some "sha256:".toList))
        (noOtherCharacter value)))

def trialHolderTruth (e : Entitlement) (provenKey : String) (now : Int) (allowUnstarted : Bool) :
    Truth :=
  .or
    (.and (.eq (some (if allowUnstarted then 1 else 0)) (some 1))
      (.and (.isNull e.trial_started_at) (.isNull e.trial_device_key_id)))
    (.and (.isInteger e.trial_started_at)
      (.and (.between e.trial_started_at (some 0) (some now))
        (.and (keyIdTruth e.trial_device_key_id)
          (.or (.eq (some e.trial_one_per_device) (some 0))
            (.eq e.trial_device_key_id (some provenKey))))))

def trialOpenTruth (e : Entitlement) (now : Int) : Truth :=
  .or
    (.and (.eq e.trial_expiration_basis (some "from_issue"))
      (.and (.isInteger e.valid_until)
        (.and (.between e.valid_until (some 0) (some maxSafeInteger))
          (.lt (some now) e.valid_until))))
    (.and (.isIn e.trial_expiration_basis ["from_first_activation", "from_first_use"])
      (.and (.isInteger (some e.trial_duration_sec))
        (.and (.le (some 2) (some e.trial_duration_sec))
          (.and (.le (some e.trial_duration_sec)
              (sub (some maxSafeInteger) (coalesce e.trial_started_at (some now))))
            (.lt (some now)
              (add (coalesce e.trial_started_at (some now)) (some e.trial_duration_sec)))))))

/-- The text of `boundTrialSql`, operator by operator. -/
def boundTrialTruth (e : Entitlement) (provenKey : String) (now : Int) (allowUnstarted : Bool) :
    Truth :=
  .or (.eq (some e.is_trial) (some 0))
    (.and (.eq (some e.is_trial) (some 1))
      (.and (keyIdTruth (some provenKey))
        (.and (.isIn (some e.trial_one_per_device) [0, 1])
          (.and (trialHolderTruth e provenKey now allowUnstarted) (trialOpenTruth e now)))))

/-! ## When the predicate is true -/

variable {e : Entitlement} {provenKey : String} {now : Int} {allowUnstarted : Bool}

theorem keyIdTruth_iff {value : Option String} :
    keyIdTruth value = some true ↔ ∃ v ∈ value, keyIdSql v := by
  cases value with
  | none => simp [keyIdTruth]
  | some v =>
    simp only [keyIdTruth, noOtherCharacter, keyIdSql, Truth.and_true_iff, Truth.eq_true_iff,
      Truth.not_true_iff, Truth.test_false_iff, same_some, Option.map_some, Option.some.injEq,
      Option.mem_def, exists_eq_left']

theorem trialHolderTruth_iff : trialHolderTruth e provenKey now allowUnstarted = some true ↔
    trialHolderSql e provenKey now allowUnstarted := by
  simp only [trialHolderTruth, trialHolderSql, Truth.or_true_iff, Truth.and_true_iff,
    Truth.eq_true_iff, Truth.isNull_true_iff, Truth.isInteger_true_iff, Truth.between,
    Truth.le_true_iff, keyIdTruth_iff, same_some, Option.mem_def, Option.some.injEq,
    exists_eq_left']
  refine or_congr (and_congr_left fun _ => ?_) ?_
  · cases allowUnstarted <;> decide
  constructor
  · rintro ⟨-, ⟨⟨s, hs, h0⟩, s', hs', hle⟩, ⟨k, hk, hkey⟩, hlock⟩
    obtain rfl := Option.some.inj (hs.symm.trans hs')
    refine ⟨⟨s, hs, h0, hle⟩, k, hk, hkey, hlock.imp id fun h => ?_⟩
    exact Option.some.inj (hk.symm.trans h)
  · rintro ⟨⟨s, hs, h0, hle⟩, k, hk, hkey, hlock⟩
    refine ⟨⟨s, hs⟩, ⟨⟨s, hs, h0⟩, s, hs, hle⟩, ⟨k, hk, hkey⟩, hlock.imp id fun h => ?_⟩
    rw [hk, h]

theorem trialOpenTruth_iff : trialOpenTruth e now = some true ↔ trialOpenSql e now := by
  simp only [trialOpenTruth, trialOpenSql, activationBases, Truth.or_true_iff, Truth.and_true_iff,
    Truth.eq_true_iff, Truth.isInteger_true_iff, Truth.between, Truth.le_true_iff,
    Truth.lt_true_iff, Truth.isIn_true_iff, same_some, coalesce_some, sub_some, add_some,
    Option.mem_def, Option.some.injEq, exists_eq_left', List.mem_cons, List.not_mem_nil, or_false]
  refine or_congr (and_congr_right fun _ => ?_) (and_congr ?_ ?_)
  · constructor
    · rintro ⟨-, ⟨⟨u, hu, h0⟩, u', hu', hle⟩, u'', hu'', hlt⟩
      obtain rfl := Option.some.inj (hu.symm.trans hu')
      obtain rfl := Option.some.inj (hu.symm.trans hu'')
      exact ⟨u, hu, h0, hle, hlt⟩
    · rintro ⟨u, hu, h0, hle, hlt⟩
      exact ⟨⟨u, hu⟩, ⟨⟨u, hu, h0⟩, u, hu, hle⟩, u, hu, hlt⟩
  · constructor
    · rintro ⟨x, hx, rfl | rfl⟩
      · exact .inl hx
      · exact .inr hx
    · rintro (h | h)
      · exact ⟨_, h, .inl rfl⟩
      · exact ⟨_, h, .inr rfl⟩
  · constructor
    · rintro ⟨-, h⟩
      exact h
    · intro h
      exact ⟨⟨_, rfl⟩, h⟩

/-- The predicate selects a row exactly when its condition without unknowns
holds. -/
theorem boundTrialTruth_iff : boundTrialTruth e provenKey now allowUnstarted = some true ↔
    boundTrialSql e provenKey now allowUnstarted := by
  simp only [boundTrialTruth, boundTrialSql, Truth.or_true_iff, Truth.and_true_iff,
    Truth.eq_true_iff, Truth.isIn_true_iff, keyIdTruth_iff, trialHolderTruth_iff,
    trialOpenTruth_iff, same_some, Option.mem_def, Option.some.injEq, exists_eq_left',
    List.mem_cons, List.not_mem_nil, or_false]

/-! ## The agreement -/

/-- Both rules admit the same devices at the same times. The rule over values
reports the deadline of the SQL rule for a trial and none for another
entitlement, and it asks for a stamp exactly for a trial that has not
started. -/
theorem the_two_trial_rules_agree (e : Entitlement) (provenKey : String) (now : Int)
    (allowUnstarted : Bool) (hnow : 0 ≤ now ∧ now ≤ maxSafeInteger) :
    ((∃ trial, boundTrialState e provenKey now allowUnstarted = some trial) ↔
      boundTrialTruth e provenKey now allowUnstarted = some true) ∧
    ∀ trial, boundTrialState e provenKey now allowUnstarted = some trial →
      trial.expiresAt = (if e.is_trial = 0 then none else boundTrialDeadlineSql e now) ∧
      (e.is_trial ≠ 0 → trial.expiresAt ≠ none) ∧
      (trial.stamp = 1 ↔ e.is_trial ≠ 0 ∧ e.trial_started_at = none) ∧
      (trial.stamp = 0 ∨ trial.stamp = 1) := by
  rw [boundTrialTruth_iff]
  constructor
  · constructor
    · rintro ⟨trial, h⟩
      exact ((boundTrialState_iff hnow).mp h).1
    · intro h
      exact ⟨⟨_, _⟩, (boundTrialState_iff hnow).mpr ⟨h, rfl, rfl⟩⟩
  · intro trial h
    obtain ⟨hsql, hstamp, hexpires⟩ := (boundTrialState_iff hnow).mp h
    refine ⟨hexpires, ?_, ?_, ?_⟩
    · intro h0
      obtain ⟨x, hx, -⟩ := trialOpenSql_deadline (hsql.resolve_left h0).2.2.2.2
      rw [hexpires, if_neg h0, hx]
      exact Option.some_ne_none x
    · rw [hstamp]
      rcases hsql with h0 | ⟨h1, -⟩
      · simp [h0]
      · by_cases hs : e.trial_started_at = none
        · simp [h1, hs]
        · simp [hs]
    · rw [hstamp]
      split
      · exact .inr rfl
      · exact .inl rfl

/-- A key id of the pattern. -/
def exampleKeyId : String := "sha256:" ++ String.ofList (List.replicate 64 'a')

/-- A trial of ten seconds that has not started. -/
def exampleTrial : Entitlement := { exampleEntitlement with
  is_trial := 1, trial_duration_sec := 10, trial_expiration_basis := some "from_first_use" }

theorem a_new_trial_starts_under_both_rules :
    boundTrialState exampleTrial exampleKeyId 5 true = some ⟨1, some 15⟩ ∧
      boundTrialTruth exampleTrial exampleKeyId 5 true = some true := by
  have hstate : boundTrialState exampleTrial exampleKeyId 5 true = some ⟨1, some 15⟩ := by
    decide
  exact ⟨hstate, (the_two_trial_rules_agree exampleTrial exampleKeyId 5 true (by decide)).1.mp
    ⟨_, hstate⟩⟩

/-- An entitlement that is no trial has no start, and the rule over values
admits it without a stamp and without a deadline. -/
theorem an_ordinary_entitlement_needs_no_stamp :
    boundTrialState exampleEntitlement exampleKeyId 5 true = some ⟨0, none⟩ ∧
      boundTrialTruth exampleEntitlement exampleKeyId 5 true = some true ∧
      exampleEntitlement.trial_started_at = none ∧ boundTrialDeadlineSql exampleEntitlement 5 ≠ none := by
  decide

end Licensecc
