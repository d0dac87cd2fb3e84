-- The rate limits of the bound-device routes. A counter of a window stops at 10001, so
-- it keeps every limit that it can pass and no larger one.
import Licensecc.Device.Rate
import Licensecc.Conc.Quota

open Licensecc.Sql Licensecc.Conc

namespace Licensecc.Device

/-! ## The limits -/

section
variable {fuse w : Int}

/-- A fuse that the counter can pass lets no more requests through in a window. -/
theorem requests_le_fuse (hpos : 0 < fuse) (hlast : fuse ≤ lastCount) {t : Counters} (ht : Counted t)
    {steps : List RateStep} (hsteps : ∀ e ∈ steps, e.During w) :
    (admissions (rateStep fuse) (requestPasses fuse) t steps : Int) ≤ fuse := by
  have hle := admissions_le (rateStep fuse) (requestPasses fuse)
    (fun t => (fuse - countOf t "device-v2-global" "global" w).toNat)
    (fun _ _ h _ => counted_rateStep h)
    (fun t e h he => by
      have := countOf_le_rateStep "device-v2-global" "global" fuse h he
      omega)
    (fun t e h he hadm => by
      cases e with
      | verified v => cases hadm
      | cleanup now => cases hadm
      | request r =>
        obtain ⟨hopen, hcount⟩ := admitted_request he hpos hadm
        have hbounds := countOf_bounds "device-v2-global" "global" w h
        simp only [rateStep]
        omega)
    ht hsteps
  have hbounds := countOf_bounds "device-v2-global" "global" w ht
  omega

/-- A limit below the last count lets no more verified requests of a customer through in a
window. -/
theorem customer_requests_le_limit {customer : String} {limit : Int} (hpos : 0 ≤ limit)
    (hlast : limit < lastCount) {t : Counters} (ht : Counted t) {steps : List RateStep}
    (hsteps : ∀ e ∈ steps, e.During w) :
    (admissions (rateStep fuse) (customerPasses customer limit) t steps : Int) ≤ limit := by
  have hle := admissions_le (rateStep fuse) (customerPasses customer limit)
    (fun t => (limit - countOf t "device-v2-customer" customer w).toNat)
    (fun _ _ h _ => counted_rateStep h)
    (fun t e h he => by
      have := countOf_le_rateStep "device-v2-customer" customer fuse h he
      omega)
    (fun t e h he hadm => by
      cases e with
      | request r => cases hadm
      | cleanup now => cases hadm
      | verified v =>
        simp only [customerPasses, Bool.and_eq_true, decide_eq_true_eq] at hadm
        obtain ⟨⟨rfl, rfl⟩, hadm⟩ := hadm
        obtain ⟨hlimit, hcount⟩ := admitted_verified he hadm
        simp only [rateStep]
        omega)
    ht hsteps
  have hbounds := countOf_bounds "device-v2-customer" customer w ht
  omega

/-! ## Runs past the last count -/

/-- The source of a number. -/
def source (n : Nat) : String := String.ofList (List.replicate n 'x')

theorem source_injective {n m : Nat} (h : source n = source m) : n = m := by
  have := congrArg (fun s => s.toList.length) h
  simpa [source] using this

/-- The sources from a number on have no counter. -/
def Unseen (ns : String) (n : Nat) (t : Counters) : Prop :=
  ∀ m, n ≤ m → counter t ns (source m) 0 = none

theorem Unseen.upsert {ns : String} {n : Nat} {t : Counters} (h : Unseen ns n t)
    (ns' key : String) (now : Int) (hkey : ns' ≠ ns ∨ key = source n) :
    Unseen ns (n + 1) (upsert ns' key now t) := by
  intro m hm
  rw [counter_upsert_other]
  · exact h m (by omega)
  · rintro ⟨rfl, hsource, -⟩
    rcases hkey with hne | rfl
    · exact hne rfl
    · have := source_injective hsource
      omega

theorem Unseen.mono {ns : String} {n m : Nat} {t : Counters} (h : Unseen ns n t) (hle : n ≤ m) :
    Unseen ns m t := fun k hk => h k (by omega)

theorem countOf_unseen {ns : String} {n : Nat} {t : Counters} (h : Unseen ns n t) :
    countOf t ns (source n) 0 = 0 := by
  unfold countOf
  rw [h n (Nat.le_refl n)]
  rfl

/-- A request of a new source at time zero. -/
def freshRequest (n : Nat) : RateStep := .request ⟨source n, false, none, fun _ => 0⟩

theorem isSafeInteger_of_bounds {n : Int} (h : 0 ≤ n) (h' : n ≤ lastCount) : isSafeInteger n = true := by
  unfold lastCount at h'
  unfold isSafeInteger maxSafeInteger
  simp only [Bool.decide_and, Bool.and_eq_true, decide_eq_true_eq]
  omega

theorem isSafeInteger_zero : isSafeInteger 0 = true := by decide

theorem isSafeInteger_one : isSafeInteger 1 = true := by decide

/-- Past the last count every request of a new source passes. -/
theorem fresh_request_passes (hfuse : lastCount < fuse) {n : Nat} {t : Counters} (ht : Counted t)
    (hnew : Unseen "device-v2-client" n t) : requestPasses fuse t (freshRequest n) = true := by
  have hwindow : window 0 = 0 := by decide
  have hopen : GlobalOpen fuse 0 t := by
    rintro ⟨c, hc, -, hge⟩
    have := (ht c hc).2.1
    omega
  obtain ⟨own, hown, hcount, hstart⟩ := @counter_upsert_self t "device-v2-client" (source n) 0
  rw [hwindow] at hown hcount hstart
  rw [countOf_unseen hnew] at hcount
  have hone : own.request_count = 1 := by
    rw [hcount]
    decide
  have hadmitted : ClientAdmitted ⟨source n, false, none, fun _ => 0⟩ 0
      (upsert "device-v2-client" (source n) 0 t) := by
    obtain ⟨hmem, his⟩ := counter_some hown
    refine ⟨own, hmem, ?_, ?_⟩
    · rwa [hwindow]
    · rw [hone]
      simp [BoundRequest.clientLimit]
  have hafter := counted_upsert "device-v2-client" (source n) 0 ht
  obtain ⟨g, hg, -, -⟩ := @counter_upsert_self (upsert "device-v2-client" (source n) 0 t)
    "device-v2-global" "global" 0
  rw [hwindow] at hg
  have hgcount := counted_upsert "device-v2-global" "global" 0 hafter g
    (counter_some hg).1
  have hsafe := isSafeInteger_of_bounds (Int.le_trans (by decide) hgcount.1) hgcount.2.1
  have hle : ¬ g.request_count > fuse := by omega
  simp only [requestPasses, freshRequest, limitBoundRequest, reduceCtorEq, if_false, clientStatement,
    if_pos hopen, BoundRequest.namespace_, Bool.false_eq_true, hwindow, hown, globalStatement,
    if_pos hadmitted, hg, Option.map_some, judge, hone, hstart, hsafe, hle, BoundRequest.clientLimit,
    isSafeInteger_zero, isSafeInteger_one]
  simp [RateOutcome.isAdmitted]

theorem unseen_rateStep_request {n : Nat} {t : Counters} (hnew : Unseen "device-v2-client" n t) :
    Unseen "device-v2-client" (n + 1) (rateStep fuse t (freshRequest n)) := by
  simp only [rateStep, freshRequest]
  rw [limitBoundRequest_counters]
  simp only [reduceCtorEq, if_false]
  have hclient : Unseen "device-v2-client" (n + 1)
      (clientStatement fuse ⟨source n, false, none, fun _ => 0⟩ t).2 := by
    unfold clientStatement
    split
    · exact hnew.upsert _ _ _ (Or.inr rfl)
    · exact hnew.mono (Nat.le_succ n)
  unfold globalStatement
  split
  · intro m hm
    rw [counter_upsert_other (by
      rintro ⟨hns, -⟩
      exact absurd hns (by decide))]
    exact hclient m hm
  · exact hclient

/-- A verified request of a new device of one customer at time zero. -/
def freshDevice (limit : Int) (n : Nat) : RateStep := .verified ⟨source n, "customer", limit, fun _ => 0⟩

theorem fresh_device_passes {limit : Int} (hlimit : lastCount ≤ limit) {n : Nat} {t : Counters}
    (ht : Counted t) (hnew : Unseen "device-v2-device" n t) :
    customerPasses "customer" limit t (freshDevice limit n) = true := by
  have hwindow : window 0 = 0 := by decide
  obtain ⟨device, hdevice, hcount, hstart⟩ := @counter_upsert_self t "device-v2-device" (source n) 0
  rw [hwindow] at hdevice hcount hstart
  rw [countOf_unseen hnew] at hcount
  have hone : device.request_count = 1 := by
    rw [hcount]
    decide
  have hafter := counted_upsert "device-v2-device" (source n) 0 ht
  obtain ⟨account, haccount, -, hstart'⟩ := @counter_upsert_self
    (upsert "device-v2-device" (source n) 0 t) "device-v2-customer" "customer" 0
  rw [hwindow] at haccount hstart'
  have hbounds := counted_upsert "device-v2-customer" "customer" 0 hafter
    account (counter_some haccount).1
  have hsafe := isSafeInteger_of_bounds (Int.le_trans (by decide) hbounds.1) hbounds.2.1
  have hle : ¬ account.request_count > limit := by omega
  simp only [customerPasses, freshDevice, limitBoundVerified, hwindow, hdevice, haccount, hone, hsafe,
    hstart, hstart', hle, isSafeInteger_one]
  simp [RateOutcome.isAdmitted]

theorem unseen_rateStep_verified {limit : Int} {n : Nat} {t : Counters}
    (hnew : Unseen "device-v2-device" n t) :
    Unseen "device-v2-device" (n + 1) (rateStep fuse t (freshDevice limit n)) := by
  simp only [rateStep, freshDevice]
  rw [limitBoundVerified_counters]
  have hdevice := hnew.upsert "device-v2-device" (source n) 0 (Or.inr rfl)
  intro m hm
  rw [counter_upsert_other (by
    rintro ⟨hns, -⟩
    exact absurd hns (by decide))]
  exact hdevice m hm

theorem unseen_empty {ns : String} : Unseen ns 0 .empty := by
  intro m _
  exact counter_none.mpr fun c hc => absurd hc Table.not_mem_empty

end

/-! ## The law -/

section
variable (raw : Option (Option Int))

/-- After any run, the requests that pass in a window keep the global limit. -/
def KeepsGlobalLimit : Prop :=
  ∀ (before steps : List RateStep) (w : Int), (∀ e ∈ steps, e.During w) →
    (admissions (rateStep (globalLimit raw)) (requestPasses (globalLimit raw))
      (before.foldl (rateStep (globalLimit raw)) .empty) steps : Int) ≤ globalLimit raw

/-- After any run, the verified requests of a customer that pass in a window under a limit
keep it. -/
def KeepsCustomerLimit (limit : Int) : Prop :=
  ∀ (before steps : List RateStep) (w : Int) (customer : String), (∀ e ∈ steps, e.During w) →
    (admissions (rateStep (globalLimit raw)) (customerPasses customer limit)
      (before.foldl (rateStep (globalLimit raw)) .empty) steps : Int) ≤ limit

variable {raw}

theorem counted_run {fuse : Int} (before : List RateStep) :
    Counted (before.foldl (rateStep fuse) .empty) :=
  foldl_inv (fun _ _ h _ => counted_rateStep h) counted_empty fun _ _ => trivial

theorem not_keepsGlobalLimit (h : lastCount < globalLimit raw) : ¬ KeepsGlobalLimit raw := by
  intro hkeeps
  have hrun := exists_admissions (rateStep (globalLimit raw)) (requestPasses (globalLimit raw))
    (fun n t => Counted t ∧ Unseen "device-v2-client" n t) freshRequest
    (fun n t ⟨ht, hnew⟩ =>
      ⟨fresh_request_passes h ht hnew, counted_rateStep ht, unseen_rateStep_request hnew⟩)
    ((globalLimit raw).toNat + 1) ⟨counted_empty, unseen_empty⟩
  have hle := hkeeps [] ((List.range' 0 ((globalLimit raw).toNat + 1)).map freshRequest) 0 (by
    intro e he
    obtain ⟨n, -, rfl⟩ := List.mem_map.mp he
    intro _
    rfl)
  rw [List.foldl_nil, hrun] at hle
  omega

theorem not_keepsCustomerLimit {limit : Int} (h : lastCount ≤ limit) :
    ¬ KeepsCustomerLimit raw limit := by
  intro hkeeps
  have hrun := exists_admissions (rateStep (globalLimit raw)) (customerPasses "customer" limit)
    (fun n t => Counted t ∧ Unseen "device-v2-device" n t) (freshDevice limit)
    (fun n t ⟨ht, hnew⟩ =>
      ⟨fresh_device_passes h ht hnew, counted_rateStep ht, unseen_rateStep_verified hnew⟩)
    (limit.toNat + 1) ⟨counted_empty, unseen_empty⟩
  have hle := hkeeps [] ((List.range' 0 (limit.toNat + 1)).map (freshDevice limit)) 0 "customer" (by
    intro e he
    obtain ⟨n, -, rfl⟩ := List.mem_map.mp he
    intro _
    rfl)
  rw [List.foldl_nil, hrun] at hle
  omega

/-- An accepted limit is kept exactly when the counter can pass it: a global limit up to the
last count, and a customer limit below it. -/
theorem rate_limits_are_kept_iff {fuse : Int} (hraw : parseGlobalRateLimit raw = some fuse)
    (max_active_devices : Int) :
    (KeepsGlobalLimit raw ↔ fuse ≤ 10001) ∧
      (KeepsCustomerLimit raw (customerLimit max_active_devices) ↔
        customerLimit max_active_devices ≤ 10000) := by
  have hfuse : globalLimit raw = fuse := by
    unfold globalLimit
    rw [hraw]
    rfl
  have hrange : 100 ≤ fuse := by
    unfold parseGlobalRateLimit at hraw
    have := (Option.filter_eq_some_iff.mp hraw).2
    simp only [decide_eq_true_eq] at this
    exact this.2.1
  constructor
  · constructor
    · intro hkeeps
      by_contra hgt
      exact not_keepsGlobalLimit (by unfold lastCount; omega) hkeeps
    · intro hle before steps w hsteps
      exact requests_le_fuse (by omega) (by unfold lastCount; omega) (counted_run before) hsteps
  · constructor
    · intro hkeeps
      by_contra hgt
      exact not_keepsCustomerLimit (by unfold lastCount; omega) hkeeps
    · intro hle before steps w customer hsteps
      apply customer_requests_le_limit _ _ (counted_run before) hsteps
      · unfold customerLimit
        omega
      · unfold lastCount
        omega

/-- The limits of a deployment that sets none, for a grant of one device. -/
theorem default_rate_limits_are_kept : KeepsGlobalLimit none ∧ KeepsCustomerLimit none 240 :=
  ⟨(@rate_limits_are_kept_iff none 1000 (by decide) 1).1.mpr (by decide),
    (@rate_limits_are_kept_iff none 1000 (by decide) 1).2.mpr (by decide)⟩

/-- An accepted limit that is not kept, and the customer limit of a grant of 5001 devices. -/
theorem large_rate_limits_are_not_kept :
    parseGlobalRateLimit (some (some 10002)) = some 10002 ∧
      ¬ KeepsGlobalLimit (some (some 10002)) ∧
      ¬ KeepsCustomerLimit (some (some 10002)) (customerLimit 5001) :=
  ⟨by decide, not_keepsGlobalLimit (by decide), not_keepsCustomerLimit (by decide)⟩

end

end Licensecc.Device
