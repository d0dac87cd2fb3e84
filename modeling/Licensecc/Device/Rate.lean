-- The counters of the bound-device routes. A request counts in one counter, which
-- stops at 10001, and no step in a window lowers a count of the window.
import Licensecc.Schema.Grants
import Licensecc.Sql.Budget
import Mathlib.Data.List.Sort

open Licensecc.Sql

namespace Licensecc.Device

/-! ## Counters -/

/-- A row of `rate_limit_counters`. -/
structure RateCounter where
  namespace_ : String
  rate_key : String
  window_start : Int
  request_count : Int
  expires_at : Int
  updated_at : Int
  deriving DecidableEq

/-- The counter has this key. -/
def RateCounter.Is (namespace_ rate_key : String) (window_start : Int) (c : RateCounter) : Prop :=
  c.namespace_ = namespace_ ∧ c.rate_key = rate_key ∧ c.window_start = window_start

instance (namespace_ rate_key : String) (window_start : Int) :
    DecidablePred (RateCounter.Is namespace_ rate_key window_start) :=
  fun _ => inferInstanceAs (Decidable (_ ∧ _ ∧ _))

instance : Schema RateCounter where
  check _ := True
  clash a b := a.Is b.namespace_ b.rate_key b.window_start
  clash_symm := fun h => ⟨h.1.symm, h.2.1.symm, h.2.2.symm⟩
  decCheck := fun _ => inferInstance
  decClash := fun _ _ => inferInstance

abbrev Counters := Table RateCounter

/-- `(unixepoch()/60)*60` -/
def window (now : Int) : Int := now.tdiv 60 * 60

/-- The count at which a counter stops. -/
def lastCount : Int := 10001

section
variable (namespace_ rate_key : String) (now : Int)

/-- `DO UPDATE SET request_count=min(request_count+1,10001),updated_at=unixepoch()` -/
def countRequest (c : RateCounter) : RateCounter :=
  if c.Is namespace_ rate_key (window now) then
    { c with request_count := min (c.request_count + 1) lastCount, updated_at := now }
  else c

def firstRequest : RateCounter where
  namespace_ := namespace_
  rate_key := rate_key
  window_start := window now
  request_count := 1
  expires_at := window now + 120
  updated_at := now

variable {namespace_ rate_key now}

theorem is_countRequest {c : RateCounter} {ns key : String} {w : Int} :
    (countRequest namespace_ rate_key now c).Is ns key w ↔ c.Is ns key w := by
  unfold countRequest
  split
  · exact Iff.rfl
  · exact Iff.rfl

theorem clash_countRequest {a b : RateCounter}
    (h : Schema.clash (countRequest namespace_ rate_key now a) (countRequest namespace_ rate_key now b)) :
    Schema.clash a b := by
  have hb : (countRequest namespace_ rate_key now b).Is b.namespace_ b.rate_key b.window_start :=
    is_countRequest.mpr ⟨rfl, rfl, rfl⟩
  have ha := is_countRequest.mp h
  exact ⟨ha.1.trans hb.1, ha.2.1.trans hb.2.1, ha.2.2.trans hb.2.2⟩

variable (namespace_ rate_key now)

/-- `insert + values + .. + conflict`, where its condition holds. -/
def upsert (t : Counters) : Counters :=
  if h : ∃ c ∈ t, c.Is namespace_ rate_key (window now) then
    t.modify (countRequest namespace_ rate_key now) (fun _ _ => trivial) fun _ _ => clash_countRequest
  else
    ⟨firstRequest namespace_ rate_key now :: t.rows, fun _ _ => trivial,
      List.pairwise_cons.mpr ⟨fun c hc hclash => h ⟨c, hc, Schema.clash_symm hclash⟩, t.distinct⟩⟩

end

/-- The counter of a key. -/
def counter (t : Counters) (namespace_ rate_key : String) (window_start : Int) :
    Option RateCounter := t.find? (·.Is namespace_ rate_key window_start)

/-! ## Requests -/

def DEFAULT_GLOBAL_RATE_LIMIT : Int := 1000

/-- `parseGlobalRateLimit` of what `Number` makes of a value, unless it is missing. -/
def parseGlobalRateLimit (raw : Option (Option Int)) : Option Int :=
  (raw.getD (some DEFAULT_GLOBAL_RATE_LIMIT)).filter fun value =>
    value ≤ maxSafeInteger ∧ value ≥ 100 ∧ value ≤ 1000000

def globalLimit (raw : Option (Option Int)) : Int :=
  (parseGlobalRateLimit raw).getD DEFAULT_GLOBAL_RATE_LIMIT

inductive RateOutcome where
  | admitted (first : Bool)
  | rate_limited
  | temporarily_unavailable

/-- A request with the hash of its source, the decision of the limiter at the edge, and
the time of each statement of the batch. -/
structure BoundRequest where
  client : String
  registration : Bool
  edge : Option Bool := none
  clock : Fin 3 → Int

def BoundRequest.namespace_ (r : BoundRequest) : String :=
  if r.registration then "device-v2-registration" else "device-v2-client"

def BoundRequest.clientLimit (r : BoundRequest) : Int := if r.registration then 20 else 600

/-- `globalOpen` -/
def GlobalOpen (fuse now : Int) (t : Counters) : Prop :=
  ¬ ∃ c ∈ t, c.Is "device-v2-global" "global" (window now) ∧ c.request_count ≥ fuse

/-- `clientAdmitted` -/
def ClientAdmitted (r : BoundRequest) (now : Int) (t : Counters) : Prop :=
  ∃ c ∈ t, c.Is r.namespace_ r.client (window now) ∧ c.request_count ≤ r.clientLimit

instance (fuse now : Int) : DecidablePred (GlobalOpen fuse now) :=
  fun t => inferInstanceAs (Decidable (¬ ∃ c ∈ t, _))

instance (r : BoundRequest) (now : Int) : DecidablePred (ClientAdmitted r now) :=
  fun t => inferInstanceAs (Decidable (∃ c ∈ t, _))

/-- `Number.isSafeInteger` of an integer. -/
def isSafeInteger (n : Int) : Bool := -maxSafeInteger ≤ n ∧ n ≤ maxSafeInteger

/-- The counters after the first statement, with the row that it returns. -/
def clientStatement (fuse : Int) (r : BoundRequest) (t : Counters) : Option RateCounter × Counters :=
  if GlobalOpen fuse (r.clock 0) t then
    let t' := upsert r.namespace_ r.client (r.clock 0) t
    (counter t' r.namespace_ r.client (window (r.clock 0)), t')
  else (none, t)

def globalStatement (r : BoundRequest) (t : Counters) : Counters :=
  if ClientAdmitted r (r.clock 1) t then upsert "device-v2-global" "global" (r.clock 1) t else t

/-- What `limitBoundRequest` makes of the results of its batch. -/
def judge (fuse : Int) (r : BoundRequest) (own : Option RateCounter) (window_start : Int)
    (global_count : Option Int) : RateOutcome :=
  if isSafeInteger window_start = false then .temporarily_unavailable
  else
    match own with
    | none => .rate_limited
    | some own =>
      if isSafeInteger own.request_count = false ∨ own.window_start ≠ window_start then
        .temporarily_unavailable
      else if own.request_count > r.clientLimit then .rate_limited
      else
        match global_count with
        | none => .rate_limited
        | some global_count =>
          if isSafeInteger global_count = false ∨ global_count > fuse then .rate_limited
          else .admitted (global_count = 1)

/-- `limitBoundRequest` up to its cleanup, which a first request of a window does. -/
def limitBoundRequest (fuse : Int) (r : BoundRequest) (t : Counters) : RateOutcome × Counters :=
  if r.edge = some false then (.rate_limited, t)
  else
    let (own, t₁) := clientStatement fuse r t
    let t₂ := globalStatement r t₁
    let window_start := window (r.clock 2)
    (judge fuse r own window_start
      ((counter t₂ "device-v2-global" "global" window_start).map (·.request_count)), t₂)

/-- The `DELETE` of the first request of a window. -/
def cleanup (now : Int) (t : Counters) : Counters :=
  let expired := ((t.rows.filter fun c : RateCounter => c.expires_at ≤ now).insertionSort
    fun a b => a.expires_at ≤ b.expires_at).take 6002
  t.keep (· ∉ expired)

/-- A call of `limitBoundVerified`, with the hash of its customer. -/
structure VerifiedRequest where
  keyId : String
  customer : String
  customerLimit : Int := 240
  clock : Fin 2 → Int

def limitBoundVerified (v : VerifiedRequest) (t : Counters) : RateOutcome × Counters :=
  let t₁ := upsert "device-v2-device" v.keyId (v.clock 0) t
  let t₂ := upsert "device-v2-customer" v.customer (v.clock 1) t₁
  let device := counter t₁ "device-v2-device" v.keyId (window (v.clock 0))
  let account := counter t₂ "device-v2-customer" v.customer (window (v.clock 1))
  match device, account with
  | some device, some account =>
    if isSafeInteger device.request_count = false ∨ isSafeInteger account.request_count = false ∨
        device.window_start ≠ account.window_start then (.temporarily_unavailable, t₂)
    else if device.request_count > 60 ∨ account.request_count > v.customerLimit then
      (.rate_limited, t₂)
    else (.admitted false, t₂)
  | _, _ => (.temporarily_unavailable, t₂)

/-- The limit of the customer of a grant. -/
def customerLimit (max_active_devices : Int) : Int := max 240 (2 * max_active_devices)

/-! ## Runs -/

/-- A step of the limits. -/
inductive RateStep where
  | request (r : BoundRequest)
  | verified (v : VerifiedRequest)
  | cleanup (now : Int)

def rateStep (fuse : Int) (t : Counters) : RateStep → Counters
  | .request r => (limitBoundRequest fuse r t).2
  | .verified v => (limitBoundVerified v t).2
  | .cleanup now => cleanup now t

/-- The database times of a step are in a window. -/
def RateStep.During (w : Int) : RateStep → Prop
  | .request r => ∀ i, window (r.clock i) = w
  | .verified v => ∀ i, window (v.clock i) = w
  | .cleanup now => window now = w

def RateOutcome.isAdmitted : RateOutcome → Bool
  | .admitted _ => true
  | _ => false

/-- The step is a request that is not limited. -/
def requestPasses (fuse : Int) (t : Counters) : RateStep → Bool
  | .request r => (limitBoundRequest fuse r t).1.isAdmitted
  | _ => false

/-- The step is a verified request of this customer, under this limit, that is not
limited. -/
def customerPasses (customer : String) (limit : Int) (t : Counters) : RateStep → Bool
  | .verified v => v.customer = customer && v.customerLimit = limit && (limitBoundVerified v t).1.isAdmitted
  | _ => false

/-! ## What a step does to the counters -/

section
variable {t : Counters} {ns key ns' key' : String} {w now : Int}

/-- The count of a key, where no counter counts nothing. -/
def countOf (t : Counters) (ns key : String) (w : Int) : Int :=
  ((counter t ns key w).map (·.request_count)).getD 0

theorem counter_some {c : RateCounter} (h : counter t ns key w = some c) : c ∈ t ∧ c.Is ns key w :=
  Table.find?_some h

theorem counter_eq {c : RateCounter} (hc : c ∈ t) (his : c.Is ns key w) :
    counter t ns key w = some c := by
  unfold counter
  apply Table.find?_eq hc his
  intro a b ha hb
  exact ⟨ha.1.trans hb.1.symm, ha.2.1.trans hb.2.1.symm, ha.2.2.trans hb.2.2.symm⟩

theorem counter_none : counter t ns key w = none ↔ ∀ c ∈ t, ¬ c.Is ns key w := Table.find?_none

theorem counter_modify : (t.modify (countRequest ns key now) (fun _ _ => trivial)
      fun _ _ => clash_countRequest).find? (·.Is ns' key' w) =
    (counter t ns' key' w).map (countRequest ns key now) := by
  unfold counter Table.find? Table.modify
  rw [List.find?_map]
  congr 1
  apply congrArg (fun p => List.find? p t.rows)
  funext c
  simp [is_countRequest]

/-- The counter that a request counts in. -/
theorem counter_upsert_self : ∃ c, counter (upsert ns key now t) ns key (window now) = some c ∧
    c.request_count = min (countOf t ns key (window now) + 1) lastCount ∧
    c.window_start = window now := by
  unfold upsert
  split
  · rename_i h
    obtain ⟨c, hc, his⟩ := h
    have hfound := counter_eq hc his
    refine ⟨countRequest ns key now c, ?_, ?_, ?_⟩
    · rw [show counter _ ns key (window now) = _ from counter_modify, hfound]
      rfl
    · simp [countOf, hfound, countRequest, his]
    · simp [countRequest, his, his.2.2]
  · rename_i h
    have hnone : counter t ns key (window now) = none :=
      counter_none.mpr fun c hc his => h ⟨c, hc, his⟩
    refine ⟨firstRequest ns key now, ?_, ?_, rfl⟩
    · unfold counter Table.find?
      simp [RateCounter.Is, firstRequest]
    · simp [countOf, hnone, firstRequest, lastCount]

theorem countOf_upsert_self :
    countOf (upsert ns key now t) ns key (window now) =
      min (countOf t ns key (window now) + 1) lastCount := by
  obtain ⟨c, hc, hcount, -⟩ := @counter_upsert_self t ns key now
  unfold countOf
  rw [hc, Option.map_some, Option.getD_some, hcount]
  rfl

/-- A request counts in no other counter. -/
theorem counter_upsert_other (h : ¬ (ns' = ns ∧ key' = key ∧ w = window now)) :
    counter (upsert ns key now t) ns' key' w = counter t ns' key' w := by
  unfold upsert
  split
  · rw [show counter _ ns' key' w = _ from counter_modify]
    cases hc : counter t ns' key' w with
    | none => rfl
    | some c =>
      have his := (counter_some hc).2
      have hnot : ¬ c.Is ns key (window now) := by
        rintro ⟨rfl, rfl, hw⟩
        exact h ⟨his.1.symm, his.2.1.symm, his.2.2.symm.trans hw⟩
      simp [countRequest, hnot]
  · unfold counter Table.find?
    rw [List.find?_cons_of_neg]
    simp only [decide_eq_true_eq]
    rintro ⟨rfl, rfl, hw⟩
    exact h ⟨rfl, rfl, hw.symm⟩

end

/-! ## What a step keeps -/

/-- Every counter has counted a request, has not passed the last count, and lives for a
minute after its window. -/
def Counted (t : Counters) : Prop :=
  ∀ c ∈ t, 1 ≤ c.request_count ∧ c.request_count ≤ lastCount ∧ c.expires_at = c.window_start + 120

theorem counted_empty : Counted .empty := fun _ hc => absurd hc Table.not_mem_empty

section
variable {t : Counters} {ns key ns' key' : String} {w now fuse : Int}

variable (ns key w) in
theorem countOf_bounds (h : Counted t) : 0 ≤ countOf t ns key w ∧ countOf t ns key w ≤ lastCount := by
  unfold countOf
  cases hc : counter t ns key w with
  | none => simp [lastCount]
  | some c =>
    have := h c (counter_some hc).1
    simp only [Option.map_some, Option.getD_some]
    omega

variable (ns key now) in
theorem counted_upsert (h : Counted t) : Counted (upsert ns key now t) := by
  unfold upsert
  split
  · intro c hc
    obtain ⟨a, ha, rfl⟩ := Table.mem_modify.mp hc
    have hold := h a ha
    unfold countRequest
    split
    · simp only [lastCount] at hold ⊢
      refine ⟨?_, ?_, hold.2.2⟩
      · omega
      · omega
    · exact hold
  · intro c hc
    rcases List.mem_cons.mp hc with rfl | hc
    · simp [firstRequest, lastCount]
    · exact h c hc

theorem counted_cleanup (h : Counted t) : Counted (cleanup now t) :=
  fun c hc => h c (Table.mem_keep.mp hc).1

/-- A request lowers no count. -/
theorem countOf_le_upsert (h : Counted t) :
    countOf t ns' key' w ≤ countOf (upsert ns key now t) ns' key' w := by
  by_cases hself : ns' = ns ∧ key' = key ∧ w = window now
  · obtain ⟨rfl, rfl, rfl⟩ := hself
    have hbounds := countOf_bounds ns' key' (window now) h
    rw [countOf_upsert_self]
    omega
  · unfold countOf
    rw [counter_upsert_other hself]

variable (now) in
theorem window_spec : now < window now + 60 := by
  have hmod := Int.tmod_add_mul_tdiv now 60
  have hlt := Int.tmod_lt_of_pos now (b := 60) (by decide)
  unfold window
  omega

/-- A cleanup in a window leaves the counters of the window. -/
theorem counter_cleanup (h : Counted t) : counter (cleanup now t) ns key (window now) =
    counter t ns key (window now) := by
  have hkept : ∀ c ∈ t, c.Is ns key (window now) → c ∈ cleanup now t := by
    intro c hc his
    apply Table.mem_keep.mpr
    refine ⟨hc, fun hexpired => ?_⟩
    have hmem := (List.perm_insertionSort _ _).subset (List.mem_of_mem_take hexpired)
    have hle := (List.mem_filter.mp hmem).2
    have hlate := window_spec now
    rw [decide_eq_true_eq, (h c hc).2.2, his.2.2] at hle
    omega
  cases hc : counter t ns key (window now) with
  | none =>
    exact counter_none.mpr fun c hc' => counter_none.mp hc c (Table.mem_keep.mp hc').1
  | some c =>
    obtain ⟨hmem, his⟩ := counter_some hc
    exact counter_eq (hkept c hmem his) his

theorem counted_clientStatement {r : BoundRequest} (h : Counted t) :
    Counted (clientStatement fuse r t).2 := by
  unfold clientStatement
  split
  · exact counted_upsert _ _ _ h
  · exact h

theorem counted_globalStatement {r : BoundRequest} (h : Counted t) : Counted (globalStatement r t) := by
  unfold globalStatement
  split
  · exact counted_upsert _ _ _ h
  · exact h

theorem limitBoundRequest_counters {r : BoundRequest} : (limitBoundRequest fuse r t).2 =
    if r.edge = some false then t else globalStatement r (clientStatement fuse r t).2 := by
  unfold limitBoundRequest
  split
  · rfl
  · rfl

theorem limitBoundVerified_counters {v : VerifiedRequest} : (limitBoundVerified v t).2 =
    upsert "device-v2-customer" v.customer (v.clock 1)
      (upsert "device-v2-device" v.keyId (v.clock 0) t) := by
  unfold limitBoundVerified
  dsimp only
  split
  · split
    · rfl
    · split
      · rfl
      · rfl
  · rfl

theorem counted_rateStep {e : RateStep} (h : Counted t) : Counted (rateStep fuse t e) := by
  cases e with
  | request r =>
    simp only [rateStep]
    rw [limitBoundRequest_counters]
    split
    · exact h
    · exact counted_globalStatement (counted_clientStatement h)
  | verified v =>
    simp only [rateStep]
    rw [limitBoundVerified_counters]
    exact counted_upsert _ _ _ (counted_upsert _ _ _ h)
  | cleanup now => exact counted_cleanup h

variable (ns key fuse) in
/-- A step in a window lowers no count of the window. -/
theorem countOf_le_rateStep {e : RateStep} (h : Counted t) (he : e.During w) :
    countOf t ns key w ≤ countOf (rateStep fuse t e) ns key w := by
  cases e with
  | request r =>
    simp only [rateStep]
    rw [limitBoundRequest_counters]
    split
    · exact Int.le_refl _
    · have hclient : countOf t ns key w ≤ countOf (clientStatement fuse r t).2 ns key w := by
        unfold clientStatement
        split
        · exact countOf_le_upsert h
        · exact Int.le_refl _
      refine Int.le_trans hclient ?_
      unfold globalStatement
      split
      · exact countOf_le_upsert (counted_clientStatement h)
      · exact Int.le_refl _
  | verified v =>
    simp only [rateStep]
    rw [limitBoundVerified_counters]
    exact Int.le_trans (countOf_le_upsert h) (countOf_le_upsert (counted_upsert _ _ _ h))
  | cleanup now =>
    obtain rfl : window now = w := he
    simp only [rateStep, countOf]
    rw [counter_cleanup h]

end

/-! ## What a request that passes leaves -/

section
variable {t : Counters} {w fuse : Int}

theorem judge_admitted {r : BoundRequest} {own : Option RateCounter} {global_count : Option Int}
    (h : (judge fuse r own w global_count).isAdmitted = true) :
    ∃ c g, own = some c ∧ c.request_count ≤ r.clientLimit ∧ global_count = some g ∧ g ≤ fuse := by
  unfold judge at h
  split at h
  · cases h
  · cases own with
    | none => cases h
    | some c =>
      dsimp only at h
      split at h
      · cases h
      · split at h
        · cases h
        · rename_i hle
          cases global_count with
          | none => cases h
          | some g =>
            dsimp only at h
            split at h
            · cases h
            · rename_i hg
              exact ⟨c, g, rfl, not_lt.mp hle, rfl, not_lt.mp fun hlt => hg (Or.inr hlt)⟩

/-- A request that passes in a window finds the fuse open, and it counts in the window. -/
theorem admitted_request {r : BoundRequest} (hw : ∀ i, window (r.clock i) = w) (hpos : 0 < fuse)
    (h : (limitBoundRequest fuse r t).1.isAdmitted = true) :
    countOf t "device-v2-global" "global" w < fuse ∧
      countOf (limitBoundRequest fuse r t).2 "device-v2-global" "global" w =
        min (countOf t "device-v2-global" "global" w + 1) lastCount := by
  unfold limitBoundRequest at h ⊢
  split at h
  · cases h
  · rename_i hedge
    rw [if_neg hedge]
    dsimp only at h ⊢
    obtain ⟨own, g, hown, hlimit, -, -⟩ := judge_admitted h
    unfold clientStatement at hown ⊢
    have hopen : GlobalOpen fuse (r.clock 0) t := by
      by_contra hclosed
      rw [if_neg hclosed] at hown
      cases hown
    rw [if_pos hopen] at hown ⊢
    dsimp only at hown ⊢
    -- the row of the client admits the request to the second statement
    have hadmitted : ClientAdmitted r (r.clock 1) (upsert r.namespace_ r.client (r.clock 0) t) := by
      obtain ⟨hmem, his⟩ := counter_some hown
      rw [hw 0, ← hw 1] at his
      exact ⟨own, hmem, his, hlimit⟩
    have hglobal : ¬ ("device-v2-global" = r.namespace_ ∧ "global" = r.client ∧
        w = window (r.clock 0)) := by
      rintro ⟨hns, -⟩
      unfold BoundRequest.namespace_ at hns
      split at hns
      · exact absurd hns (by decide)
      · exact absurd hns (by decide)
    have hsame : countOf (upsert r.namespace_ r.client (r.clock 0) t) "device-v2-global" "global" w =
        countOf t "device-v2-global" "global" w := by
      unfold countOf
      rw [counter_upsert_other hglobal]
    constructor
    · by_contra hge
      apply hopen
      unfold countOf at hge
      cases hc : counter t "device-v2-global" "global" w with
      | none =>
        rw [hc] at hge
        exact absurd hpos hge
      | some c =>
        rw [hc] at hge
        obtain ⟨hmem, his⟩ := counter_some hc
        rw [← hw 0] at his
        exact ⟨c, hmem, his, not_lt.mp hge⟩
    · unfold globalStatement
      rw [if_pos hadmitted, ← hsame]
      have := @countOf_upsert_self (upsert r.namespace_ r.client (r.clock 0) t) "device-v2-global"
        "global" (r.clock 1)
      rwa [hw 1] at this

/-- A verified request that passes counts for its customer, and the count keeps the
limit. -/
theorem admitted_verified {v : VerifiedRequest} (hw : ∀ i, window (v.clock i) = w)
    (h : (limitBoundVerified v t).1.isAdmitted = true) :
    min (countOf t "device-v2-customer" v.customer w + 1) lastCount ≤ v.customerLimit ∧
      countOf (limitBoundVerified v t).2 "device-v2-customer" v.customer w =
        min (countOf t "device-v2-customer" v.customer w + 1) lastCount := by
  have hother : ¬ ("device-v2-customer" = "device-v2-device" ∧ v.customer = v.keyId ∧
      w = window (v.clock 0)) := by
    rintro ⟨hns, -⟩
    exact absurd hns (by decide)
  have hcount : countOf (upsert "device-v2-customer" v.customer (v.clock 1)
      (upsert "device-v2-device" v.keyId (v.clock 0) t)) "device-v2-customer" v.customer w =
        min (countOf t "device-v2-customer" v.customer w + 1) lastCount := by
    have hself := @countOf_upsert_self (upsert "device-v2-device" v.keyId (v.clock 0) t)
      "device-v2-customer" v.customer (v.clock 1)
    rw [hw 1] at hself
    rw [hself]
    unfold countOf
    rw [counter_upsert_other hother]
  rw [limitBoundVerified_counters]
  refine ⟨?_, hcount⟩
  unfold limitBoundVerified at h
  dsimp only at h
  split at h
  · rename_i device account _ haccount
    split at h
    · cases h
    · split at h
      · cases h
      · rename_i hle
        rw [← hcount]
        rw [hw 1] at haccount
        unfold countOf
        rw [haccount]
        exact not_lt.mp fun hlt => hle (Or.inr hlt)
  · cases h

end

end Licensecc.Device
