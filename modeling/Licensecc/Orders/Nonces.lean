-- The replay law of signed orders. The nonce of a request outlives the window of its time,
-- so a request is admitted once as long as it keeps to one key id and no cleanup takes the
-- nonce of a request that another run has still to spend.
import Licensecc.Conc.Machine
import Licensecc.Orders.Hmac
import Licensecc.Sql.Budget
import Licensecc.Webhook.Dispatch

open Licensecc.Codec Licensecc.Sql Licensecc.Conc Licensecc.Webhook

namespace Licensecc.Orders

/-! ## Nonces -/

/-- A row of `order_ingest_nonces`. -/
structure NonceRow where
  key_id : JsText
  request_nonce_id : JsText
  timestamp : Int
  consumed_at : Int
  expires_at : Int

instance : Schema NonceRow where
  check _ := True
  clash a b := a.key_id = b.key_id ∧ a.request_nonce_id = b.request_nonce_id
  clash_symm := fun h => ⟨h.1.symm, h.2.symm⟩
  decCheck := fun _ => inferInstance
  decClash := fun _ _ => inferInstance

namespace Ingest

/-- The copy of `clampMaxSkew` that the nonces have. -/
def clampMaxSkew (rawValue : Option (Option Int)) : Int :=
  match rawValue with
  | some (some parsed) => if parsed ≤ 0 then 300 else min parsed 3600
  | _ => 300

theorem clampMaxSkew_eq (rawValue : Option (Option Int)) :
    clampMaxSkew rawValue = Orders.clampMaxSkew rawValue := rfl

/-! ## Runs -/

/-- How far a run has come: it has passed the check, it has read its time for the nonce, or
it has spent the nonce and has the cleanup left. -/
inductive Stage where
  | verified (v : Verified)
  | ready (v : Verified) (now : Int)
  | spent (v : Verified) (now : Int)

/-- The request that the run has still to spend. -/
def Stage.pending : Stage → Option Verified
  | verified v => some v
  | ready v _ => some v
  | spent _ _ => none

end Ingest

/-- The clock, the nonces and the runs. The log of the requests that passed the check and of
those whose nonce was fresh is for the laws only. -/
structure Ingest where
  clock : Int := 0
  nonces : Table NonceRow := .empty
  runs : Nat → Option Ingest.Stage := fun _ => none
  checked : List Verified := []
  fresh : List SignedRequest := []

namespace Ingest

inductive Act where
  | tick (time : Int)
  | check (run : Nat) (request : OrderRequest)
  | read (run : Nat)
  | spend (run : Nat) (io : Io)
  | cleanup (run : Nat) (io : Io)
  | crash (run : Nat)

/-- The signer, the configuration, the digest of a body, and what a run checks between the
HMAC and the nonce: the body is an order of the time, in the scope of the key. -/
structure Setting where
  H : Hmac
  atob : JsText → Option Bytes
  env : OrderEnv
  digest : Bytes → JsText
  accepts : JsText → Bytes → Int → Bool

variable (c : Setting)

def requestNonceId (q : SignedRequest) : JsText := q.timestamp ++ unit ':' :: c.digest q.body

def maxSkew : Int := clampMaxSkew c.env.ORDER_MAX_SKEW_SECONDS

/-- The row that a run inserts. -/
def nonceRow (v : Verified) (now : Int) : NonceRow where
  key_id := v.keyId
  request_nonce_id := requestNonceId c v.request
  timestamp := (canonicalIntTimestamp v.request.timestamp).getD 0
  consumed_at := now
  expires_at := now + maxSkew c * 2

/-- The run is at this stage, or at none. -/
def put (s : Ingest) (run : Nat) (stage : Option Stage) : Ingest :=
  { s with runs := Function.update s.runs run stage }

/-- `INSERT .. ON CONFLICT DO NOTHING RETURNING`, with whether there was a row. -/
def insertNonce (row : NonceRow) (nonces : Table NonceRow) : Bool × Table NonceRow :=
  match nonces.insert row with
  | .ok nonces' => (true, nonces')
  | .error _ => (false, nonces)

/-- The INSERT of a run, and what comes of it. -/
def spend (run : Nat) (v : Verified) (now : Int) (io : Io) (s : Ingest) : Ingest :=
  let (inserted, nonces) := insertNonce (nonceRow c v now) s.nonces
  match io with
  | .failed => s.put run none
  | .lost => { s with nonces }.put run none
  | .ran =>
    if inserted then
      { s with nonces, fresh := v.request :: s.fresh }.put run (some (.spent v now))
    else s.put run none

/-- `DELETE FROM order_ingest_nonces WHERE expires_at < ?` -/
def deleteExpired (now : Int) (s : Ingest) : Ingest :=
  { s with nonces := s.nonces.keep fun row => ¬ row.expires_at < now }

/-- One action of `handleOrderIngest`. -/
def act (a : Act) (s : Ingest) : Ingest :=
  match a with
  | .tick time => { s with clock := max s.clock time }
  | .check run request =>
    match s.runs run, verifyOrderHmac c.H c.atob c.env request s.clock with
    | none, .ok v => { s with checked := v :: s.checked }.put run (some (.verified v))
    | _, _ => s
  | .read run =>
    match s.runs run with
    | some (.verified v) =>
      s.put run (if c.accepts v.keyId v.request.body s.clock then some (.ready v s.clock) else none)
    | _ => s
  | .spend run io =>
    match s.runs run with
    | some (.ready v now) => spend c run v now io s
    | _ => s
  | .cleanup run io =>
    match s.runs run with
    | some (.spent _ now) =>
      match io with
      | .failed => s.put run none
      | _ => (s.deleteExpired now).put run none
    | _ => s
  | .crash run => s.put run none

/-! ## The law -/

/-- A run has still to spend the request. -/
def Pending (s : Ingest) (v : Verified) : Prop := ∃ run, (s.runs run).bind Stage.pending = some v

/-- No signed request is admitted twice. -/
def AtMostOnce (s : Ingest) : Prop := s.fresh.Nodup

instance (s : Ingest) : Decidable (AtMostOnce s) := inferInstanceAs (Decidable (List.Nodup _))

/-- The row is the nonce of the request. -/
def IsNonce (v : Verified) (row : NonceRow) : Prop :=
  row.key_id = v.keyId ∧ row.request_nonce_id = requestNonceId c v.request

/-- A signed request passes the check under one key id only, and a cleanup takes no nonce of
a request that a run has still to spend. -/
def Sound (a : Act) (s : Ingest) : Prop :=
  match a with
  | .check _ request =>
    ∀ v, verifyOrderHmac c.H c.atob c.env request s.clock = .ok v →
      ∀ w ∈ s.checked, w.request = v.request → w.keyId = v.keyId
  | .cleanup run _ =>
    ∀ v now, s.runs run = some (.spent v now) →
      ∀ row ∈ s.nonces, row.expires_at < now → ∀ w, s.Pending w → ¬ IsNonce c w row
  | _ => True

/-- Nothing has started yet. -/
def start (clock : Int) (nonces : Table NonceRow) : Ingest := { clock, nonces }

/-! ## What a run knows -/

/-- The time of the request is at most the skew ahead of a clock. -/
def Timely (v : Verified) (clock : Int) : Prop :=
  ∃ value, canonicalIntTimestamp v.request.timestamp = some value ∧ value - maxSkew c ≤ clock

/-- The times of a stage. -/
def Stage.Sound (s : Ingest) : Stage → Prop
  | verified v => v ∈ s.checked ∧ Timely c v s.clock
  | ready v now => v ∈ s.checked ∧ Timely c v now ∧ now ≤ s.clock
  | spent _ now => now ≤ s.clock

/-- A stored row keeps the request out until its window is over. -/
def Retained (s : Ingest) (v : Verified) (value : Int) : Prop :=
  ∃ row ∈ s.nonces, IsNonce c v row ∧ value + maxSkew c ≤ row.expires_at

/-- The window is over, and no run has passed the check before that. -/
def Past (s : Ingest) (v : Verified) (value : Int) : Prop :=
  value + maxSkew c < s.clock ∧ ∀ w, s.Pending w → w.request ≠ v.request

/-- What keeps an admitted request out. -/
def Guarded (s : Ingest) (q : SignedRequest) : Prop :=
  ∃ v ∈ s.checked, v.request = q ∧ ∃ value, canonicalIntTimestamp q.timestamp = some value ∧
    (Retained c s v value ∨ Past c s v value)

/-- The invariant. -/
structure Inv (s : Ingest) : Prop where
  nodup : s.fresh.Nodup
  one_key : ∀ v ∈ s.checked, ∀ w ∈ s.checked, v.request = w.request → v.keyId = w.keyId
  stages : ∀ run stage, s.runs run = some stage → stage.Sound c s
  guarded : ∀ q ∈ s.fresh, Guarded c s q

variable {c} {s s' : Ingest} {run : Nat} {stage : Option Stage} {v w : Verified} {now : Int}

/-- A run with a request to spend has checked it. -/
theorem checked_of_pending (hinv : Inv c s) (h : s.Pending v) : v ∈ s.checked := by
  obtain ⟨run, hrun⟩ := h
  obtain ⟨stage, hstage, hpending⟩ := Option.bind_eq_some_iff.mp hrun
  have hsound := hinv.stages run stage hstage
  cases stage with
  | verified u =>
    obtain rfl := Option.some.inj hpending
    exact hsound.1
  | ready u now =>
    obtain rfl := Option.some.inj hpending
    exact hsound.1
  | spent u now => cases hpending

/-- A stage stays sound when the clock goes on and more is checked. -/
theorem Stage.Sound.mono {stage : Stage} (h : stage.Sound c s) (hclock : s.clock ≤ s'.clock)
    (hchecked : ∀ v ∈ s.checked, v ∈ s'.checked) : stage.Sound c s' := by
  cases stage with
  | verified v =>
    obtain ⟨hv, value, hvalue, hle⟩ := h
    exact ⟨hchecked v hv, value, hvalue, hle.trans hclock⟩
  | ready v now =>
    obtain ⟨hv, htimely, hle⟩ := h
    exact ⟨hchecked v hv, htimely, hle.trans hclock⟩
  | spent v now =>
    unfold Stage.Sound at h ⊢
    exact h.trans hclock

/-- A guard stays when no nonce is lost and no run has more to spend. -/
theorem Guarded.mono {q : SignedRequest} (h : Guarded c s q) (hclock : s.clock ≤ s'.clock)
    (hchecked : ∀ v ∈ s.checked, v ∈ s'.checked) (hnonces : ∀ row ∈ s.nonces, row ∈ s'.nonces)
    (hpending : ∀ w, s'.Pending w → s.Pending w) : Guarded c s' q := by
  obtain ⟨v, hv, hq, value, hvalue, hguard⟩ := h
  refine ⟨v, hchecked v hv, hq, value, hvalue, ?_⟩
  rcases hguard with ⟨row, hrow, hnonce, hexpires⟩ | ⟨hover, hnone⟩
  · exact .inl ⟨row, hnonces row hrow, hnonce, hexpires⟩
  · exact .inr ⟨by omega, fun w hw => hnone w (hpending w hw)⟩

/-! ## One run moves -/

theorem pending_put (h : (s.put run stage).Pending w) :
    stage.bind Stage.pending = some w ∨ s.Pending w := by
  obtain ⟨other, hother⟩ := h
  unfold put at hother
  dsimp only at hother
  by_cases heq : other = run
  · subst heq
    rw [Function.update_self] at hother
    exact .inl hother
  · rw [Function.update_of_ne heq] at hother
    exact .inr ⟨other, hother⟩

/-- A run that moves on without a new request to spend keeps the invariant. -/
theorem Inv.put (hinv : Inv c s) (hstage : ∀ x, stage = some x → x.Sound c s)
    (hpending : ∀ w, stage.bind Stage.pending = some w → s.Pending w) : Inv c (s.put run stage) where
  nodup := hinv.nodup
  one_key := hinv.one_key
  stages := by
    intro other x hx
    have hx' : Function.update s.runs run stage other = some x := hx
    by_cases heq : other = run
    · subst heq
      rw [Function.update_self] at hx'
      exact (hstage x hx').mono le_rfl fun _ hv => hv
    · rw [Function.update_of_ne heq] at hx'
      exact (hinv.stages other x hx').mono le_rfl fun _ hv => hv
  guarded := by
    intro q hq
    refine (hinv.guarded q hq).mono le_rfl (fun _ hv => hv) (fun _ hrow => hrow) fun w hw => ?_
    exact (pending_put hw).elim (hpending w) id

theorem Inv.finish (hinv : Inv c s) : Inv c (s.put run none) := by
  apply hinv.put
  · intro x hx
    cases hx
  · intro w hw
    cases hw

/-! ## Each action -/

theorem inv_tick (hinv : Inv c s) (time : Int) : Inv c { s with clock := max s.clock time } where
  nodup := hinv.nodup
  one_key := hinv.one_key
  stages run x hx := (hinv.stages run x hx).mono (le_max_left _ _) fun _ hv => hv
  guarded q hq := (hinv.guarded q hq).mono (le_max_left _ _) (fun _ hv => hv) (fun _ hrow => hrow)
    fun _ hw => hw

/-- A request that passes the check is in its window. -/
theorem window_of_verify {request : OrderRequest} {clock : Int}
    (h : verifyOrderHmac c.H c.atob c.env request clock = .ok v) :
    ∃ value, canonicalIntTimestamp v.request.timestamp = some value ∧
      value - maxSkew c ≤ clock ∧ clock ≤ value + maxSkew c := by
  obtain ⟨-, value, hvalue, hskew⟩ := of_verifyOrderHmac h
  have hmax : maxSkew c = Orders.clampMaxSkew c.env.ORDER_MAX_SKEW_SECONDS := clampMaxSkew_eq _
  rw [← hmax] at hskew
  have := abs_le.mp hskew
  exact ⟨value, hvalue, by omega, by omega⟩

/-- A new run checks no request whose window is over. -/
theorem inv_check {request : OrderRequest} (hinv : Inv c s)
    (hv : verifyOrderHmac c.H c.atob c.env request s.clock = .ok v)
    (hkey : ∀ w ∈ s.checked, w.request = v.request → w.keyId = v.keyId) :
    Inv c ({ s with checked := v :: s.checked }.put run (some (.verified v))) := by
  obtain ⟨value, hvalue, hearly, hlate⟩ := window_of_verify hv
  have hchecked : ∀ w ∈ s.checked, w ∈ v :: s.checked := fun w hw => List.mem_cons_of_mem v hw
  refine ⟨hinv.nodup, ?_, ?_, ?_⟩
  · intro a ha b hb hab
    rcases List.mem_cons.mp ha with hav | ha
    · rcases List.mem_cons.mp hb with hbv | hb
      · rw [hav, hbv]
      · rw [hav] at hab ⊢
        exact (hkey b hb hab.symm).symm
    · rcases List.mem_cons.mp hb with hbv | hb
      · rw [hbv] at hab ⊢
        exact hkey a ha hab
      · exact hinv.one_key a ha b hb hab
  · intro other x hx
    have hx' : Function.update s.runs run (some (.verified v)) other = some x := hx
    by_cases heq : other = run
    · subst heq
      rw [Function.update_self] at hx'
      obtain rfl := Option.some.inj hx'
      exact ⟨List.mem_cons_self, value, hvalue, hearly⟩
    · rw [Function.update_of_ne heq] at hx'
      exact (hinv.stages other x hx').mono le_rfl hchecked
  · intro q hq
    obtain ⟨u, hu, huq, time, htime, hguard⟩ := hinv.guarded q hq
    refine ⟨u, hchecked u hu, huq, time, htime, ?_⟩
    rcases hguard with hrow | ⟨hover, hnone⟩
    · exact .inl hrow
    · refine .inr ⟨hover, fun w hw hwu => ?_⟩
      rcases pending_put hw with hnew | hold
      · -- the window of the request was over when it passed the check
        obtain rfl := Option.some.inj hnew
        rw [hwu, huq, htime] at hvalue
        obtain rfl := Option.some.inj hvalue
        omega
      · exact hnone w hold hwu

theorem inv_read (hinv : Inv c s) (hrun : s.runs run = some (.verified v)) :
    Inv c (s.put run (some (.ready v s.clock))) := by
  obtain ⟨hchecked, htimely⟩ := hinv.stages run _ hrun
  apply hinv.put
  · intro x hx
    obtain rfl := Option.some.inj hx
    exact ⟨hchecked, htimely, le_rfl⟩
  · intro w hw
    exact ⟨run, by rw [hrun]; exact hw⟩

theorem insertNonce_eq (row : NonceRow) (nonces : Table NonceRow) :
    (∃ nonces', nonces.insert row = .ok nonces' ∧ insertNonce row nonces = (true, nonces')) ∨
      insertNonce row nonces = (false, nonces) := by
  unfold insertNonce
  cases h : nonces.insert row with
  | ok nonces' => exact .inl ⟨nonces', rfl, rfl⟩
  | error e => exact .inr rfl

theorem Inv.nonces (hinv : Inv c s) {nonces : Table NonceRow}
    (hrows : ∀ row ∈ s.nonces, row ∈ nonces) : Inv c { s with nonces } where
  nodup := hinv.nodup
  one_key := hinv.one_key
  stages run x hx := (hinv.stages run x hx).mono le_rfl fun _ hv => hv
  guarded q hq := (hinv.guarded q hq).mono le_rfl (fun _ hv => hv) hrows fun _ hw => hw

/-- The INSERT of an admitted request gives no row. -/
theorem not_fresh {nonces : Table NonceRow} (hinv : Inv c s)
    (hrun : s.runs run = some (.ready v now))
    (hinsert : s.nonces.insert (nonceRow c v now) = .ok nonces) : v.request ∉ s.fresh := by
  intro hfresh
  obtain ⟨u, hu, huq, value, -, hguard⟩ := hinv.guarded _ hfresh
  have hpending : s.Pending v := ⟨run, by rw [hrun]; rfl⟩
  rcases hguard with ⟨row, hrow, ⟨hkey, hnonce⟩, -⟩ | ⟨-, hnone⟩
  · have hone := hinv.one_key u hu v (checked_of_pending hinv hpending) huq
    have hclash := (Table.insert_eq_ok.mp hinsert).2.2.1 row hrow
    apply hclash
    exact ⟨(hkey.trans hone).symm, by rw [hnonce, huq]; rfl⟩
  · exact hnone v hpending huq.symm

/-- The row of a fresh nonce outlives the window. -/
theorem inv_fresh {nonces : Table NonceRow} (hinv : Inv c s)
    (hrun : s.runs run = some (.ready v now))
    (hinsert : s.nonces.insert (nonceRow c v now) = .ok nonces) :
    Inv c ({ s with nonces, fresh := v.request :: s.fresh }.put run (some (.spent v now))) := by
  obtain ⟨hchecked, ⟨value, hvalue, hearly⟩, hnow⟩ := hinv.stages run _ hrun
  have hrows : ∀ row ∈ s.nonces, row ∈ nonces :=
    fun row hrow => (Table.mem_of_insert hinsert).mpr (.inr hrow)
  have hnew : Inv c { s with nonces, fresh := v.request :: s.fresh } := by
    refine ⟨List.nodup_cons.mpr ⟨not_fresh hinv hrun hinsert, hinv.nodup⟩, hinv.one_key, ?_, ?_⟩
    · intro other x hx
      exact (hinv.stages other x hx).mono le_rfl fun _ hv => hv
    · intro q hq
      rcases List.mem_cons.mp hq with rfl | hq
      · refine ⟨v, hchecked, rfl, value, hvalue, .inl ⟨nonceRow c v now, ?_, ⟨rfl, rfl⟩, ?_⟩⟩
        · exact (Table.mem_of_insert hinsert).mpr (.inl rfl)
        · have : (nonceRow c v now).expires_at = now + maxSkew c * 2 := rfl
          omega
      · exact (hinv.guarded q hq).mono le_rfl (fun _ hv => hv) hrows fun _ hw => hw
  apply hnew.put
  · intro x hx
    obtain rfl := Option.some.inj hx
    exact hnow
  · intro w hw
    cases hw

theorem inv_spend (io : Io) (hinv : Inv c s) (hrun : s.runs run = some (.ready v now)) :
    Inv c (spend c run v now io s) := by
  unfold spend
  rcases insertNonce_eq (nonceRow c v now) s.nonces with ⟨nonces, hinsert, heq⟩ | heq
  · rw [heq]
    cases io with
    | failed => exact hinv.finish
    | lost =>
      have hrows : ∀ row ∈ s.nonces, row ∈ nonces :=
        fun row hrow => (Table.mem_of_insert hinsert).mpr (.inr hrow)
      exact (hinv.nonces hrows).finish
    | ran => exact inv_fresh hinv hrun hinsert
  · rw [heq]
    cases io with
    | failed => exact hinv.finish
    | lost => exact hinv.finish
    | ran => exact hinv.finish

/-- A cleanup deletes nonces of windows that are over. -/
theorem inv_deleteExpired (hinv : Inv c s) (hnow : now ≤ s.clock)
    (hkeep : ∀ row ∈ s.nonces, row.expires_at < now → ∀ w, s.Pending w → ¬ IsNonce c w row) :
    Inv c (s.deleteExpired now) where
  nodup := hinv.nodup
  one_key := hinv.one_key
  stages run x hx := (hinv.stages run x hx).mono le_rfl fun _ hv => hv
  guarded := by
    intro q hq
    obtain ⟨v, hv, hvq, value, hvalue, hguard⟩ := hinv.guarded q hq
    refine ⟨v, hv, hvq, value, hvalue, ?_⟩
    rcases hguard with ⟨row, hrow, hnonce, hexpires⟩ | hpast
    · by_cases hexpired : row.expires_at < now
      · refine .inr ⟨by unfold deleteExpired; dsimp only; omega, fun w hw hwv => ?_⟩
        have hone := hinv.one_key w (checked_of_pending hinv hw) v hv hwv
        apply hkeep row hrow hexpired w hw
        exact ⟨hnonce.1.trans hone.symm, by rw [hnonce.2, hwv]⟩
      · exact .inl ⟨row, Table.mem_keep.mpr ⟨hrow, hexpired⟩, hnonce, hexpires⟩
    · exact .inr hpast

/-- What one action keeps. -/
theorem inv_act (a : Act) (s : Ingest) (hsound : Sound c a s) (hinv : Inv c s) :
    Inv c (act c a s) := by
  cases a with
  | tick time => exact inv_tick hinv time
  | check run request =>
    unfold act
    dsimp only
    split
    · rename_i v hrun hverify
      exact inv_check hinv hverify (hsound v hverify)
    · exact hinv
  | read run =>
    unfold act
    dsimp only
    split
    · rename_i v hrun
      split
      · exact inv_read hinv hrun
      · exact hinv.finish
    · exact hinv
  | spend run io =>
    unfold act
    dsimp only
    split
    · rename_i v now hrun
      exact inv_spend io hinv hrun
    · exact hinv
  | cleanup run io =>
    unfold act
    dsimp only
    split
    · rename_i v now hrun
      split
      · exact hinv.finish
      · exact (inv_deleteExpired hinv (hinv.stages run _ hrun) (hsound v now hrun)).finish
    · exact hinv
  | crash run => exact hinv.finish

theorem inv_start (clock : Int) (nonces : Table NonceRow) : Inv c (start clock nonces) where
  nodup := List.nodup_nil
  one_key _ hv := by cases hv
  stages _ _ hx := by cases hx
  guarded _ hq := by cases hq

/-- A run in which no signed request passes the check under two key ids, and no cleanup takes
the nonce of a request that another run has checked and not yet spent, admits no request
twice. -/
theorem orders_are_admitted_once {clock : Int} {nonces : Table NonceRow} {as : List Act}
    (h : Machine.Meets (act c) (Sound c) (start clock nonces) as) :
    Machine.Always (act c) AtMostOnce (start clock nonces) as :=
  Machine.always_of_inv inv_act (fun _ hinv => hinv.nodup) h (inv_start clock nonces)

/-! ## A request that comes twice -/

def exampleBody (event seq : String) : Bytes :=
  utf8 ("\x7b\"event_id\":\"" ++ event ++ "\",\"subscription_id\":\"s1\",\"project\":\"DEMO\"," ++
    "\"intent\":\"subscription.renewed\",\"seq\":" ++ seq ++
    ",\"customer\":\x7b\"id\":\"c1\"\x7d\x7d").toList

def exampleMessage (timestamp event seq : String) : Bytes :=
  utf8 ("POST\n/v1/orders\nlicensecc-orders\n" ++ timestamp ++ "\n").toList ++ exampleBody event seq

/-- The HMACs of two messages under one secret, and zeros for every other. -/
def orderHmac : Hmac where
  sign key message :=
    if key = List.replicate 32 107 ∧ message = exampleMessage "1300" "e1" "1" then
      [33, 225, 0, 156, 29, 145, 13, 224, 249, 112, 64, 39, 78, 87, 251, 231, 191, 29, 109, 61, 199,
        2, 237, 21, 231, 24, 230, 211, 212, 139, 107, 179]
    else if key = List.replicate 32 107 ∧ message = exampleMessage "1601" "e2" "2" then
      [209, 159, 139, 134, 160, 85, 48, 207, 239, 187, 101, 215, 255, 191, 219, 204, 29, 89, 164, 46,
        139, 147, 239, 245, 147, 76, 74, 146, 39, 252, 141, 67]
    else List.replicate 32 0
  length_sign key message := by
    split
    · rfl
    · split
      · rfl
      · rfl

/-- One key with the default skew, and two orders in its scope. -/
def exampleSetting : Setting where
  H := orderHmac
  atob text :=
    if text = jsText "IeEAnB2RDeD5cEAnTlf7578dbT3HAu0V5xjm09SLa7M=".toList then
      some [33, 225, 0, 156, 29, 145, 13, 224, 249, 112, 64, 39, 78, 87, 251, 231, 191, 29, 109, 61,
        199, 2, 237, 21, 231, 24, 230, 211, 212, 139, 107, 179]
    else if text = jsText "0Z+LhqBVMM/vu2XX/7/bzB1ZpC6Lk+/1k0xKkif8jUM=".toList then
      some [209, 159, 139, 134, 160, 85, 48, 207, 239, 187, 101, 215, 255, 191, 219, 204, 29, 89, 164,
        46, 139, 147, 239, 245, 147, 76, 74, 146, 39, 252, 141, 67]
    else none
  env :=
    { ORDER_HMAC_SECRETS := some [(jsText "k1".toList, List.replicate 32 107)]
      ORDER_INGEST_AUDIENCE := some (jsText "licensecc-orders".toList)
      ORDER_MAX_SKEW_SECONDS := none }
  digest body :=
    if body = exampleBody "e1" "1" then
      jsText "8d65d1f7b2b99e09a98655cc2447cdd293aba6522f738301ca5139d129ca4579".toList
    else if body = exampleBody "e2" "2" then
      jsText "3e6adac116ba925e54fb2a179f4e502ff6c7c29d02285be2373dc48ab6df08c2".toList
    else []
  accepts keyId body _ :=
    keyId = jsText "k1".toList ∧ (body = exampleBody "e1" "1" ∨ body = exampleBody "e2" "2")

def exampleOrder (timestamp signature event seq : String) : OrderRequest where
  keyId := some (jsText "k1".toList)
  timestamp := some (jsText timestamp.toList)
  signature := some (jsText signature.toList)
  body := exampleBody event seq

def firstOrder : OrderRequest :=
  exampleOrder "1300" "IeEAnB2RDeD5cEAnTlf7578dbT3HAu0V5xjm09SLa7M=" "e1" "1"

def secondOrder : OrderRequest :=
  exampleOrder "1601" "0Z+LhqBVMM/vu2XX/7/bzB1ZpC6Lk+/1k0xKkif8jUM=" "e2" "2"

/-- A run that meets this is sound: a cleanup deletes nothing. -/
def Unhurried (c : Setting) (a : Act) (s : Ingest) : Prop :=
  match a with
  | .check _ request =>
    match verifyOrderHmac c.H c.atob c.env request s.clock with
    | .ok v => ∀ w ∈ s.checked, w.request = v.request → w.keyId = v.keyId
    | .error _ => True
  | .cleanup run _ =>
    match s.runs run with
    | some (.spent _ now) => ∀ row ∈ s.nonces, now ≤ row.expires_at
    | _ => True
  | _ => True

instance (c : Setting) (a : Act) (s : Ingest) : Decidable (Unhurried c a s) := by
  unfold Unhurried
  split
  · split <;> infer_instance
  · split <;> infer_instance
  · infer_instance

theorem sound_of_unhurried {a : Act} (h : Unhurried c a s) : Sound c a s := by
  cases a with
  | check run request =>
    intro v hv
    unfold Unhurried at h
    simp only [hv] at h
    exact h
  | cleanup run io =>
    intro v now hrun row hrow hexpired
    unfold Unhurried at h
    simp only [hrun] at h
    have := h row hrow
    omega
  | tick time => trivial
  | read run => trivial
  | spend run io => trivial
  | crash run => trivial

/-- Two runs of one request, one after the other. -/
theorem orders_are_admitted_once_in_turn :
    Machine.Always (act exampleSetting) AtMostOnce (start 1000 .empty)
      [.check 0 firstOrder, .read 0, .spend 0 .ran, .cleanup 0 .ran,
        .check 1 firstOrder, .read 1, .spend 1 .ran] := by
  apply orders_are_admitted_once
  have h : Machine.Meets (act exampleSetting) (Unhurried exampleSetting) (start 1000 .empty)
      [.check 0 firstOrder, .read 0, .spend 0 .ran, .cleanup 0 .ran,
        .check 1 firstOrder, .read 1, .spend 1 .ran] := by decide +kernel
  exact h.mono fun _ _ => sound_of_unhurried

/-- A request that passes the check in the last second of its window spends its nonce again
when another run has deleted it in the second after. -/
theorem a_delayed_order_is_admitted_twice :
    ¬ AtMostOnce (Machine.run (act exampleSetting) (start 1000 .empty)
      [.check 0 firstOrder, .read 0, .spend 0 .ran, .cleanup 0 .ran,
        .tick 1600, .check 1 firstOrder,
        .tick 1601, .check 2 secondOrder, .read 2, .spend 2 .ran, .cleanup 2 .ran,
        .read 1, .spend 1 .ran, .cleanup 1 .ran]) := by
  decide +kernel

end Ingest

end Licensecc.Orders
