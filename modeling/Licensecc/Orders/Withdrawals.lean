-- The law of withdrawals. A disable or a revoke never gives access. A cancellation
-- writes the whole window again, and it gives access when it moves the end of the
-- window forward or drops its start.
import Licensecc.Orders.Mutation

open Licensecc.Sql

namespace Licensecc.Orders

/-! ## Access -/

/-- The time is in the window. -/
def InWindow (valid_from valid_until : Option Int) (t : Int) : Prop :=
  (∀ f, valid_from = some f → f ≤ t) ∧ ∀ u, valid_until = some u → t < u

instance (valid_from valid_until : Option Int) : DecidablePred (InWindow valid_from valid_until) :=
  fun _ => inferInstanceAs (Decidable ((∀ f ∈ valid_from, f ≤ _) ∧ ∀ u ∈ valid_until, _ < u))

/-- The grant gives access at a time. -/
def Usable (e : Entitlement) (t : Int) : Prop :=
  e.status = .active ∧ InWindow e.valid_from e.valid_until t

instance (e : Entitlement) : DecidablePred (Usable e) :=
  fun _ => inferInstanceAs (Decidable (_ ∧ _))

/-- The grant of a key gives access at a time. -/
def UsableIn (s : Store) (key : EntitlementKey) (t : Int) : Prop :=
  ∃ e ∈ s.entitlements, e.toEntitlementKey = key ∧ Usable e t

instance (s : Store) (key : EntitlementKey) : DecidablePred (UsableIn s key) :=
  fun _ => inferInstanceAs (Decidable (∃ _ ∈ _, _))

theorem usableIn_iff {s : Store} {e : Entitlement} {t : Int} (he : e ∈ s.entitlements) :
    UsableIn s e.toEntitlementKey t ↔ Usable e t := by
  constructor
  · rintro ⟨a, ha, hkey, husable⟩
    have hsame : a = e := Table.unique ha he (Entitlement.clash_iff.mpr hkey)
    exact hsame ▸ husable
  · intro h
    exact ⟨e, he, rfl, h⟩

/-! ## Windows -/

/-- A window is in another one. -/
def Narrower (f u f' u' : Option Int) : Prop := ∀ t, InWindow f' u' t → InWindow f u t

/-- The window that a cancellation writes is in the window that was there. -/
def KeepsWindow (periodEnd : Option Int) (f u : Option Int) : Prop :=
  match u with
  | none => periodEnd.getD 0 ≤ 0 ∨ f.getD 0 < periodEnd.getD 0
  | some until_ => 0 < until_ ∧ f.getD 0 < until_ ∧ periodEnd.getD 0 ≤ until_

/-- A window with its start keeps in the old one as long as its end does. -/
theorem narrower_bounded {f u : Option Int} {c : Int} (h : f.getD 0 < c) :
    Narrower f u (some (f.getD 0)) (some c) ↔ ∀ u', u = some u' → c ≤ u' := by
  constructor
  · intro hn u' hu
    have hin : InWindow (some (f.getD 0)) (some c) (c - 1) := by
      unfold InWindow
      simp only [Option.some.injEq, forall_eq']
      omega
    have := (hn _ hin).2 u' hu
    omega
  · intro hu t ht
    refine ⟨fun f' hf => ?_, fun u' hu' => ?_⟩
    · have := ht.1 _ rfl
      rwa [hf] at this
    · have := ht.2 _ rfl
      have := hu u' hu'
      omega

/-- A window that drops its start has times before the old one. -/
theorem not_narrower_no_start {f c : Int} {u : Option Int} (h : c ≤ f) :
    ¬ Narrower (some f) u none (some c) := by
  intro hn
  have hin : InWindow none (some c) (c - 1) := by
    unfold InWindow
    simp only [reduceCtorEq, IsEmpty.forall_iff, implies_true, Option.some.injEq, forall_eq', true_and]
    omega
  have := (hn _ hin).1 f rfl
  omega

/-- A window that drops its end is no longer than one that has none. -/
theorem narrower_open {f u : Option Int} : Narrower f u f none ↔ u = none := by
  constructor
  · intro hn
    by_contra hne
    obtain ⟨u', rfl⟩ := Option.ne_none_iff_exists'.mp hne
    have hin : InWindow f none (max (f.getD 0) u') := by
      refine ⟨fun f' hf => ?_, fun u' hu' => by cases hu'⟩
      rw [hf]
      simp
    have := (hn _ hin).2 u' rfl
    omega
  · rintro rfl t ht
    exact ht

theorem clampValidUntil_eq (a b : Option Int) : clampValidUntil a b = max (a.getD 0) (b.getD 0) := by
  unfold clampValidUntil
  simp only
  split
  · omega
  · omega

section
variable {order : Order} {e : Entitlement}

theorem withWindow_end (h : 0 < clampValidUntil order.current_period_end e.valid_until) :
    withWindow order (some e) =
      ⟨some (clampValidUntil order.current_period_end e.valid_until),
        if e.valid_from.getD 0 < clampValidUntil order.current_period_end e.valid_until then
          some (e.valid_from.getD 0) else none⟩ := by
  unfold withWindow
  simp [h]

theorem withWindow_open (h : ¬ 0 < clampValidUntil order.current_period_end e.valid_until) :
    withWindow order (some e) = ⟨none, none⟩ := by
  unfold withWindow
  simp [h]

/-- The window that a patch writes is in the window of the row exactly when the row
keeps its window. -/
theorem narrower_patchFields (keepOwner : Bool) :
    Narrower e.valid_from e.valid_until
        (patchFields order e (withWindow order (some e)) keepOwner).valid_from
        (patchFields order e (withWindow order (some e)) keepOwner).valid_until ↔
      KeepsWindow order.current_period_end e.valid_from e.valid_until := by
  have hclamp := clampValidUntil_eq order.current_period_end e.valid_until
  unfold patchFields KeepsWindow
  by_cases hpos : 0 < clampValidUntil order.current_period_end e.valid_until
  · rw [withWindow_end hpos]
    generalize clampValidUntil order.current_period_end e.valid_until = clamp at *
    by_cases hstart : e.valid_from.getD 0 < clamp
    · -- the new window begins where the old one begins
      have hopen : openStart (some (e.valid_from.getD 0)) (some clamp) = some (e.valid_from.getD 0) := by
        simp [openStart, hstart]
      simp only [hstart, if_true, Option.some_or, hopen, narrower_bounded hstart]
      cases hu : e.valid_until with
      | none =>
        rw [hu] at hclamp
        simp only [Option.getD_none] at hclamp
        simp only [reduceCtorEq, IsEmpty.forall_iff, implies_true, true_iff]
        omega
      | some u =>
        rw [hu] at hclamp
        simp only [Option.getD_some] at hclamp
        simp only [Option.some.injEq, forall_eq']
        omega
    · -- the start is dropped, so the new window has times before the old one
      have hwide : ¬ Narrower e.valid_from e.valid_until (openStart e.valid_from (some clamp))
          (some clamp) := by
        cases hf : e.valid_from with
        | none =>
          rw [hf] at hstart
          simp only [Option.getD_none] at hstart
          omega
        | some f =>
          rw [hf] at hstart
          simp only [Option.getD_some, not_lt] at hstart
          have hopen : openStart (some f) (some clamp) = none := by simp [openStart, hstart]
          rw [hopen]
          exact not_narrower_no_start hstart
      simp only [hstart, if_false, Option.none_or, iff_false_intro hwide, false_iff]
      cases hu : e.valid_until with
      | none =>
        rw [hu] at hclamp
        simp only [Option.getD_none] at hclamp
        dsimp only
        omega
      | some u =>
        rw [hu] at hclamp
        simp only [Option.getD_some] at hclamp
        dsimp only
        omega
  · rw [withWindow_open hpos]
    have hopen : openStart e.valid_from none = e.valid_from := by
      cases e.valid_from with
      | none => rfl
      | some f => rfl
    simp only [Option.none_or, hopen, narrower_open]
    cases hu : e.valid_until with
    | none =>
      rw [hu] at hclamp hpos
      simp only [Option.getD_none] at hclamp
      simp only [true_iff]
      omega
    | some u =>
      rw [hu] at hclamp hpos
      simp only [Option.getD_some] at hclamp
      simp only [reduceCtorEq, false_iff]
      omega

end

/-! ## Writes -/

section
variable {s s' : Store} {e : Entitlement} {time n : Int}

/-- The row that a guarded write leaves. -/
theorem guardedUpdate_row {owner : String} {floor : Floor} {ofCapacity terminal : Bool} {now : Int}
    {set : Entitlement → Entitlement} {changes n : Nat} (he : e ∈ s.entitlements)
    (hkey : ∀ a, (set a).toEntitlementKey = a.toEntitlementKey)
    (hrun : guardedUpdate e.toEntitlementKey owner floor ofCapacity terminal now set time changes s =
      .ok (n, s')) :
    ∃ e' ∈ s'.entitlements, e'.toEntitlementKey = e.toEntitlementKey ∧
      e' = if e.customer_id = owner ∧ (terminal = true ∨ e.status ≠ .revoked) ∧ floor.Advances e then
        e.bumped (advance floor now s (set e)) else e := by
  unfold guardedUpdate at hrun
  obtain ⟨db, hdb, rfl⟩ := Store.onDb_eq_ok.mp hrun
  obtain ⟨-, t, ht, rfl⟩ := Db.updateEntitlements_eq_ok.mp hdb
  refine ⟨_, (Table.mem_of_update ht).mpr ⟨e, he, rfl⟩, ?_, ?_⟩
  · split
    · rw [Entitlement.bumped_key]
      exact hkey e
    · rfl
  · simp only [true_and]

/-- Only the window and the status of a row say when it gives access. -/
theorem usable_bumped {old new : Entitlement} {t : Int} : Usable (old.bumped new) t ↔ Usable new t := by
  rw [Entitlement.bumped_eq]
  exact Iff.rfl

/-- The order is above the floor of the grant, and the grant is not revoked or the
order revokes it. -/
def Lands (order : Order) (e : Entitlement) : Prop :=
  (e.status ≠ .revoked ∨ order.intent ∈ REVOKE_INTENTS) ∧
    (⟨order.order_epoch, order.seq⟩ : Floor).Advances e

/-- The access after a guarded write of the grant of an order. -/
theorem usable_guardedUpdate {order : Order} {terminal : Bool} {now : Int}
    {set : Entitlement → Entitlement} (he : e ∈ s.entitlements)
    (howner : e.customer_id = order.customer.id)
    (hkey : ∀ a, (set a).toEntitlementKey = a.toEntitlementKey)
    (hrun : (guardedUpdate e.toEntitlementKey order.customer.id ⟨order.order_epoch, order.seq⟩ false
      terminal now set time 0 s).map (·.2) = .ok s') {t : Int} :
    UsableIn s' e.toEntitlementKey t ↔
      if (terminal = true ∨ e.status ≠ .revoked) ∧
        (⟨order.order_epoch, order.seq⟩ : Floor).Advances e then Usable (set e) t else Usable e t := by
  cases hwrite : guardedUpdate e.toEntitlementKey order.customer.id ⟨order.order_epoch, order.seq⟩
      false terminal now set time 0 s with
  | error a =>
    rw [hwrite] at hrun
    cases hrun
  | ok r =>
    rw [hwrite] at hrun
    obtain rfl := Except.ok.inj hrun
    obtain ⟨e', he', hkey', heq⟩ := guardedUpdate_row he hkey hwrite
    rw [← hkey', usableIn_iff he', heq]
    simp only [howner, true_and]
    split
    · rw [usable_bumped]
      exact Iff.rfl
    · exact Iff.rfl

end

/-! ## Withdrawals -/

/-- A withdrawal that changes the window is a cancellation of an active grant, and the
row keeps its window. -/
def Narrows (order : Order) (e : Entitlement) : Prop :=
  order.intent = .canceled_at_period_end → e.status = .active →
    (⟨order.order_epoch, order.seq⟩ : Floor).Advances e →
      KeepsWindow order.current_period_end e.valid_from e.valid_until

section
variable {order : Order} {fingerprint : String} {now time : Int} {s s' : Store} {e : Entitlement}

theorem entitlement_eq (he : e ∈ s.entitlements) : s.entitlement e.toEntitlementKey = some e := by
  unfold Store.entitlement
  apply Table.find?_eq he
  · rfl
  · intro a b ha hb
    exact Entitlement.clash_iff.mpr (ha.trans hb.symm)

variable (fingerprint now) in
/-- The mutation of a withdrawal of a grant of its customer. -/
theorem withdrawal_statement (hintent : order.intent ∈ WITHDRAWAL_INTENTS)
    (howner : e.customer_id = order.customer.id) :
    (e.status = .revoked ∧ writeStatement order fingerprint (some e) now = none) ∨
    (e.status ≠ .revoked ∧ order.intent = .canceled_at_period_end ∧
      writeStatement order fingerprint (some e) now = some (buildPatchStatement
        (grantKey order fingerprint) (patchFields order e (withWindow order (some e)) true)
        order.customer.id ⟨order.order_epoch, order.seq⟩ now)) ∨
    (order.intent ≠ .canceled_at_period_end ∧ ∃ status ≠ EntitlementStatus.active,
      writeStatement order fingerprint (some e) now = some (buildTransitionStatement
        (grantKey order fingerprint) status order.customer.id ⟨order.order_epoch, order.seq⟩ now)) := by
  have hmine : (some e).any (fun e => decide (e.customer_id ≠ order.customer.id)) = false := by
    simp [howner]
  unfold writeStatement mapIntentToMutation
  simp only [hmine, Bool.false_eq_true, if_false, Option.any_some, decide_eq_true_eq]
  by_cases hrevoked : e.status = .revoked
  · by_cases hrevoke : order.intent ∈ REVOKE_INTENTS
    · right
      right
      simp only [hrevoke, not_true_eq_false, and_false, if_false]
      rcases List.mem_cons.mp hrevoke with h | h
      · rw [h]
        exact ⟨by simp, .revoked, by simp, rfl⟩
      · rw [List.mem_singleton.mp h]
        exact ⟨by simp, .revoked, by simp, rfl⟩
    · left
      simp [hrevoked, hrevoke]
  · right
    simp only [hrevoked, false_and, if_false]
    simp only [WITHDRAWAL_INTENTS, DISABLE_INTENTS, REVOKE_INTENTS, List.cons_append, List.nil_append,
      List.mem_cons, List.not_mem_nil, or_false] at hintent
    rcases hintent with h | h | h | h | h | h
    · left
      rw [h]
      exact ⟨hrevoked, rfl, rfl⟩
    all_goals
      right
      rw [h]
    · exact ⟨by simp, .disabled, by simp, rfl⟩
    · exact ⟨by simp, .disabled, by simp, rfl⟩
    · exact ⟨by simp, .disabled, by simp, rfl⟩
    · exact ⟨by simp, .revoked, by simp, rfl⟩
    · exact ⟨by simp, .revoked, by simp, rfl⟩

end

/-- A cancellation of the period that ends at 5000. -/
def exampleCancellation : Order where
  event_id := "event"
  subscription_id := "subscription"
  seq := 1
  intent := .canceled_at_period_end
  project := "p"
  feature := "f"
  current_period_end := some 5000
  customer := { id := "alice" }

/-- A grant with an end. -/
def grantUntil (valid_until : Option Int) : Entitlement := { exampleEntitlement with valid_until }

theorem check_grantUntil (valid_until : Option Int) : Schema.check (grantUntil valid_until) :=
  show Schema.check exampleEntitlement by decide

def grantedStore (valid_until : Option Int) : Store :=
  { entitlements := ⟨[grantUntil valid_until], by simp [check_grantUntil], by simp⟩ }

end Licensecc.Orders
