-- The normalization of an order body. Two bodies that say the same, in any order, in any
-- spelling and with null for what is left out, normalize to one order at any time.
import Licensecc.Orders.Event
import Licensecc.Webhook.Scope

open Licensecc.Codec
open Licensecc.Webhook (memberOf)

namespace Licensecc.Orders

/-! ## Fields -/

def MAX_PROJECT_SIZE : Nat := 127
def MAX_FEATURE_SIZE : Nat := 15
def MAX_ID_SIZE : Nat := 255
def GRACE_SECONDS : Int := 86400

def ORDER_FIELDS : List String := [
  "event_id", "subscription_id", "project", "feature", "intent", "seq", "order_epoch",
  "license_fingerprint", "current_period_end", "occurred_at", "license_id", "quantity", "customer"]

def QUANTITY_FIELDS : List String := ["max_active_devices"]

def CUSTOMER_FIELDS : List String := ["id", "external_ref", "name", "email"]

def ORDER_INTENTS : List OrderIntent := [
  .active, .renewed, .past_due, .paused, .payment_failed, .canceled_at_period_end, .resumed,
  .quantity_changed, .fraud_confirmed, .chargeback]

abbrev Members := List (JsText × Json.Tree)

def Json.isNull : Json.Tree → Bool
  | .null => true
  | _ => false

/-- The value of a member, where null is as good as no member. -/
def valueOf (name : String) (members : Members) : Option Json.Tree :=
  (memberOf name members).filter fun v => !Json.isNull v

def hasOnlyFields (members : Members) (allowed : List String) : Bool :=
  members.all fun m => allowed.any fun field => m.1 = ofChars field.toList

/-- A member that must be there. -/
def required {α : Type} (read : Json.Tree → Option α) (name : String) (members : Members) : Option α :=
  (valueOf name members).bind read

/-- A member that may be left out. -/
def optional {α : Type} (read : Json.Tree → Option α) (name : String) (members : Members) :
    Option (Option α) :=
  match valueOf name members with
  | none => some none
  | some v => (read v).map some

def safeString (maxLength : Nat) : Json.Tree → Option JsText
  | .string s =>
    if s = [] ∨ s.length > maxLength ∨ unit '\n' ∈ s ∨ unit '\r' ∈ s ∨ unit '=' ∈ s ∨ 0 ∈ s then none
    else some s
  | _ => none

/-- A text that is bounded only. -/
def boundedText (maxLength : Nat) : Json.Tree → Option JsText
  | .string s => if s.length > maxLength then none else some s
  | _ => none

/-- `[0-9a-f]` -/
def isHexUnit (u : UInt16) : Bool :=
  unit '0' ≤ u && u ≤ unit '9' || unit 'a' ≤ u && u ≤ unit 'f'

def safeHex64 : Json.Tree → Option JsText
  | .string s => if s.length = 64 ∧ s.all isHexUnit then some s else none
  | _ => none

def knownIntent : Json.Tree → Option OrderIntent
  | .string s => ORDER_INTENTS.find? fun i => ofChars i.text.toList = s
  | _ => none

section
-- the integer that `Number` reads, when it reads one
variable (int : NumberToken → Option Int)

/-- A number that is a safe integer from zero on. -/
def safeInteger : Json.Tree → Option Int
  | .number n => (int n).filter fun k => 0 ≤ k ∧ k ≤ maxSafeInteger
  | _ => none

def safeUnixSeconds : Json.Tree → Option Int := safeInteger int

def nonNegativeInteger : Json.Tree → Option Int := safeInteger int

/-- `quantity` -/
def readQuantity : Json.Tree → Option Int
  | .object q =>
    if hasOnlyFields q QUANTITY_FIELDS then required (nonNegativeInteger int) "max_active_devices" q
    else none
  | _ => none

/-- `customer` -/
def readCustomer : Json.Tree → Option (OrderCustomer JsText)
  | .object c =>
    if hasOnlyFields c CUSTOMER_FIELDS then do
      let id ← required (safeString MAX_ID_SIZE) "id" c
      let external_ref ← optional (safeString MAX_ID_SIZE) "external_ref" c
      let name ← optional (boundedText MAX_ID_SIZE) "name" c
      let email ← optional (boundedText MAX_ID_SIZE) "email" c
      return { id, external_ref, name, email }
    else none
  | _ => none

/-- The feature, or the project in its place. -/
def readFeature (project : JsText) (members : Members) : Option JsText :=
  match valueOf "feature" members with
  | none => if project.length ≤ MAX_FEATURE_SIZE then some project else none
  | some v => safeString MAX_FEATURE_SIZE v

/-- The order of some members. -/
def orderOf (members : Members) : Option (OrderOf JsText) := do
  let event_id ← required (safeString MAX_ID_SIZE) "event_id" members
  let subscription_id ← required (safeString MAX_ID_SIZE) "subscription_id" members
  let project ← required (safeString MAX_PROJECT_SIZE) "project" members
  let feature ← readFeature project members
  let intent ← required knownIntent "intent" members
  let seq ← required (nonNegativeInteger int) "seq" members
  let order_epoch ← optional (nonNegativeInteger int) "order_epoch" members
  let license_fingerprint ← optional safeHex64 "license_fingerprint" members
  let current_period_end ← optional (safeUnixSeconds int) "current_period_end" members
  let occurred_at ← optional (safeUnixSeconds int) "occurred_at" members
  let license_id ← optional (safeString MAX_ID_SIZE) "license_id" members
  let quantity ← optional (readQuantity int) "quantity" members
  guard (intent = .quantity_changed → quantity ≠ none)
  let customer ← required readCustomer "customer" members
  return {
    event_id, subscription_id, order_epoch := order_epoch.getD 0, seq, intent, project, feature,
    license_fingerprint, current_period_end, quantity, customer, license_id, occurred_at }

def SafeSeconds (now : Int) : Prop := 0 ≤ now ∧ now ≤ maxSafeInteger

instance (now : Int) : Decidable (SafeSeconds now) := inferInstanceAs (Decidable (_ ∧ _))

def orderPeriodIsAcceptable (order : OrderOf JsText) (now : Int) : Bool :=
  SafeSeconds now ∧ ¬ (order.intent ∉ WITHDRAWAL_INTENTS ∧
    order.current_period_end.any fun periodEnd => periodEnd ≤ now - GRACE_SECONDS)

/-- The order of a parsed body, unless it is an `invalid_order`. -/
def normalizeOrderEventInternal (now : Int) (enforceHistoricalPeriodEnd : Bool) (parsedBody : Json.Tree) :
    Option (OrderOf JsText) :=
  match parsedBody with
  | .object members =>
    if hasOnlyFields members ORDER_FIELDS ∧ SafeSeconds now then
      (orderOf int members).filter fun order =>
        !enforceHistoricalPeriodEnd || orderPeriodIsAcceptable order now
    else none
  | _ => none

def normalizeOrderEvent (now : Int) : Json.Tree → Option (OrderOf JsText) :=
  normalizeOrderEventInternal int now true

def normalizeOrderEventForReplay (now : Int) : Json.Tree → Option (OrderOf JsText) :=
  normalizeOrderEventInternal int now false

/-! ## Bodies that say the same -/

/-- Values that are the same but for the order of members, members that another one of the
name replaces, null for no member, and the spelling of numbers. -/
inductive Same : Json.Tree → Json.Tree → Prop
  | refl (v : Json.Tree) : Same v v
  | number {n m : NumberToken} : int n = int m → Same (.number n) (.number m)
  | object {l l' : Members} :
      (∀ name, Option.Rel Same (valueOf name l) (valueOf name l')) → Same (.object l) (.object l')

/-- Values that are the same are not read as different ones. -/
def Stable {α : Type} (read : Json.Tree → Option α) : Prop :=
  ∀ ⦃v w⦄, Same int v w → ∀ ⦃a b⦄, read v = some a → read w = some b → a = b

/-- Objects with the same members. -/
def SameMembers (l l' : Members) : Prop := ∀ name, Option.Rel (Same int) (valueOf name l) (valueOf name l')

variable {int} {α : Type} {read : Json.Tree → Option α} {name : String} {l l' : Members}

theorem sameMembers_refl (l : Members) : SameMembers int l l := by
  intro name
  cases valueOf name l with
  | none => exact .none
  | some v => exact .some (.refl v)

/-- A reader that refuses every number and every object is stable. -/
theorem stable_of_text (hnumber : ∀ n, read (.number n) = none)
    (hobject : ∀ l, read (.object l) = none) : Stable int read := by
  intro v w h a b ha hb
  cases h with
  | refl v =>
    rw [ha] at hb
    exact Option.some.inj hb
  | number h =>
    rw [hnumber] at ha
    cases ha
  | object h =>
    rw [hobject] at ha
    cases ha

theorem stable_safeString (maxLength : Nat) : Stable int (safeString maxLength) :=
  stable_of_text (fun _ => rfl) fun _ => rfl

theorem stable_boundedText (maxLength : Nat) : Stable int (boundedText maxLength) :=
  stable_of_text (fun _ => rfl) fun _ => rfl

theorem stable_safeHex64 : Stable int safeHex64 := stable_of_text (fun _ => rfl) fun _ => rfl

theorem stable_knownIntent : Stable int knownIntent := stable_of_text (fun _ => rfl) fun _ => rfl

theorem stable_safeInteger : Stable int (safeInteger int) := by
  intro v w h a b ha hb
  cases h with
  | refl v =>
    rw [ha] at hb
    exact Option.some.inj hb
  | number h =>
    unfold safeInteger at ha hb
    dsimp only at ha hb
    rw [h, hb] at ha
    exact (Option.some.inj ha).symm
  | object h => cases ha

/-- A reader of objects is stable when it is stable on their members. -/
theorem stable_of_object (hnumber : ∀ n, read (.number n) = none)
    (hobject : ∀ l l', SameMembers int l l' → ∀ a b, read (.object l) = some a →
      read (.object l') = some b → a = b) : Stable int read := by
  intro v w h a b ha hb
  cases h with
  | refl v =>
    rw [ha] at hb
    exact Option.some.inj hb
  | number h =>
    rw [hnumber] at ha
    cases ha
  | object h => exact hobject _ _ h a b ha hb

theorem required_eq (hread : Stable int read) (h : SameMembers int l l') {a b : α}
    (ha : required read name l = some a) (hb : required read name l' = some b) : a = b := by
  unfold required at ha hb
  obtain ⟨v, hv, ha⟩ := Option.bind_eq_some_iff.mp ha
  obtain ⟨w, hw, hb⟩ := Option.bind_eq_some_iff.mp hb
  have hrel := h name
  rw [hv, hw] at hrel
  cases hrel with
  | some hsame => exact hread hsame ha hb

theorem optional_eq (hread : Stable int read) (h : SameMembers int l l') {a b : Option α}
    (ha : optional read name l = some a) (hb : optional read name l' = some b) : a = b := by
  have hrel := h name
  unfold optional at ha hb
  revert ha hb hrel
  cases valueOf name l with
  | none =>
    cases valueOf name l' with
    | none =>
      intro ha hb _
      exact (Option.some.inj ha).symm.trans (Option.some.inj hb)
    | some w =>
      intro _ _ hrel
      cases hrel
  | some v =>
    cases valueOf name l' with
    | none =>
      intro _ _ hrel
      cases hrel
    | some w =>
      intro ha hb hrel
      obtain ⟨x, hx, rfl⟩ := Option.map_eq_some_iff.mp ha
      obtain ⟨y, hy, rfl⟩ := Option.map_eq_some_iff.mp hb
      cases hrel with
      | some hsame => rw [hread hsame hx hy]

theorem stable_readQuantity : Stable int (readQuantity int) := by
  apply stable_of_object
  · exact fun _ => rfl
  · intro l l' h a b ha hb
    unfold readQuantity at ha hb
    dsimp only at ha hb
    obtain ⟨-, ha⟩ := Option.ite_none_right_eq_some.mp ha
    obtain ⟨-, hb⟩ := Option.ite_none_right_eq_some.mp hb
    exact required_eq stable_safeInteger h ha hb

/-- Two computations agree when their first steps do and their rests do. -/
theorem eq_of_bind {β : Type} {x y : Option α} {f g : α → Option β} {a b : β}
    (ha : x.bind f = some a) (hb : y.bind g = some b)
    (hfirst : ∀ {u v}, x = some u → y = some v → u = v)
    (hrest : ∀ u, f u = some a → g u = some b → a = b) : a = b := by
  obtain ⟨u, hu, hf⟩ := Option.bind_eq_some_iff.mp ha
  obtain ⟨v, hv, hg⟩ := Option.bind_eq_some_iff.mp hb
  obtain rfl := hfirst hu hv
  exact hrest u hf hg

theorem stable_readCustomer : Stable int readCustomer := by
  apply stable_of_object
  · exact fun _ => rfl
  · intro l l' h a b ha hb
    unfold readCustomer at ha hb
    dsimp only at ha hb
    obtain ⟨-, ha⟩ := Option.ite_none_right_eq_some.mp ha
    obtain ⟨-, hb⟩ := Option.ite_none_right_eq_some.mp hb
    refine eq_of_bind ha hb (required_eq (stable_safeString _) h) fun id ha hb => ?_
    refine eq_of_bind ha hb (optional_eq (stable_safeString _) h) fun ref ha hb => ?_
    refine eq_of_bind ha hb (optional_eq (stable_boundedText _) h) fun name ha hb => ?_
    refine eq_of_bind ha hb (optional_eq (stable_boundedText _) h) fun email ha hb => ?_
    exact Option.some.inj (ha.symm.trans hb)

theorem readFeature_eq {project : JsText} (h : SameMembers int l l') {a b : JsText}
    (ha : readFeature project l = some a) (hb : readFeature project l' = some b) : a = b := by
  have hrel := h "feature"
  unfold readFeature at ha hb
  revert ha hb hrel
  cases valueOf "feature" l with
  | none =>
    cases valueOf "feature" l' with
    | none =>
      intro ha hb _
      rw [ha] at hb
      exact Option.some.inj hb
    | some w =>
      intro _ _ hrel
      cases hrel
  | some v =>
    cases valueOf "feature" l' with
    | none =>
      intro _ _ hrel
      cases hrel
    | some w =>
      intro ha hb hrel
      cases hrel with
      | some hsame => exact stable_safeString _ hsame ha hb

/-- Objects with the same members have one order. -/
theorem orderOf_eq (h : SameMembers int l l') {a b : OrderOf JsText}
    (ha : orderOf int l = some a) (hb : orderOf int l' = some b) : a = b := by
  unfold orderOf at ha hb
  refine eq_of_bind ha hb (required_eq (stable_safeString _) h) fun event_id ha hb => ?_
  refine eq_of_bind ha hb (required_eq (stable_safeString _) h) fun subscription_id ha hb => ?_
  refine eq_of_bind ha hb (required_eq (stable_safeString _) h) fun project ha hb => ?_
  refine eq_of_bind ha hb (readFeature_eq h) fun feature ha hb => ?_
  refine eq_of_bind ha hb (required_eq stable_knownIntent h) fun intent ha hb => ?_
  refine eq_of_bind ha hb (required_eq stable_safeInteger h) fun seq ha hb => ?_
  refine eq_of_bind ha hb (optional_eq stable_safeInteger h) fun order_epoch ha hb => ?_
  refine eq_of_bind ha hb (optional_eq stable_safeHex64 h) fun license_fingerprint ha hb => ?_
  refine eq_of_bind ha hb (optional_eq stable_safeInteger h) fun current_period_end ha hb => ?_
  refine eq_of_bind ha hb (optional_eq stable_safeInteger h) fun occurred_at ha hb => ?_
  refine eq_of_bind ha hb (optional_eq (stable_safeString _) h) fun license_id ha hb => ?_
  refine eq_of_bind ha hb (optional_eq stable_readQuantity h) fun quantity ha hb => ?_
  refine eq_of_bind ha hb (fun _ _ => rfl) fun _ ha hb => ?_
  refine eq_of_bind ha hb (required_eq stable_readCustomer h) fun customer ha hb => ?_
  exact Option.some.inj (ha.symm.trans hb)

/-- An accepted body is an object with an order. -/
theorem of_normalize {now : Int} {enforce : Bool} {v : Json.Tree} {o : OrderOf JsText}
    (h : normalizeOrderEventInternal int now enforce v = some o) :
    ∃ members, v = .object members ∧ orderOf int members = some o := by
  unfold normalizeOrderEventInternal at h
  split at h
  · obtain ⟨-, h⟩ := Option.ite_none_right_eq_some.mp h
    exact ⟨_, rfl, (Option.filter_eq_some_iff.mp h).1⟩
  · cases h

/-- Bodies that say the same have one order at all times at which both are accepted. -/
theorem normalize_eq {now now' : Int} {enforce enforce' : Bool} {v w : Json.Tree} {o o' : OrderOf JsText}
    (h : Same int v w) (hv : normalizeOrderEventInternal int now enforce v = some o)
    (hw : normalizeOrderEventInternal int now' enforce' w = some o') : o = o' := by
  obtain ⟨l, rfl, ho⟩ := of_normalize hv
  obtain ⟨l', rfl, ho'⟩ := of_normalize hw
  cases h with
  | refl =>
    rw [ho] at ho'
    exact Option.some.inj ho'
  | object hmembers => exact orderOf_eq hmembers ho ho'

end

end Licensecc.Orders
