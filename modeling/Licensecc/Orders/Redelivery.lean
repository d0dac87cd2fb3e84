-- The law of redelivered orders. An order has one digest however its body is written, and
-- no two orders have one digest input, so a redelivery is no conflict and a change is one.
import Licensecc.Codec.JsonMembers
import Licensecc.Orders.Normalize

open Licensecc.Codec
open Licensecc.Webhook (memberOf numberTree)

namespace Licensecc.Orders

/-! ## The digest -/

def customerFields (c : OrderCustomer JsText) : List (String × Option Json.Tree) := [
  ("id", some (.string c.id)),
  ("external_ref", c.external_ref.map .string),
  ("name", c.name.map .string),
  ("email", c.email.map .string)]

def customerTree (c : OrderCustomer JsText) : Json.Tree := .object (present (customerFields c))

def quantityFields (max_active_devices : Int) : List (String × Option Json.Tree) :=
  [("max_active_devices", some (numberTree max_active_devices))]

def quantityTree (max_active_devices : Int) : Json.Tree :=
  .object (present (quantityFields max_active_devices))

def intentTree (i : OrderIntent) : Json.Tree := .string (ofChars i.text.toList)

/-- The members of a normalized order, in which an undefined one is not set. -/
def orderFields (o : OrderOf JsText) : List (String × Option Json.Tree) := [
  ("event_id", some (.string o.event_id)),
  ("subscription_id", some (.string o.subscription_id)),
  ("order_epoch", some (numberTree o.order_epoch)),
  ("seq", some (numberTree o.seq)),
  ("intent", some (intentTree o.intent)),
  ("project", some (.string o.project)),
  ("feature", some (.string o.feature)),
  ("license_fingerprint", o.license_fingerprint.map .string),
  ("current_period_end", o.current_period_end.map numberTree),
  ("quantity", o.quantity.map quantityTree),
  ("customer", some (customerTree o.customer)),
  ("license_id", o.license_id.map .string),
  ("occurred_at", o.occurred_at.map numberTree)]

def orderTree (o : OrderOf JsText) : Json.Tree := .object (present (orderFields o))

def bytesToHex (bytes : Bytes) : String :=
  String.ofList (bytes.flatMap fun b =>
    [Codec.hexDigit (b.toNat / 16), Codec.hexDigit (b.toNat % 16)])

/-- `sha256Hex(stableStringify(order))` -/
def payloadDigest (sha256 : Bytes → Bytes) (o : OrderOf JsText) : String :=
  bytesToHex (sha256 (utf8 (stableStringify (orderTree o))))

/-- What the stored event of the id makes of a delivery. -/
inductive Replay where
  | fresh
  | event_id_conflict
  | redrive
  | cached
  deriving DecidableEq

/-- The first step of `runExactlyOnce`. -/
def replayOf (existing : Option OrderEvent) (digest : String) : Replay :=
  match existing with
  | none => .fresh
  | some row =>
    if row.payload_digest ≠ digest then .event_id_conflict
    else if row.status = .accepted then .redrive
    else .cached

/-! ## The digest input tells the order -/

/-- The numbers of an order are safe integers. -/
structure InRange (o : OrderOf JsText) : Prop where
  order_epoch : 0 ≤ o.order_epoch ∧ o.order_epoch ≤ maxSafeInteger
  seq : 0 ≤ o.seq ∧ o.seq ≤ maxSafeInteger
  current_period_end : ∀ n ∈ o.current_period_end, 0 ≤ n ∧ n ≤ maxSafeInteger
  quantity : ∀ n ∈ o.quantity, 0 ≤ n ∧ n ≤ maxSafeInteger
  occurred_at : ∀ n ∈ o.occurred_at, 0 ≤ n ∧ n ≤ maxSafeInteger

theorem numberTree_sorted (n : Int) : (numberTree n).sorted = numberTree n := rfl

theorem eq_of_numberTree {n m : Int} (hn : 0 ≤ n ∧ n ≤ maxSafeInteger) (hm : 0 ≤ m ∧ m ≤ maxSafeInteger)
    (h : (numberTree n).sorted = (numberTree m).sorted) : n = m := by
  rw [numberTree_sorted, numberTree_sorted] at h
  have htext : numberText n = numberText m := congrArg Subtype.val (JsonValue.number.inj h)
  have hread := jsNumber_of_text htext
  have hmax : maxSafeInteger = 9007199254740991 := rfl
  rw [jsNumber_small (by omega) (by omega), jsNumber_small (by omega) (by omega)] at hread
  exact hread

theorem eq_of_string {s t : JsText}
    (h : (JsonValue.string s : Json.Tree).sorted = (JsonValue.string t : Json.Tree).sorted) : s = t :=
  JsonValue.string.inj h

theorem eq_of_intentTree {i j : OrderIntent} (h : (intentTree i).sorted = (intentTree j).sorted) :
    i = j := by
  have htext : i.text = j.text := String.ext (ofChars_injective (eq_of_string h))
  revert htext
  cases i <;> cases j <;> decide

/-- An optional member tells its value. -/
theorem eq_of_map_sorted {α : Type} {f : α → Json.Tree} {x y : Option α}
    (hf : ∀ a ∈ x, ∀ b ∈ y, (f a).sorted = (f b).sorted → a = b)
    (h : (x.map f).map JsonValue.sorted = (y.map f).map JsonValue.sorted) : x = y := by
  cases x with
  | none =>
    cases y with
    | none => rfl
    | some b => cases h
  | some a =>
    cases y with
    | none => cases h
    | some b => rw [hf a rfl b rfl (Option.some.inj h)]

theorem eq_of_customerTree {c d : OrderCustomer JsText}
    (h : (customerTree c).sorted = (customerTree d).sorted) : c = d := by
  have hnodup : ((customerFields c).map (·.1)).Nodup :=
    show ["id", "external_ref", "name", "email"].Nodup by decide
  have hnames : (customerFields c).map (·.1) = (customerFields d).map (·.1) := rfl
  have hfields := fields_of_sorted_eq hnames hnodup h
  simp only [customerFields, List.map_cons, List.cons.injEq] at hfields
  obtain ⟨hid, href, hname, hemail, -⟩ := hfields
  obtain ⟨id, ref, name, email⟩ := c
  obtain ⟨id', ref', name', email'⟩ := d
  obtain rfl : id = id' := eq_of_string (Option.some.inj hid)
  obtain rfl : ref = ref' := eq_of_map_sorted (fun _ _ _ _ => eq_of_string) href
  obtain rfl : name = name' := eq_of_map_sorted (fun _ _ _ _ => eq_of_string) hname
  obtain rfl : email = email' := eq_of_map_sorted (fun _ _ _ _ => eq_of_string) hemail
  rfl

theorem eq_of_quantityTree {n m : Int} (hn : 0 ≤ n ∧ n ≤ maxSafeInteger)
    (hm : 0 ≤ m ∧ m ≤ maxSafeInteger) (h : (quantityTree n).sorted = (quantityTree m).sorted) :
    n = m := by
  have hnodup : ((quantityFields n).map (·.1)).Nodup := List.nodup_singleton _
  have hnames : (quantityFields n).map (·.1) = (quantityFields m).map (·.1) := rfl
  have hfields := fields_of_sorted_eq hnames hnodup h
  exact eq_of_numberTree hn hm (Option.some.inj (List.cons.inj hfields).1)

/-- Two orders with one sorted value are one order. -/
theorem eq_of_orderTree {o o' : OrderOf JsText} (ho : InRange o) (ho' : InRange o')
    (h : (orderTree o).sorted = (orderTree o').sorted) : o = o' := by
  have hnodup : ((orderFields o).map (·.1)).Nodup :=
    show ["event_id", "subscription_id", "order_epoch", "seq", "intent", "project", "feature",
      "license_fingerprint", "current_period_end", "quantity", "customer", "license_id",
      "occurred_at"].Nodup by decide
  have hnames : (orderFields o).map (·.1) = (orderFields o').map (·.1) := rfl
  have hfields := fields_of_sorted_eq hnames hnodup h
  simp only [orderFields, List.map_cons, List.cons.injEq] at hfields
  obtain ⟨h1, h2, h3, h4, h5, h6, h7, h8, h9, h10, h11, h12, h13, -⟩ := hfields
  have hepoch := eq_of_numberTree ho.order_epoch ho'.order_epoch (Option.some.inj h3)
  have hseq := eq_of_numberTree ho.seq ho'.seq (Option.some.inj h4)
  have hend := eq_of_map_sorted (fun a ha b hb => eq_of_numberTree (ho.current_period_end a ha)
    (ho'.current_period_end b hb)) h9
  have hquantity := eq_of_map_sorted (fun a ha b hb => eq_of_quantityTree (ho.quantity a ha)
    (ho'.quantity b hb)) h10
  have hoccurred := eq_of_map_sorted (fun a ha b hb => eq_of_numberTree (ho.occurred_at a ha)
    (ho'.occurred_at b hb)) h13
  have hfingerprint := eq_of_map_sorted (fun _ _ _ _ => eq_of_string) h8
  have hlicense := eq_of_map_sorted (fun _ _ _ _ => eq_of_string) h12
  have hintent := eq_of_intentTree (Option.some.inj h5)
  have hcustomer := eq_of_customerTree (Option.some.inj h11)
  obtain ⟨event_id, subscription_id, epoch, seq, intent, project, feature, fingerprint, periodEnd,
    quantity, customer, license, occurred⟩ := o
  obtain ⟨event_id', subscription_id', epoch', seq', intent', project', feature', fingerprint',
    periodEnd', quantity', customer', license', occurred'⟩ := o'
  obtain rfl : event_id = event_id' := eq_of_string (Option.some.inj h1)
  obtain rfl : subscription_id = subscription_id' := eq_of_string (Option.some.inj h2)
  obtain rfl : project = project' := eq_of_string (Option.some.inj h6)
  obtain rfl : feature = feature' := eq_of_string (Option.some.inj h7)
  dsimp only at hepoch hseq hend hquantity hoccurred hfingerprint hlicense hintent hcustomer
  rw [hepoch, hseq, hend, hquantity, hoccurred, hfingerprint, hlicense, hintent, hcustomer]

/-! ## The numbers of a normalized order -/

section
variable {int : NumberToken → Option Int}

theorem of_safeInteger {v : Json.Tree} {n : Int} (h : safeInteger int v = some n) :
    0 ≤ n ∧ n ≤ maxSafeInteger := by
  unfold safeInteger at h
  split at h
  · have := (Option.filter_eq_some_iff.mp h).2
    simpa using this
  · cases h

theorem of_required {α : Type} {read : Json.Tree → Option α} {P : α → Prop} {name : String}
    {l : Members} {a : α} (hread : ∀ {v b}, read v = some b → P b) (h : required read name l = some a) :
    P a := by
  obtain ⟨v, -, hv⟩ := Option.bind_eq_some_iff.mp h
  exact hread hv

theorem of_optional {α : Type} {read : Json.Tree → Option α} {P : α → Prop} {name : String}
    {l : Members} {a : Option α} (hread : ∀ {v b}, read v = some b → P b)
    (h : optional read name l = some a) : ∀ b ∈ a, P b := by
  unfold optional at h
  split at h
  · obtain rfl := Option.some.inj h
    intro b hb
    cases hb
  · obtain ⟨b, hb, rfl⟩ := Option.map_eq_some_iff.mp h
    rintro b' ⟨⟩
    exact hread hb

theorem of_readQuantity {v : Json.Tree} {n : Int} (h : readQuantity int v = some n) :
    0 ≤ n ∧ n ≤ maxSafeInteger := by
  unfold readQuantity at h
  split at h
  · obtain ⟨-, h⟩ := Option.ite_none_right_eq_some.mp h
    exact of_required (P := fun n => 0 ≤ n ∧ n ≤ maxSafeInteger) of_safeInteger h
  · cases h

theorem inRange_of_orderOf {l : Members} {o : OrderOf JsText} (h : orderOf int l = some o) :
    InRange o := by
  unfold orderOf at h
  obtain ⟨event_id, -, h⟩ := Option.bind_eq_some_iff.mp h
  obtain ⟨subscription_id, -, h⟩ := Option.bind_eq_some_iff.mp h
  obtain ⟨project, -, h⟩ := Option.bind_eq_some_iff.mp h
  obtain ⟨feature, -, h⟩ := Option.bind_eq_some_iff.mp h
  obtain ⟨intent, -, h⟩ := Option.bind_eq_some_iff.mp h
  obtain ⟨seq, hseq, h⟩ := Option.bind_eq_some_iff.mp h
  obtain ⟨epoch, hepoch, h⟩ := Option.bind_eq_some_iff.mp h
  obtain ⟨fingerprint, -, h⟩ := Option.bind_eq_some_iff.mp h
  obtain ⟨periodEnd, hend, h⟩ := Option.bind_eq_some_iff.mp h
  obtain ⟨occurred, hoccurred, h⟩ := Option.bind_eq_some_iff.mp h
  obtain ⟨license, -, h⟩ := Option.bind_eq_some_iff.mp h
  obtain ⟨quantity, hquantity, h⟩ := Option.bind_eq_some_iff.mp h
  obtain ⟨-, -, h⟩ := Option.bind_eq_some_iff.mp h
  obtain ⟨customer, -, h⟩ := Option.bind_eq_some_iff.mp h
  obtain rfl := Option.some.inj h
  refine ⟨?_, of_required (P := fun n => 0 ≤ n ∧ n ≤ maxSafeInteger) of_safeInteger hseq, of_optional of_safeInteger hend,
    of_optional of_readQuantity hquantity, of_optional of_safeInteger hoccurred⟩
  have hsafe := of_optional (P := fun n => 0 ≤ n ∧ n ≤ maxSafeInteger) of_safeInteger hepoch
  cases epoch with
  | none => exact ⟨le_rfl, (by decide : (0 : Int) ≤ maxSafeInteger)⟩
  | some n => exact hsafe n rfl

theorem inRange_of_normalize {now : Int} {enforce : Bool} {v : Json.Tree} {o : OrderOf JsText}
    (h : normalizeOrderEventInternal int now enforce v = some o) : InRange o := by
  obtain ⟨l, -, hl⟩ := of_normalize h
  exact inRange_of_orderOf hl

/-! ## The law -/

/-- Two bodies that say the same. -/
def SameBodies (int : NumberToken → Option Int) (body body' : List Char) : Prop :=
  ∃ v w, parseJson body = some v ∧ parseJson body' = some w ∧ Same int v w

/-- The order of a body at a time, with or without the gate of the period. -/
def orderOfBody (int : NumberToken → Option Int) (now : Int) (enforce : Bool) (body : List Char) :
    Option (OrderOf JsText) :=
  (parseJson body).bind (normalizeOrderEventInternal int now enforce)

/-- Bodies that say the same have one order and one digest at all times at which both are
accepted, so the event of the first is no conflict for the second; and different orders have
different digest inputs. -/
theorem redelivered_orders_are_stable (int : NumberToken → Option Int) (sha256 : Bytes → Bytes)
    {body body' : List Char} {now now' : Int} {enforce enforce' : Bool} {o o' : OrderOf JsText}
    (ho : orderOfBody int now enforce body = some o)
    (ho' : orderOfBody int now' enforce' body' = some o') :
    (SameBodies int body body' → o = o' ∧ payloadDigest sha256 o = payloadDigest sha256 o' ∧
      ∀ row, row.payload_digest = payloadDigest sha256 o →
        replayOf (some row) (payloadDigest sha256 o') ≠ .event_id_conflict) ∧
    (o ≠ o' → stableStringify (orderTree o) ≠ stableStringify (orderTree o')) := by
  obtain ⟨v, hv, hnormal⟩ := Option.bind_eq_some_iff.mp ho
  obtain ⟨w, hw, hnormal'⟩ := Option.bind_eq_some_iff.mp ho'
  constructor
  · rintro ⟨v', w', hv', hw', hsame⟩
    rw [hv] at hv'
    rw [hw] at hw'
    obtain rfl := Option.some.inj hv'
    obtain rfl := Option.some.inj hw'
    obtain rfl := normalize_eq hsame hnormal hnormal'
    refine ⟨rfl, rfl, fun row hrow => ?_⟩
    unfold replayOf
    simp only [hrow, ne_eq, not_true_eq_false, if_false]
    split
    · decide
    · decide
  · intro hne htext
    apply hne
    exact eq_of_orderTree (inRange_of_normalize hnormal) (inRange_of_normalize hnormal')
      (stringify_tree_injective htext)

end

/-! ## A redelivery -/

/-- The integer of a token of digits. -/
def exampleInt (n : NumberToken) : Option Int :=
  if n.val.all Char.isDigit then some (Nat.ofDigitChars 10 n.val 0) else none

def exampleDelivery : List Char :=
  ("\x7b\"event_id\":\"e1\",\"subscription_id\":\"s1\",\"project\":\"DEMO\"," ++
    "\"intent\":\"subscription.renewed\",\"seq\":1,\"customer\":\x7b\"id\":\"c1\"\x7d\x7d").toList

/-- The same in another order, with white space, an escape and null. -/
def exampleRedelivery : List Char :=
  ("\x7b \"seq\": 1, \"event_id\": \"\\u00651\", \"subscription_id\": \"s1\", \"feature\": null, " ++
    "\"customer\": \x7b\"email\": null, \"id\": \"c1\"\x7d, \"project\": \"DEMO\", " ++
    "\"intent\": \"subscription.renewed\"\x7d").toList

def exampleText (s : String) : Json.Tree := .string (ofChars s.toList)

def exampleMembers : Members := [
  (ofChars "event_id".toList, exampleText "e1"),
  (ofChars "subscription_id".toList, exampleText "s1"),
  (ofChars "project".toList, exampleText "DEMO"),
  (ofChars "intent".toList, exampleText "subscription.renewed"),
  (ofChars "seq".toList, .number ⟨['1'], rfl⟩),
  (ofChars "customer".toList, .object [(ofChars "id".toList, exampleText "c1")])]

def exampleRedelivered : Members := [
  (ofChars "seq".toList, .number ⟨['1'], rfl⟩),
  (ofChars "event_id".toList, exampleText "e1"),
  (ofChars "subscription_id".toList, exampleText "s1"),
  (ofChars "feature".toList, .null),
  (ofChars "customer".toList, .object [
    (ofChars "email".toList, .null),
    (ofChars "id".toList, exampleText "c1")]),
  (ofChars "project".toList, exampleText "DEMO"),
  (ofChars "intent".toList, exampleText "subscription.renewed")]

/-- A text is parsed when its value has the text of another one. -/
theorem parseJson_eq_some {body : List Char} {v : Json.Tree}
    (h : (parseJson body).map JsonValue.stringify = some v.stringify) : parseJson body = some v := by
  obtain ⟨w, hw, htext⟩ := Option.map_eq_some_iff.mp h
  rw [hw, stringify_tree_injective htext]

/-- Objects whose members of some names are the same, and that have no others. -/
theorem sameMembers_of_names {int : NumberToken → Option Int} {l l' : Members} {names : List String}
    (hl : hasOnlyFields l names = true) (hl' : hasOnlyFields l' names = true)
    (h : ∀ name ∈ names, Option.Rel (Same int) (valueOf name l) (valueOf name l')) :
    SameMembers int l l' := by
  have hnone : ∀ {l : Members} {name : String}, hasOnlyFields l names = true → name ∉ names →
      valueOf name l = none := by
    intro l name hl hname
    have hmember : memberOf name l = none := by
      unfold memberOf
      rw [Option.map_eq_none_iff, List.find?_eq_none]
      intro m hm heq
      obtain ⟨field, hfield, hmf⟩ := List.any_eq_true.mp (List.all_eq_true.mp hl m (List.mem_reverse.mp hm))
      have hchars : ofChars name.toList = ofChars field.toList :=
        (of_decide_eq_true heq).symm.trans (of_decide_eq_true hmf)
      rw [String.ext (ofChars_injective hchars)] at hname
      exact hname hfield
    unfold valueOf
    rw [hmember]
    rfl
  intro name
  by_cases hname : name ∈ names
  · exact h name hname
  · rw [hnone hl hname, hnone hl' hname]
    exact .none

/-- Members with one text are the same. -/
theorem rel_of_text {int : NumberToken → Option Int} {x y : Option Json.Tree}
    (h : x.map JsonValue.stringify = y.map JsonValue.stringify) : Option.Rel (Same int) x y := by
  cases x with
  | none =>
    cases y with
    | none => exact .none
    | some w => cases h
  | some v =>
    cases y with
    | none => cases h
    | some w =>
      rw [stringify_tree_injective (Option.some.inj h)]
      exact .some (.refl w)

theorem sameBodies_example : SameBodies exampleInt exampleDelivery exampleRedelivery := by
  refine ⟨.object exampleMembers, .object exampleRedelivered, ?_, ?_, ?_⟩
  · apply parseJson_eq_some
    decide +kernel
  · apply parseJson_eq_some
    decide +kernel
  · apply Same.object
    apply @sameMembers_of_names _ _ _ ORDER_FIELDS
    · decide +kernel
    · decide +kernel
    · have htext : ∀ name ∈ ORDER_FIELDS, name = "customer" ∨
          (valueOf name exampleMembers).map JsonValue.stringify =
            (valueOf name exampleRedelivered).map JsonValue.stringify := by decide +kernel
      intro name hname
      rcases htext name hname with rfl | h
      · have hcustomer : ∀ name ∈ CUSTOMER_FIELDS,
            (valueOf name [(ofChars "id".toList, exampleText "c1")]).map JsonValue.stringify =
              (valueOf name [(ofChars "email".toList, .null),
                (ofChars "id".toList, exampleText "c1")]).map JsonValue.stringify := by decide +kernel
        refine .some (.object (@sameMembers_of_names _ _ _ CUSTOMER_FIELDS ?_ ?_ ?_))
        · decide +kernel
        · decide +kernel
        · intro name hname
          exact rel_of_text (hcustomer name hname)
      · exact rel_of_text h

/-- A redelivery is stable. -/
theorem a_redelivery_is_stable :
    ∃ o o', orderOfBody exampleInt 1000 true exampleDelivery = some o ∧
      orderOfBody exampleInt 2000 false exampleRedelivery = some o' ∧
      o = o' ∧ payloadDigest (fun bytes => bytes) o = payloadDigest (fun bytes => bytes) o' := by
  have hsome : (orderOfBody exampleInt 1000 true exampleDelivery).isSome := by decide +kernel
  have hsome' : (orderOfBody exampleInt 2000 false exampleRedelivery).isSome := by decide +kernel
  obtain ⟨o, ho⟩ := Option.isSome_iff_exists.mp hsome
  obtain ⟨o', ho'⟩ := Option.isSome_iff_exists.mp hsome'
  have h := (redelivered_orders_are_stable exampleInt (fun bytes => bytes) ho ho').1 sameBodies_example
  exact ⟨o, o', ho, ho', h.1, h.2.1⟩

end Licensecc.Orders
