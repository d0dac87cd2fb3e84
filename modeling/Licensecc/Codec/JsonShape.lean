-- The shape of JSON values: how deep they nest, what holds of each value in them, which
-- texts have a lone surrogate, and which numbers are written in their one spelling.
import Licensecc.Codec.JsonValue

namespace Licensecc.Codec

/-! ## Texts and numbers -/

/-- No surrogate of the text stands alone. -/
def Whole (text : JsText) : Prop := ∀ u, .lone u ∉ codePoints text

/-- A number in its one spelling, up to 2^53 - 1. -/
def SafeNumeral (token : List Char) : Prop :=
  isNumeral token = true ∧ Nat.ofDigitChars 10 token 0 ≤ 2 ^ 53 - 1

/-- A text is given back by its characters when no surrogate stands alone. -/
theorem ofChars_scalars_iff {text : JsText} : ofChars (scalars text) = text ↔ Whole text := by
  constructor
  · intro h u hu
    rw [← h, codePoints_ofChars, List.mem_map] at hu
    obtain ⟨c, -, hc⟩ := hu
    cases hc
  · intro h
    unfold ofChars scalars
    rw [List.flatMap_map]
    conv => rhs; rw [← units_codePoints text]
    apply List.flatMap_congr
    intro p hp
    cases p with
    | char c => rfl
    | lone u => exact absurd hp (h u)

/-- The characters of a text, character by character. -/
theorem chars?_units (c : Char) (t : JsText) :
    chars? ((CodePoint.char c).units ++ t) = (chars? t).map (c :: ·) := by
  unfold chars?
  rw [codePoints_units, List.mapM_cons]
  simp only [CodePoint.char?]
  cases (codePoints t).mapM CodePoint.char? with
  | none => rfl
  | some s => rfl

theorem chars?_single {u : UInt16} (hh : isHigh u = false) (hl : isLow u = false) (t : JsText) :
    chars? (u :: t) = (chars? t).map (Char.ofNat u.toNat :: ·) := by
  have hu : u :: t = (CodePoint.char (Char.ofNat u.toNat)).units ++ t := by
    have h := units_single u
    unfold single at h
    rw [hh, hl, Bool.or_self, if_neg Bool.false_ne_true] at h
    rw [h]
    rfl
  rw [hu, chars?_units]

theorem chars?_pair {u v : UInt16} (hu : isHigh u = true) (hv : isLow v = true) (t : JsText) :
    chars? (u :: v :: t) = (chars? t).map (pairChar u v :: ·) := by
  have hpair : u :: v :: t = (CodePoint.char (pairChar u v)).units ++ t := by
    rw [units_pair hu hv]
    rfl
  rw [hpair, chars?_units]

theorem chars?_lone {u : UInt16} {t : JsText} {l : List CodePoint}
    (h : codePoints (u :: t) = .lone u :: l) : chars? (u :: t) = none := by
  unfold chars?
  rw [h, List.mapM_cons]
  rfl

theorem chars?_low {u : UInt16} (h : isLow u = true) (t : JsText) : chars? (u :: t) = none := by
  have hh : isHigh u = false := by
    unfold isLow at h
    unfold isHigh
    simp only [Bool.and_eq_true, decide_eq_true_eq] at h
    simp only [Bool.and_eq_false_iff, decide_eq_false_iff_not]
    omega
  have hpoints := codePoints_cons hh t
  unfold single at hpoints
  rw [h, Bool.or_true, if_pos rfl] at hpoints
  exact chars?_lone hpoints

theorem chars?_high {u : UInt16} (h : isHigh u = true) {t : JsText}
    (ht : ∀ v ∈ t.head?, isLow v = false) : chars? (u :: t) = none := by
  have hsingle : single u = .lone u := by
    unfold single
    rw [h, Bool.true_or, if_pos rfl]
  cases t with
  | nil =>
    apply chars?_lone
    rw [codePoints, hsingle]
  | cons v t =>
    apply chars?_lone
    rw [codePoints, ht v rfl, Bool.and_false, if_neg Bool.false_ne_true, hsingle]

/-- A text without lone surrogates is the text of its characters. -/
theorem chars?_eq_some {t : JsText} {s : List Char} : chars? t = some s ↔ t = ofChars s := by
  constructor
  · intro h
    have hpoints : codePoints t = s.map .char := by
      unfold chars? at h
      generalize codePoints t = l at h
      induction l generalizing s with
      | nil =>
        obtain rfl := Option.some.inj h
        rfl
      | cons p l ih =>
        rw [List.mapM_cons] at h
        cases p with
        | lone u => cases h
        | char c =>
          cases hl : l.mapM CodePoint.char? with
          | none =>
            rw [hl] at h
            cases h
          | some s' =>
            rw [hl] at h
            obtain rfl := Option.some.inj h
            rw [ih hl]
            rfl
    rw [← codePoints_ofChars] at hpoints
    exact codePoints_injective hpoints
  · rintro rfl
    exact chars?_ofChars s

theorem whole_ofChars (s : List Char) : Whole (ofChars s) := by
  intro u hu
  rw [codePoints_ofChars, List.mem_map] at hu
  obtain ⟨c, -, hc⟩ := hu
  cases hc

theorem encode_ofChars (s : List Char) : encode (ofChars s) = utf8 s := by
  unfold encode scalars
  rw [codePoints_ofChars, List.map_map]
  apply congrArg utf8
  exact List.map_id s

/-- Two texts without lone surrogates are told apart by what they are encoded to. -/
theorem encode_injective {s t : JsText} (hs : Whole s) (ht : Whole t) (h : encode s = encode t) :
    s = t := by
  rw [← ofChars_scalars_iff.mpr hs, utf8_injective h, ofChars_scalars_iff.mpr ht]

variable {ν : Type}

mutual

/-- How many arrays and objects stand around the innermost value. -/
def JsonValue.depth : JsonValue ν → Nat
  | .null => 0
  | .bool _ => 0
  | .number _ => 0
  | .string _ => 0
  | .array l => depthItems l + 1
  | .object members => depthMembers members + 1

def depthItems : List (JsonValue ν) → Nat
  | [] => 0
  | x :: l => max x.depth (depthItems l)

def depthMembers : List (JsText × JsonValue ν) → Nat
  | [] => 0
  | (_, v) :: l => max v.depth (depthMembers l)

end

/-- A value is in another one. -/
inductive Within : JsonValue ν → JsonValue ν → Prop
  | self (v : JsonValue ν) : Within v v
  | item {x u : JsonValue ν} {l : List (JsonValue ν)} : x ∈ l → Within x u → Within (.array l) u
  | field {m : JsText × JsonValue ν} {u : JsonValue ν} {members : List (JsText × JsonValue ν)} :
      m ∈ members → Within m.2 u → Within (.object members) u

/-- A property of each value in a value. -/
def Everywhere (P : JsonValue ν → Prop) (v : JsonValue ν) : Prop := ∀ u, Within v u → P u

/-! ## Depth -/

theorem depthItems_le {l : List (JsonValue ν)} {n : Nat} :
    depthItems l ≤ n ↔ ∀ x ∈ l, x.depth ≤ n := by
  induction l with
  | nil => simp [depthItems]
  | cons x l ih => rw [depthItems, Nat.max_le, ih, List.forall_mem_cons]

theorem depthMembers_le {members : List (JsText × JsonValue ν)} {n : Nat} :
    depthMembers members ≤ n ↔ ∀ m ∈ members, m.2.depth ≤ n := by
  induction members with
  | nil => simp [depthMembers]
  | cons m l ih =>
    obtain ⟨name, v⟩ := m
    rw [depthMembers, Nat.max_le, ih, List.forall_mem_cons]

/-- An array within some depth has items within one less. -/
theorem depth_array {l : List (JsonValue ν)} {d n : Nat} :
    d + (JsonValue.array l).depth ≤ n ↔ d + 1 ≤ n ∧ ∀ x ∈ l, d + 1 + x.depth ≤ n := by
  have hle : ∀ k, depthItems l ≤ k ↔ ∀ x ∈ l, x.depth ≤ k := fun k => depthItems_le
  rw [JsonValue.depth]
  constructor
  · intro h
    have hall := (hle (n - d - 1)).mp (by omega)
    refine ⟨by omega, fun x hx => ?_⟩
    have := hall x hx
    omega
  · rintro ⟨hd, h⟩
    have hall := (hle (n - d - 1)).mpr fun x hx => by
      have := h x hx
      omega
    omega

theorem depth_object {members : List (JsText × JsonValue ν)} {d n : Nat} :
    d + (JsonValue.object members).depth ≤ n ↔
      d + 1 ≤ n ∧ ∀ m ∈ members, d + 1 + m.2.depth ≤ n := by
  have hle : ∀ k, depthMembers members ≤ k ↔ ∀ m ∈ members, m.2.depth ≤ k :=
    fun k => depthMembers_le
  rw [JsonValue.depth]
  constructor
  · intro h
    have hall := (hle (n - d - 1)).mp (by omega)
    refine ⟨by omega, fun m hm => ?_⟩
    have := hall m hm
    omega
  · rintro ⟨hd, h⟩
    have hall := (hle (n - d - 1)).mpr fun m hm => by
      have := h m hm
      omega
    omega

/-! ## Each value in a value -/

variable {P : JsonValue ν → Prop}

theorem everywhere_scalar {v : JsonValue ν} (hv : ∀ u, Within v u → u = v) :
    Everywhere P v ↔ P v := by
  constructor
  · intro h
    exact h v (.self v)
  · intro h u hu
    rw [hv u hu]
    exact h

theorem everywhere_null : Everywhere P (.null : JsonValue ν) ↔ P .null :=
  everywhere_scalar fun _ h => by cases h; rfl

theorem everywhere_bool {b : Bool} : Everywhere P (.bool b : JsonValue ν) ↔ P (.bool b) :=
  everywhere_scalar fun _ h => by cases h; rfl

theorem everywhere_number {n : ν} : Everywhere P (.number n) ↔ P (.number n) :=
  everywhere_scalar fun _ h => by cases h; rfl

theorem everywhere_string {s : JsText} :
    Everywhere P (.string s : JsonValue ν) ↔ P (.string s) :=
  everywhere_scalar fun _ h => by cases h; rfl

theorem everywhere_array {l : List (JsonValue ν)} :
    Everywhere P (.array l) ↔ P (.array l) ∧ ∀ x ∈ l, Everywhere P x := by
  constructor
  · intro h
    exact ⟨h _ (.self _), fun x hx u hu => h u (.item hx hu)⟩
  · rintro ⟨hself, hitems⟩ u hu
    cases hu with
    | self => exact hself
    | item hx hu => exact hitems _ hx u hu

theorem everywhere_object {members : List (JsText × JsonValue ν)} :
    Everywhere P (.object members) ↔ P (.object members) ∧ ∀ m ∈ members, Everywhere P m.2 := by
  constructor
  · intro h
    exact ⟨h _ (.self _), fun m hm u hu => h u (.field hm hu)⟩
  · rintro ⟨hself, hmembers⟩ u hu
    cases hu with
    | self => exact hself
    | field hm hu => exact hmembers _ hm u hu

end Licensecc.Codec
