-- The members of JSON objects. A text with the members in the order of their names tells
-- every member, so two objects with one such text have the same members.
import Licensecc.Codec.JsonText
import Mathlib.Data.List.Lex
import Mathlib.Data.List.Sort

namespace Licensecc.Codec

/-! ## Members in order -/

/-- The order of `Array.prototype.sort` on the names. -/
def NameLe (a b : JsText × Json.Tree) : Prop := a.1.map UInt16.toNat ≤ b.1.map UInt16.toNat

instance : DecidableRel NameLe := fun _ _ => inferInstanceAs (Decidable (_ ≤ _))

mutual

/-- A value with the members of every object in the order of their names. -/
def JsonValue.sorted : Json.Tree → Json.Tree
  | .array l => .array (sortedItems l)
  | .object members => .object ((sortedMembers members).insertionSort NameLe)
  | .null => .null
  | .bool b => .bool b
  | .number n => .number n
  | .string s => .string s

def sortedItems : List Json.Tree → List Json.Tree
  | [] => []
  | x :: l => x.sorted :: sortedItems l

def sortedMember : JsText × Json.Tree → JsText × Json.Tree
  | (name, v) => (name, v.sorted)

def sortedMembers : List (JsText × Json.Tree) → List (JsText × Json.Tree)
  | [] => []
  | m :: l => sortedMember m :: sortedMembers l

end

/-- Deterministic JSON: the names of every object are sorted. -/
def stableStringify (v : Json.Tree) : List Char := v.sorted.stringify

theorem mem_sortedMembers {members : List (JsText × Json.Tree)} {m : JsText × Json.Tree} :
    m ∈ sortedMembers members ↔ ∃ v, (m.1, v) ∈ members ∧ m.2 = v.sorted := by
  induction members with
  | nil => simp [sortedMembers]
  | cons x members ih =>
    obtain ⟨name, v⟩ := x
    rw [sortedMembers, sortedMember, List.mem_cons, ih]
    constructor
    · rintro (rfl | ⟨w, hw, heq⟩)
      · exact ⟨v, List.mem_cons_self, rfl⟩
      · exact ⟨w, List.mem_cons_of_mem _ hw, heq⟩
    · rintro ⟨w, hw, heq⟩
      rcases List.mem_cons.mp hw with hhead | htail
      · obtain ⟨hname, rfl⟩ := Prod.mk.inj hhead
        exact .inl (Prod.ext hname heq)
      · exact .inr ⟨w, htail, heq⟩

/-! ## Members that may be left out -/

/-- The members of an object whose undefined ones `JSON.stringify` leaves out. -/
def present (fields : List (String × Option Json.Tree)) : List (JsText × Json.Tree) :=
  fields.filterMap fun f => f.2.map (ofChars f.1.toList, ·)

theorem mem_present {fields : List (String × Option Json.Tree)} {name : String} {v : Json.Tree} :
    (ofChars name.toList, v) ∈ present fields ↔ (name, some v) ∈ fields := by
  unfold present
  rw [List.mem_filterMap]
  constructor
  · rintro ⟨⟨n, value⟩, hf, heq⟩
    obtain ⟨w, rfl, heq⟩ := Option.map_eq_some_iff.mp heq
    obtain ⟨hname, rfl⟩ := Prod.mk.inj heq
    have hn : n = name := String.ext (ofChars_injective hname)
    rw [← hn]
    exact hf
  · intro hf
    exact ⟨(name, some v), hf, rfl⟩

section
variable {fields fields' : List (String × Option Json.Tree)} {name : String}

theorem field_unique (hnodup : (fields.map (·.1)).Nodup) {v w : Option Json.Tree}
    (hv : (name, v) ∈ fields) (hw : (name, w) ∈ fields) : v = w :=
  (Prod.mk.inj (List.inj_on_of_nodup_map hnodup hv hw rfl)).2

/-- A member that one object has the other has too. -/
theorem some_of_sorted_eq (h : (JsonValue.object (present fields)).sorted =
      (JsonValue.object (present fields')).sorted) {v : Json.Tree} (hv : (name, some v) ∈ fields) :
    ∃ w, (name, some w) ∈ fields' ∧ v.sorted = w.sorted := by
  rw [JsonValue.sorted, JsonValue.sorted] at h
  have hmem : (ofChars name.toList, v.sorted) ∈ (sortedMembers (present fields)).insertionSort NameLe := by
    rw [List.mem_insertionSort, mem_sortedMembers]
    exact ⟨v, mem_present.mpr hv, rfl⟩
  rw [JsonValue.object.inj h, List.mem_insertionSort, mem_sortedMembers] at hmem
  obtain ⟨w, hw, heq⟩ := hmem
  exact ⟨w, mem_present.mp hw, heq⟩

/-- Objects of the same names with one sorted value have the same members. -/
theorem fields_of_sorted_eq (hnames : fields.map (·.1) = fields'.map (·.1))
    (hnodup : (fields.map (·.1)).Nodup)
    (h : (JsonValue.object (present fields)).sorted = (JsonValue.object (present fields')).sorted) :
    fields.map (fun f => f.2.map JsonValue.sorted) = fields'.map fun f => f.2.map JsonValue.sorted := by
  have hlength : fields.length = fields'.length := by
    simpa using congrArg List.length hnames
  apply List.ext_getElem
  · simpa using hlength
  · intro i hi hi'
    rw [List.length_map] at hi hi'
    have hname : (fields[i]).1 = (fields'[i]).1 := by
      have := List.getElem_of_eq hnames (by simpa using hi)
      simpa using this
    have hv : ((fields[i]).1, (fields[i]).2) ∈ fields := List.getElem_mem hi
    have hw : ((fields[i]).1, (fields'[i]).2) ∈ fields' := by
      rw [hname]
      exact List.getElem_mem hi'
    rw [List.getElem_map, List.getElem_map]
    cases hleft : (fields[i]).2 with
    | some v =>
      rw [hleft] at hv
      obtain ⟨w, hmem, heq⟩ := some_of_sorted_eq h hv
      rw [field_unique (hnames ▸ hnodup) hw hmem, Option.map_some, Option.map_some, heq]
    | none =>
      rw [hleft] at hv
      cases hright : (fields'[i]).2 with
      | none => rfl
      | some w =>
        rw [hright] at hw
        obtain ⟨v, hmem, -⟩ := some_of_sorted_eq h.symm hw
        cases field_unique hnodup hv hmem

end

end Licensecc.Codec
