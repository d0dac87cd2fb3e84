-- The truth values of SQL, with NULL for unknown. A condition selects a row
-- only when it is true, so the laws say when each operator is true.
import Licensecc.Sql.Table
import Mathlib.Data.List.TakeWhile

namespace Licensecc.Sql

/-- A truth value: none is NULL. -/
abbrev Truth := Option Bool

namespace Truth

def and : Truth → Truth → Truth
  | some true, b => b
  | some false, _ => some false
  | none, some false => some false
  | none, _ => none

def or : Truth → Truth → Truth
  | some false, b => b
  | some true, _ => some true
  | none, some true => some true
  | none, _ => none

def not (a : Truth) : Truth := a.map Bool.not

/-- A test of a value: NULL when the value is NULL. -/
def test {α : Type} (p : α → Prop) [DecidablePred p] (a : Option α) : Truth :=
  a.map fun x => decide (p x)

/-- A test of two values: NULL when one of them is NULL. -/
def test₂ {α β : Type} (p : α → β → Prop) [∀ x y, Decidable (p x y)] (a : Option α)
    (b : Option β) : Truth :=
  a.bind fun x => b.map fun y => decide (p x y)

def eq {α : Type} [DecidableEq α] (a b : Option α) : Truth := test₂ (· = ·) a b

def le (a b : Option Int) : Truth := test₂ (· ≤ ·) a b

def lt (a b : Option Int) : Truth := test₂ (· < ·) a b

def between (a low high : Option Int) : Truth := and (le low a) (le a high)

/-- `IN` with a list of values that has no NULL. -/
def isIn {α : Type} [DecidableEq α] (a : Option α) (l : List α) : Truth := test (· ∈ l) a

/-- `IS NULL`, which is never NULL. -/
def isNull {α : Type} (a : Option α) : Truth := some (decide (a.isNone = true))

/-- `typeof(x)='integer'` for a column that holds integers or NULL. -/
def isInteger (a : Option Int) : Truth := some (decide (a.isSome = true))

end Truth

/-! ## Values -/

def add (a b : Option Int) : Option Int := a.bind fun x => b.map fun y => x + y

def sub (a b : Option Int) : Option Int := a.bind fun x => b.map fun y => x - y

def coalesce {α : Type} (a b : Option α) : Option α := a.orElse fun _ => b

@[simp] theorem add_some (x y : Int) : add (some x) (some y) = some (x + y) := rfl

@[simp] theorem sub_some (x y : Int) : sub (some x) (some y) = some (x - y) := rfl

@[simp] theorem coalesce_some {α : Type} (a : Option α) (x : α) :
    coalesce a (some x) = some (a.getD x) := by
  cases a <;> rfl

/-- `length`: the characters of a text before its first NUL. -/
def length (value : String) : Nat := (value.toList.takeWhile (· ≠ '\x00')).length

/-- `length(CAST(x AS BLOB))`: the bytes of a text in UTF-8. -/
def blobLength (value : String) : Nat :=
  value.toList.foldr (fun c bytes => c.utf8Size + bytes) 0

theorem length_le (value : String) : length value ≤ value.toList.length :=
  (List.takeWhile_prefix _).length_le

theorem length_eq {value : String} (h : ∀ c ∈ value.toList, c ≠ '\x00') :
    length value = value.toList.length := by
  have hall : value.toList.takeWhile (· ≠ '\x00') = value.toList :=
    List.takeWhile_eq_self_iff.mpr fun c hc => decide_eq_true (h c hc)
  rw [length, hall]

/-- A text has at least as many bytes as characters. -/
theorem le_blobLength (value : String) : value.toList.length ≤ blobLength value := by
  unfold blobLength
  induction value.toList with
  | nil => exact Nat.le_refl 0
  | cons c l ih =>
    have hc := Char.utf8Size_pos c
    simp only [List.length_cons, List.foldr_cons]
    omega

/-- A text of ASCII has as many bytes as characters. -/
theorem blobLength_eq {value : String} (h : ∀ c ∈ value.toList, c.utf8Size = 1) :
    blobLength value = value.toList.length := by
  unfold blobLength
  revert h
  induction value.toList with
  | nil => exact fun _ => rfl
  | cons c l ih =>
    intro h
    have hc := h c List.mem_cons_self
    have hl := ih fun d hd => h d (List.mem_cons_of_mem c hd)
    simp only [List.foldr_cons, List.length_cons, hc, hl]
    omega

/-! ## When an operator is true -/

namespace Truth

section
variable {a b : Truth}

@[simp] theorem and_true_iff : and a b = some true ↔ a = some true ∧ b = some true := by
  rcases a with _ | _ | _ <;> rcases b with _ | _ | _ <;> simp [and]

@[simp] theorem or_true_iff : or a b = some true ↔ a = some true ∨ b = some true := by
  rcases a with _ | _ | _ <;> rcases b with _ | _ | _ <;> simp [or]

@[simp] theorem not_true_iff : not a = some true ↔ a = some false := by
  rcases a with _ | _ | _ <;> simp [not]

end

section
variable {α β : Type} {p : α → Prop} [DecidablePred p] {q : α → β → Prop}
  [∀ x y, Decidable (q x y)]

@[simp] theorem test_true_iff {a : Option α} : test p a = some true ↔ ∃ x ∈ a, p x := by
  cases a <;> simp [test]

@[simp] theorem test_false_iff {a : Option α} : test p a = some false ↔ ∃ x ∈ a, ¬ p x := by
  cases a <;> simp [test]

@[simp] theorem test₂_true_iff {a : Option α} {b : Option β} :
    test₂ q a b = some true ↔ ∃ x ∈ a, ∃ y ∈ b, q x y := by
  cases a <;> cases b <;> simp [test₂]

@[simp] theorem eq_true_iff [DecidableEq α] {a b : Option α} : eq a b = some true ↔ Same a b := by
  unfold eq Same
  rw [test₂_true_iff]
  constructor
  · rintro ⟨x, hx, y, hy, rfl⟩
    exact ⟨x, hx, hy⟩
  · rintro ⟨v, ha, hb⟩
    exact ⟨v, ha, v, hb, rfl⟩

@[simp] theorem le_true_iff {a b : Option Int} : le a b = some true ↔ ∃ x ∈ a, ∃ y ∈ b, x ≤ y :=
  test₂_true_iff

@[simp] theorem lt_true_iff {a b : Option Int} : lt a b = some true ↔ ∃ x ∈ a, ∃ y ∈ b, x < y :=
  test₂_true_iff

@[simp] theorem isIn_true_iff [DecidableEq α] {a : Option α} {l : List α} :
    isIn a l = some true ↔ ∃ x ∈ a, x ∈ l := test_true_iff

@[simp] theorem isNull_true_iff {a : Option α} : isNull a = some true ↔ a = none := by
  cases a <;> simp [isNull]

@[simp] theorem isInteger_true_iff {a : Option Int} : isInteger a = some true ↔ ∃ x, a = some x := by
  cases a <;> simp [isInteger]

end

end Truth

end Licensecc.Sql
