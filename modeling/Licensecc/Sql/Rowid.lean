-- Tables that number their rows. Such a table keeps its rows in the order of their
-- ids, a new row gets the highest id, and the rows of a range are a part of the list.
import Mathlib.Algebra.Order.Group.Int
import Mathlib.Data.List.Pairwise
import Mathlib.Tactic.Common

namespace Licensecc.Sql

/-- A row with an `INTEGER PRIMARY KEY`. -/
class Rowid (ρ : Type) where
  rowid : ρ → Int

export Rowid (rowid)

/-- A table in the order of its ids. -/
@[ext] structure RowidTable (ρ : Type) [Rowid ρ] where
  rows : List ρ
  sorted : rows.Pairwise fun a b => rowid a < rowid b

namespace RowidTable

variable {ρ : Type} [Rowid ρ] {t t' : RowidTable ρ} {r row : ρ} {lo mid hi : Int}

instance : Membership ρ (RowidTable ρ) := ⟨fun t r => r ∈ t.rows⟩

theorem mem_def : r ∈ t ↔ r ∈ t.rows := Iff.rfl

def empty : RowidTable ρ := ⟨[], .nil⟩

instance : Inhabited (RowidTable ρ) := ⟨empty⟩

@[simp] theorem not_mem_empty : ¬ r ∈ (empty : RowidTable ρ) := by
  simp [mem_def, empty]

/-- An id names one row. -/
theorem unique {a b : ρ} (ha : a ∈ t) (hb : b ∈ t) (h : rowid a = rowid b) : a = b := by
  by_contra hne
  rcases List.pairwise_iff_getElem.mp t.sorted with hsorted
  obtain ⟨i, hi, rfl⟩ := List.getElem_of_mem (mem_def.mp ha)
  obtain ⟨j, hj, rfl⟩ := List.getElem_of_mem (mem_def.mp hb)
  rcases Nat.lt_trichotomy i j with hlt | rfl | hlt
  · have := hsorted i j hi hj hlt
    omega
  · exact hne rfl
  · have := hsorted j i hj hi hlt
    omega

/-- A row with an id above all ids of the table. -/
def Next (t : RowidTable ρ) (row : ρ) : Prop := ∀ r ∈ t, rowid r < rowid row

instance (t : RowidTable ρ) (row : ρ) : Decidable (t.Next row) :=
  inferInstanceAs (Decidable (∀ r ∈ t.rows, rowid r < rowid row))

/-- `INSERT` with a new id. -/
def append (t : RowidTable ρ) (row : ρ) (h : t.Next row) : RowidTable ρ where
  rows := t.rows ++ [row]
  sorted := List.pairwise_append.mpr ⟨t.sorted, List.pairwise_singleton _ _, fun a ha b hb => by
    rw [List.mem_singleton.mp hb]
    exact h a ha⟩

theorem mem_append {h : t.Next row} : r ∈ t.append row h ↔ r ∈ t ∨ r = row := by
  simp [mem_def, append]

/-- The rows of a table after other rows were appended. -/
def Extends (t t' : RowidTable ρ) : Prop := ∃ l, t'.rows = t.rows ++ l

theorem Extends.refl (t : RowidTable ρ) : t.Extends t := ⟨[], by simp⟩

theorem Extends.trans {t'' : RowidTable ρ} (h : t.Extends t') (h' : t'.Extends t'') :
    t.Extends t'' := by
  obtain ⟨l, hl⟩ := h
  obtain ⟨l', hl'⟩ := h'
  exact ⟨l ++ l', by rw [hl', hl, List.append_assoc]⟩

theorem Extends.append (h : t.Next row) : t.Extends (t.append row h) := ⟨[row], rfl⟩

theorem Extends.mem (h : t.Extends t') (hr : r ∈ t) : r ∈ t' := by
  obtain ⟨l, hl⟩ := h
  rw [mem_def, hl]
  exact List.mem_append_left _ hr

/-- A new row has an id above those of all rows that were there. -/
theorem Extends.above (h : t.Extends t') (hr : r ∈ t') (hnew : ¬ r ∈ t) {a : ρ} (ha : a ∈ t) :
    rowid a < rowid r := by
  obtain ⟨l, hl⟩ := h
  have hsorted := t'.sorted
  rw [hl] at hsorted
  rw [mem_def, hl] at hr
  rcases List.mem_append.mp hr with hr | hr
  · exact absurd hr hnew
  · exact (List.pairwise_append.mp hsorted).2.2 a ha r hr

/-- `UPDATE` of columns other than the id. -/
def modify (t : RowidTable ρ) (set : ρ → ρ) (h : ∀ r, rowid (set r) = rowid r) : RowidTable ρ where
  rows := t.rows.map set
  sorted := List.pairwise_map.mpr (t.sorted.imp fun hlt => by rwa [h, h])

theorem mem_modify {set : ρ → ρ} {h : ∀ r, rowid (set r) = rowid r} :
    r ∈ t.modify set h ↔ ∃ a ∈ t, set a = r := by
  simp [mem_def, modify]

/-! ## Ranges -/

/-- The rows with an id above the first bound and up to the second. -/
def between (lo hi : Int) (t : RowidTable ρ) : List ρ :=
  t.rows.filter fun r => lo < rowid r ∧ rowid r ≤ hi

/-- The rows with an id above a bound. -/
def above (lo : Int) (t : RowidTable ρ) : List ρ := t.rows.filter fun r => lo < rowid r

theorem mem_between : r ∈ t.between lo hi ↔ r ∈ t ∧ lo < rowid r ∧ rowid r ≤ hi := by
  simp [between, mem_def]

theorem mem_above : r ∈ t.above lo ↔ r ∈ t ∧ lo < rowid r := by
  simp [above, mem_def]

@[simp] theorem between_self : t.between lo lo = [] := by
  refine List.filter_eq_nil_iff.mpr fun r _ => ?_
  simp only [decide_eq_true_eq, not_and, not_le]
  exact id

/-- A range in two parts. -/
theorem between_append (h : lo ≤ mid) (h' : mid ≤ hi) :
    t.between lo hi = t.between lo mid ++ t.between mid hi := by
  obtain ⟨rows, hsorted⟩ := t
  unfold between
  induction rows with
  | nil => rfl
  | cons r rest ih =>
    obtain ⟨hall, hsorted⟩ := List.pairwise_cons.mp hsorted
    have hrest := ih hsorted
    by_cases h1 : rowid r ≤ mid
    · have hnot : ¬ (mid < rowid r ∧ rowid r ≤ hi) := by omega
      have hsame : (lo < rowid r ∧ rowid r ≤ hi) ↔ (lo < rowid r ∧ rowid r ≤ mid) := by omega
      simp only [List.filter_cons, hnot, hsame, hrest, decide_false, Bool.false_eq_true, if_false]
      by_cases h2 : lo < rowid r ∧ rowid r ≤ mid
      · simp only [h2, and_self, decide_true, if_true, List.cons_append]
      · simp only [h2, decide_false, Bool.false_eq_true, if_false]
    · -- The row is above the first part, and so are all rows after it.
      have hnone : rest.filter (fun r => lo < rowid r ∧ rowid r ≤ mid) = [] := by
        refine List.filter_eq_nil_iff.mpr fun a ha => ?_
        have hlt := hall a ha
        simp only [decide_eq_true_eq]
        omega
      have hnot : ¬ (lo < rowid r ∧ rowid r ≤ mid) := by omega
      have hsame : (lo < rowid r ∧ rowid r ≤ hi) ↔ (mid < rowid r ∧ rowid r ≤ hi) := by omega
      rw [hnone, List.nil_append] at hrest
      simp only [List.filter_cons, hnot, hsame, hnone, hrest, decide_false, Bool.false_eq_true,
        if_false, List.nil_append]

theorem sorted_above (lo : Int) (t : RowidTable ρ) :
    (t.above lo).Pairwise fun a b => rowid a < rowid b := t.sorted.filter _

/-- The rows of a range stay when rows are appended above it. -/
theorem Extends.between (h : t.Extends t') (hmax : ∀ r ∈ t', ¬ r ∈ t → hi < rowid r) :
    t'.between lo hi = t.between lo hi := by
  obtain ⟨l, hl⟩ := h
  unfold RowidTable.between
  rw [hl, List.filter_append]
  have hnone : l.filter (fun r => lo < rowid r ∧ rowid r ≤ hi) = [] := by
    refine List.filter_eq_nil_iff.mpr fun r hr => ?_
    have hin : r ∈ t' := by
      rw [mem_def, hl]
      exact List.mem_append_right _ hr
    have hnot : ¬ r ∈ t := by
      intro hmem
      have hsorted := t'.sorted
      rw [hl] at hsorted
      exact absurd ((List.pairwise_append.mp hsorted).2.2 r hmem r hr) (lt_irrefl _)
    have := hmax r hin hnot
    simp only [decide_eq_true_eq, not_and, not_le]
    exact fun _ => this
  rw [hnone, List.append_nil]

/-- The first rows above a bound are those up to the id of the last of them. -/
theorem between_of_take {n : Nat} {last : ρ} (h : ((t.above lo).take n).getLast? = some last) :
    t.between lo (rowid last) = (t.above lo).take n := by
  have hsorted := sorted_above lo t
  rw [← List.take_append_drop n (t.above lo)] at hsorted
  obtain ⟨hfirst, -, hcross⟩ := List.pairwise_append.mp hsorted
  have hfilter : t.between lo (rowid last) = (t.above lo).filter fun r => rowid r ≤ rowid last := by
    unfold RowidTable.between above
    rw [List.filter_filter]
    refine List.filter_congr fun r _ => ?_
    simp [and_comm]
  have hlast : last ∈ (t.above lo).take n := List.mem_of_getLast? h
  have hall : ∀ r ∈ (t.above lo).take n, rowid r ≤ rowid last := by
    intro r hr
    obtain ⟨l, hl⟩ := List.getLast?_eq_some_iff.mp h
    rw [hl] at hr hfirst
    rcases List.mem_append.mp hr with hr | hr
    · exact ((List.pairwise_append.mp hfirst).2.2 r hr last List.mem_cons_self).le
    · rw [List.mem_singleton.mp hr]
  have h1 : ((t.above lo).take n).filter (fun r => rowid r ≤ rowid last) = (t.above lo).take n :=
    List.filter_eq_self.mpr fun r hr => decide_eq_true (hall r hr)
  have h2 : ((t.above lo).drop n).filter (fun r => rowid r ≤ rowid last) = [] := by
    refine List.filter_eq_nil_iff.mpr fun r hr => ?_
    have := hcross last hlast r hr
    simp only [decide_eq_true_eq, not_le]
    exact this
  rw [hfilter]
  calc (t.above lo).filter (fun r => rowid r ≤ rowid last)
      = ((t.above lo).take n ++ (t.above lo).drop n).filter fun r => rowid r ≤ rowid last := by
        rw [List.take_append_drop]
    _ = (t.above lo).take n := by rw [List.filter_append, h1, h2, List.append_nil]

end RowidTable

end Licensecc.Sql
