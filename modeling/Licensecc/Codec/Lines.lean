-- The laws of lines: a text of lines that each end in the separator is split
-- into exactly these lines, and no other lines give the same text.
import Mathlib.Data.List.Basic
import Mathlib.Tactic.Common

namespace Licensecc.Codec

variable {α : Type} [DecidableEq α] {nl : α}

/-- The text of some lines, each of them with its end. -/
def unlines (nl : α) (ls : List (List α)) : List α := ls.flatMap (· ++ [nl])

/-- The first line of a text, and the text after its end. -/
def takeLine (nl : α) : List α → Option (List α × List α)
  | [] => none
  | c :: s => if c = nl then some ([], s) else (takeLine nl s).map fun r => (c :: r.1, r.2)

omit [DecidableEq α] in
@[simp] theorem unlines_cons (l : List α) (ls : List (List α)) :
    unlines nl (l :: ls) = l ++ nl :: unlines nl ls := by
  simp [unlines]

theorem takeLine_eq_some {s l r : List α} :
    takeLine nl s = some (l, r) ↔ nl ∉ l ∧ s = l ++ nl :: r := by
  induction s generalizing l with
  | nil => simp [takeLine]
  | cons c s ih =>
    unfold takeLine
    by_cases hc : c = nl
    · rw [if_pos hc]
      subst hc
      constructor
      · rintro ⟨⟩
        simp
      · rintro ⟨hnl, hs⟩
        cases l with
        | nil => simpa using hs
        | cons d l =>
          obtain ⟨rfl, -⟩ := List.cons.inj hs
          exact absurd List.mem_cons_self hnl
    · rw [if_neg hc, Option.map_eq_some_iff]
      constructor
      · rintro ⟨⟨l', r'⟩, h, he⟩
        obtain ⟨rfl, rfl⟩ := Prod.mk.inj he
        obtain ⟨hnl, rfl⟩ := ih.mp h
        exact ⟨by simp [hnl, Ne.symm hc], rfl⟩
      · rintro ⟨hnl, hs⟩
        cases l with
        | nil => exact absurd (List.cons.inj hs).1 hc
        | cons d l =>
          obtain ⟨rfl, ht⟩ := List.cons.inj (hs.trans (List.cons_append ..))
          exact ⟨(l, r), ih.mpr ⟨fun h => hnl (List.mem_cons_of_mem _ h), ht⟩, rfl⟩

/-- No part of a split has the separator. -/
theorem not_mem_of_mem_splitOn {s l : List α} (h : l ∈ s.splitOn nl) : nl ∉ l := by
  induction s generalizing l with
  | nil =>
    rw [List.splitOn_nil, List.mem_singleton] at h
    simp [h]
  | cons c s ih =>
    rw [List.splitOn_cons_eq_if_modifyHead] at h
    by_cases hc : c = nl
    · rw [if_pos (beq_iff_eq.mpr hc)] at h
      rcases List.mem_cons.mp h with rfl | h
      · simp
      · exact ih h
    · rw [if_neg (by simpa using hc)] at h
      obtain ⟨m, ms, hm⟩ := List.exists_cons_of_ne_nil (List.splitOn_ne_nil nl s)
      rw [hm] at h ih
      rcases List.mem_cons.mp h with rfl | h
      · have hml := ih List.mem_cons_self
        simp [hml, Ne.symm hc]
      · exact ih (List.mem_cons_of_mem _ h)

omit [DecidableEq α] in
theorem intercalate_lines (ls : List (List α)) :
    List.intercalate [nl] (ls ++ [[]]) = unlines nl ls := by
  induction ls with
  | nil => rfl
  | cons l ls ih =>
    obtain ⟨m, ms, hm⟩ := List.exists_cons_of_ne_nil (l := ls ++ [[]]) (by simp)
    rw [hm] at ih
    rw [List.cons_append, hm, unlines_cons, List.intercalate_cons_cons, ih, List.append_assoc]
    rfl

omit [DecidableEq α] in
theorem intercalate_end {ls : List (List α)} (h : ls ≠ []) :
    List.intercalate [nl] ls ++ [nl] = unlines nl ls := by
  induction ls with
  | nil => exact absurd rfl h
  | cons l ls ih =>
    cases ls with
    | nil => simp [unlines]
    | cons m ls =>
      rw [List.intercalate_cons_cons, unlines_cons, List.append_assoc, ih (by simp),
        List.append_assoc]
      rfl

/-- A text is split into some lines and an empty rest exactly when it is the text
of these lines. -/
theorem splitOn_eq_lines {s : List α} {ls : List (List α)} :
    s.splitOn nl = ls ++ [[]] ↔ (∀ l ∈ ls, nl ∉ l) ∧ s = unlines nl ls := by
  constructor
  · intro h
    refine ⟨fun l hl => ?_, ?_⟩
    · exact not_mem_of_mem_splitOn (h ▸ List.mem_append_left _ hl)
    · rw [← intercalate_lines, ← h, List.intercalate_splitOn]
  · rintro ⟨hnl, rfl⟩
    rw [← intercalate_lines, List.splitOn_intercalate _ ?_ (by simp)]
    intro l hl
    rcases List.mem_append.mp hl with hl | hl
    · exact hnl l hl
    · simp [List.mem_singleton.mp hl]

/-- No other lines give the same text. -/
theorem unlines_injective {ls ls' : List (List α)} (h : ∀ l ∈ ls, nl ∉ l) (h' : ∀ l ∈ ls', nl ∉ l)
    (he : unlines nl ls = unlines nl ls') : ls = ls' := by
  have h1 := splitOn_eq_lines.mpr ⟨h, rfl⟩
  rw [he, splitOn_eq_lines.mpr ⟨h', rfl⟩] at h1
  exact (List.append_cancel_right h1).symm

end Licensecc.Codec
