-- The order of two elements in a list.
import Mathlib.Data.List.Nodup
import Mathlib.Tactic.Common

namespace Licensecc

variable {α β : Type} {l l' : List α} {a b : α}

/-- The first element stands before the second in the list. -/
def Before (l : List α) (a b : α) : Prop := [a, b].Sublist l

instance [DecidableEq α] (l : List α) (a b : α) : Decidable (Before l a b) :=
  inferInstanceAs (Decidable ([a, b].Sublist l))

theorem Before.mem (h : Before l a b) : a ∈ l ∧ b ∈ l :=
  ⟨h.subset (by simp), h.subset (by simp)⟩

theorem Before.sublist (h : Before l a b) (hl : l.Sublist l') : Before l' a b := h.trans hl

theorem Before.map (f : α → β) (h : Before l a b) : Before (l.map f) (f a) (f b) :=
  List.Sublist.map f h

/-- Elements that a filter keeps keep their order. -/
theorem Before.filter {p : α → Bool} (h : Before l a b) (ha : p a = true) (hb : p b = true) :
    Before (l.filter p) a b := by
  have hfiltered := List.Sublist.filter p h
  rw [List.filter_cons_of_pos ha, List.filter_cons_of_pos hb, List.filter_nil] at hfiltered
  exact hfiltered

theorem before_iff : Before l a b ↔ ∃ l₁ l₂, l = l₁ ++ l₂ ∧ a ∈ l₁ ∧ b ∈ l₂ := by
  unfold Before
  rw [List.cons_sublist_iff]
  simp only [List.singleton_sublist]

/-- One of two elements stands first. -/
theorem before_or_before (ha : a ∈ l) (hb : b ∈ l) (hne : a ≠ b) : Before l a b ∨ Before l b a := by
  obtain ⟨l₁, l₂, rfl⟩ := List.append_of_mem ha
  rcases List.mem_append.mp hb with hb | hb
  · exact .inr (before_iff.mpr ⟨l₁, a :: l₂, rfl, hb, List.mem_cons_self⟩)
  · rcases List.mem_cons.mp hb with rfl | hb
    · exact absurd rfl hne
    · exact .inl (before_iff.mpr ⟨l₁ ++ [a], l₂, by simp, by simp, hb⟩)

/-- What stands before an element that the list has once. -/
theorem before_split (hd : (l ++ b :: l').Nodup) : Before (l ++ b :: l') a b ↔ a ∈ l := by
  constructor
  · intro h
    obtain ⟨l₁, l₂, heq, ha, hb⟩ := before_iff.mp h
    rcases List.append_eq_append_iff.mp heq with ⟨c, rfl, hc⟩ | ⟨c, rfl, hc⟩
    · cases c with
      | nil => simpa using ha
      | cons x c =>
        obtain ⟨rfl, -⟩ := List.cons.inj hc
        have hdisjoint := (List.nodup_append.mp (heq ▸ hd)).2.2
        exact absurd rfl (hdisjoint b (by simp) b hb)
    · exact List.mem_append_left _ ha
  · intro ha
    exact before_iff.mpr ⟨l, b :: l', rfl, ha, List.mem_cons_self⟩

theorem Before.asymm (hd : l.Nodup) (h : Before l a b) : ¬ Before l b a := by
  obtain ⟨l₁, l₂, rfl, ha, hb⟩ := before_iff.mp h
  obtain ⟨c₁, c₂, rfl⟩ := List.append_of_mem hb
  have hassoc : l₁ ++ (c₁ ++ b :: c₂) = (l₁ ++ c₁) ++ b :: c₂ := by simp
  intro h'
  obtain ⟨d₁, d₂, hd', hb', ha'⟩ := before_iff.mp h'
  have hdisjoint := (List.nodup_append.mp (hd' ▸ hd)).2.2
  rw [hassoc] at hd hd'
  have ha₁ : a ∈ l₁ ++ c₁ := List.mem_append_left _ ha
  -- the part up to `b` has `a`, and so has the part after it
  rcases List.append_eq_append_iff.mp hd' with ⟨c, rfl, hc⟩ | ⟨c, hl, hc⟩
  · exact hdisjoint a (List.mem_append_left _ ha₁) a ha' rfl
  · have hb₁ : b ∈ l₁ ++ c₁ := hl ▸ List.mem_append_left _ hb'
    exact (List.nodup_append.mp hd).2.2 b hb₁ b List.mem_cons_self rfl

end Licensecc
