-- The laws of the search for a text in a text: what is found first, and that a
-- part without the first item of what is searched can be passed over.
import Mathlib.Data.List.Basic
import Mathlib.Tactic.Common

namespace Licensecc.Codec

variable {α : Type} [DecidableEq α] {needle : List α}

/-- The items before the first place of `needle`, and the items after it. -/
def cutAt (needle : List α) : List α → Option (List α × List α)
  | [] => if needle = [] then some ([], []) else none
  | c :: s =>
    if needle.isPrefixOf (c :: s) then some ([], (c :: s).drop needle.length)
    else (cutAt needle s).map fun r => (c :: r.1, r.2)

theorem cutAt_nil : cutAt needle [] = if needle = [] then some ([], []) else none := rfl

theorem cutAt_cons (c : α) (s : List α) : cutAt needle (c :: s) =
    if needle.isPrefixOf (c :: s) then some ([], (c :: s).drop needle.length)
    else (cutAt needle s).map fun r => (c :: r.1, r.2) := rfl

theorem cutAt_eq {s before after : List α} (h : cutAt needle s = some (before, after)) :
    s = before ++ (needle ++ after) := by
  induction s generalizing before with
  | nil =>
    rw [cutAt_nil] at h
    split at h
    · rename_i hneedle
      obtain ⟨rfl, rfl⟩ := Prod.mk.inj (Option.some.inj h)
      rw [hneedle]
      rfl
    · cases h
  | cons c s ih =>
    rw [cutAt_cons] at h
    split at h
    · rename_i hprefix
      obtain ⟨t, ht⟩ := List.isPrefixOf_iff_prefix.mp hprefix
      obtain ⟨rfl, rfl⟩ := Prod.mk.inj (Option.some.inj h)
      rw [← ht, List.drop_left, List.nil_append]
    · obtain ⟨⟨b, a⟩, hcut, hpair⟩ := Option.map_eq_some_iff.mp h
      obtain ⟨rfl, rfl⟩ := Prod.mk.inj hpair
      rw [ih hcut, List.cons_append]

/-- Where there is a place, one is found. -/
theorem cutAt_isSome (x y : List α) : ∃ r, cutAt needle (x ++ (needle ++ y)) = some r := by
  induction x with
  | nil =>
    rw [List.nil_append]
    cases hs : needle ++ y with
    | nil =>
      rw [List.append_eq_nil_iff] at hs
      exact ⟨_, if_pos hs.1⟩
    | cons c s =>
      rw [cutAt_cons, if_pos]
      · exact ⟨_, rfl⟩
      · rw [List.isPrefixOf_iff_prefix, ← hs]
        exact List.prefix_append _ _
  | cons c x ih =>
    obtain ⟨r, hr⟩ := ih
    rw [List.cons_append, cutAt_cons]
    split
    · exact ⟨_, rfl⟩
    · exact ⟨_, by rw [hr]; rfl⟩

/-- What is found is the first place. -/
theorem cutAt_first {s before after x y : List α} (h : cutAt needle s = some (before, after))
    (hs : s = x ++ (needle ++ y)) : before.length ≤ x.length := by
  induction s generalizing before x with
  | nil =>
    have := congrArg List.length (cutAt_eq h)
    simp only [List.length_nil, List.length_append] at this
    omega
  | cons c s ih =>
    rw [cutAt_cons] at h
    split at h
    · obtain ⟨rfl, rfl⟩ := Prod.mk.inj (Option.some.inj h)
      exact Nat.zero_le _
    · rename_i hprefix
      obtain ⟨⟨b, a⟩, hcut, hpair⟩ := Option.map_eq_some_iff.mp h
      obtain ⟨rfl, rfl⟩ := Prod.mk.inj hpair
      cases x with
      | nil =>
        refine absurd ?_ hprefix
        rw [List.isPrefixOf_iff_prefix, hs]
        exact List.prefix_append _ _
      | cons d x =>
        obtain ⟨-, hs⟩ := List.cons.inj (hs.trans (List.cons_append ..))
        exact Nat.succ_le_succ (ih hcut hs)

theorem cutAt_eq_none {s : List α} :
    cutAt needle s = none ↔ ∀ x y, s ≠ x ++ (needle ++ y) := by
  constructor
  · intro h x y hs
    obtain ⟨r, hr⟩ := @cutAt_isSome _ _ needle x y
    rw [← hs, h] at hr
    cases hr
  · intro h
    cases hcut : cutAt needle s with
    | none => rfl
    | some r => exact absurd (cutAt_eq hcut) (h r.1 r.2)

/-- A part without the first item of the needle holds no place of it. -/
theorem cutAt_append {c : α} {s t : List α} (h : c ∉ s) :
    cutAt (c :: needle) (s ++ t) = (cutAt (c :: needle) t).map fun r => (s ++ r.1, r.2) := by
  induction s with
  | nil => simp
  | cons d s ih =>
    have hd : c ≠ d := fun hd => h (hd ▸ List.mem_cons_self)
    rw [List.cons_append, cutAt_cons, if_neg (by simp [List.isPrefixOf, hd]),
      ih fun hc => h (List.mem_cons_of_mem d hc), Option.map_map]
    rfl

theorem cutAt_here {t : List α} (hne : needle ≠ []) :
    cutAt needle (needle ++ t) = some ([], t) := by
  cases needle with
  | nil => exact absurd rfl hne
  | cons c needle =>
    rw [List.cons_append, cutAt_cons, if_pos (by simp [List.isPrefixOf])]
    simp

end Licensecc.Codec
