-- Statements that cannot fail, and rows that allow a number of uses. Each row has the
-- number of its insert. A statement that uses a row leaves it fewer uses, and no row is
-- used more often than it allows.
import Licensecc.Sql.Table
import Mathlib.Data.List.Nodup

namespace Licensecc.Sql

/-! ## Statements that cannot fail -/

namespace Table

variable {ρ : Type} [Schema ρ] {t : Table ρ} {r : ρ}

/-- An `UPDATE` that leaves the keys of every row as they are. -/
def modify (t : Table ρ) (set : ρ → ρ) (hcheck : ∀ r, Schema.check r → Schema.check (set r))
    (hclash : ∀ a b, Schema.clash (set a) (set b) → Schema.clash a b) : Table ρ where
  rows := t.rows.map set
  checked := by
    intro r hr
    obtain ⟨a, ha, rfl⟩ := List.mem_map.mp hr
    exact hcheck a (t.checked a ha)
  distinct := List.pairwise_map.mpr (t.distinct.imp fun hab hclash' => hab (hclash _ _ hclash'))

theorem mem_modify {set : ρ → ρ} {hcheck : ∀ r, Schema.check r → Schema.check (set r)}
    {hclash : ∀ a b, Schema.clash (set a) (set b) → Schema.clash a b} :
    r ∈ t.modify set hcheck hclash ↔ ∃ a ∈ t, set a = r := List.mem_map

/-- The rows that meet a condition: what a `DELETE` of the others leaves. -/
def keep (t : Table ρ) (p : ρ → Prop) [DecidablePred p] : Table ρ where
  rows := t.rows.filter (p ·)
  checked r hr := t.checked r (List.mem_of_mem_filter hr)
  distinct := t.distinct.sublist List.filter_sublist

theorem mem_keep {p : ρ → Prop} [DecidablePred p] : r ∈ t.keep p ↔ r ∈ t ∧ p r := by
  simp [keep, mem_def]

end Table

/-! ## Uses -/

/-- A statement changes rows: every new row comes from an old one with its number, and the
numbers stay in their order. -/
structure Successors {ρ : Type} (num : ρ → Nat) (step : ρ → ρ → Prop) (rows rows' : List ρ) :
    Prop where
  numbers : (rows'.map num).Sublist (rows.map num)
  row : ∀ r' ∈ rows', ∃ r ∈ rows, num r' = num r ∧ step r r'

section
variable {ρ : Type} {num : ρ → Nat} {left : ρ → Nat} {rows rows' : List ρ} {k n : Nat}
  {used : Nat → Nat}

theorem Successors.of_sublist {step : ρ → ρ → Prop} (h : rows'.Sublist rows)
    (hstep : ∀ r ∈ rows', step r r) : Successors num step rows rows' :=
  ⟨h.map num, fun r hr => ⟨r, h.subset hr, rfl, hstep r hr⟩⟩

theorem Successors.of_map {step : ρ → ρ → Prop} {set : ρ → ρ} (hnum : ∀ r, num (set r) = num r)
    (hstep : ∀ r ∈ rows, step r (set r)) : Successors num step rows (rows.map set) := by
  refine ⟨?_, fun r' hr' => ?_⟩
  · rw [List.map_map, show num ∘ set = num from funext hnum]
  · obtain ⟨r, hr, rfl⟩ := List.mem_map.mp hr'
    exact ⟨r, hr, hnum r, hstep r hr⟩

/-- The rows allow `k` uses each. Their numbers are below `n`, `used` counts the uses of a
number so far, and `left` says how many a row still allows. -/
structure Budget (num left : ρ → Nat) (k n : Nat) (used : Nat → Nat) (rows : List ρ) : Prop where
  below : ∀ r ∈ rows, num r < n
  distinct : (rows.map num).Nodup
  unused : ∀ b, n ≤ b → used b = 0
  bound : ∀ b, used b ≤ k
  left : ∀ r ∈ rows, used (num r) + left r ≤ k

theorem Budget.empty (num left : ρ → Nat) (k : Nat) : Budget num left k 0 (fun _ => 0) [] where
  below r hr := nomatch hr
  distinct := List.nodup_nil
  unused _ _ := rfl
  bound _ := Nat.zero_le _
  left r hr := nomatch hr

theorem Budget.unique (h : Budget num left k n used rows) {a b : ρ} (ha : a ∈ rows) (hb : b ∈ rows)
    (hab : num a = num b) : a = b := List.inj_on_of_nodup_map h.distinct ha hb hab

/-- An insert gets the next number. -/
theorem Budget.insert (h : Budget num left k n used rows) {row : ρ} (hnum : num row = n)
    (hleft : left row ≤ k) : Budget num left k (n + 1) used (row :: rows) where
  below := by
    intro r hr
    rcases List.mem_cons.mp hr with rfl | hr
    · omega
    · exact Nat.lt_succ_of_lt (h.below r hr)
  distinct := by
    refine List.nodup_cons.mpr ⟨fun hmem => ?_, h.distinct⟩
    obtain ⟨r, hr, heq⟩ := List.mem_map.mp hmem
    have := h.below r hr
    omega
  unused b hb := h.unused b (by omega)
  bound := h.bound
  left := by
    intro r hr
    rcases List.mem_cons.mp hr with rfl | hr
    · rw [h.unused _ (Nat.le_of_eq hnum.symm)]
      omega
    · exact h.left r hr

/-- A statement that uses the rows that it selects, one use each. -/
theorem Budget.spend (h : Budget num left k n used rows) {sel : ρ → Prop} {used' : Nat → Nat}
    (hused : ∀ b, used' b = used b ∨ used' b = used b + 1 ∧ ∃ r ∈ rows, num r = b ∧ sel r)
    (hsel : ∀ r ∈ rows, sel r → 1 ≤ left r)
    (hrows : Successors num (fun r r' => (sel r → left r' + 1 ≤ left r) ∧ left r' ≤ left r)
      rows rows') : Budget num left k (n + 1) used' rows' where
  below := by
    intro r' hr'
    obtain ⟨r, hr, hnum, -⟩ := hrows.row r' hr'
    have := h.below r hr
    omega
  distinct := h.distinct.sublist hrows.numbers
  unused := by
    intro b hb
    have h0 := h.unused b (by omega)
    rcases hused b with heq | ⟨-, r, hr, rfl, -⟩
    · omega
    · have := h.below r hr
      omega
  bound := by
    intro b
    have hb := h.bound b
    rcases hused b with heq | ⟨heq, r, hr, rfl, hs⟩
    · omega
    · have h1 := h.left r hr
      have h2 := hsel r hr hs
      omega
  left := by
    intro r' hr'
    obtain ⟨r, hr, hnum, hstep, hle⟩ := hrows.row r' hr'
    have h1 := h.left r hr
    rw [hnum]
    rcases hused (num r) with heq | ⟨heq, a, ha, hna, hs⟩
    · omega
    · -- The row that was used is this one.
      obtain rfl := h.unique ha hr hna
      have := hstep hs
      omega

end

end Licensecc.Sql
