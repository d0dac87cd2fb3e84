-- Writes of whole rows by their keys. A row that is put takes the place of the
-- row with its key, and every other row stays. Puts of rows with distinct keys
-- make one put of them all.
import Licensecc.Sql.Batch

namespace Licensecc.Sql

variable {ρ κ : Type} [Schema ρ] {key : ρ → κ} {row : ρ} {rows rows' : List ρ} {t t' t'' : Table ρ}

/-- The second table is the first with these rows in the places of their keys. -/
def Puts (key : ρ → κ) (rows : List ρ) (t t' : Table ρ) : Prop :=
  ∀ r, r ∈ t' ↔ (r ∈ t ∧ key r ∉ rows.map key) ∨ r ∈ rows

theorem Puts.nil (key : ρ → κ) (t : Table ρ) : Puts key [] t t := by
  intro r
  simp

theorem Puts.put (h : Puts key rows t t') {r : ρ} (hr : r ∈ rows) : r ∈ t' := (h r).mpr (.inr hr)

/-- A row whose key is not put stays. -/
theorem Puts.keeps (h : Puts key rows t t') {r : ρ} (hr : r ∈ t) (hk : key r ∉ rows.map key) :
    r ∈ t' := (h r).mpr (.inl ⟨hr, hk⟩)

theorem Puts.trans (h : Puts key rows t t') (h' : Puts key rows' t' t'')
    (hd : ∀ r ∈ rows, key r ∉ rows'.map key) : Puts key (rows ++ rows') t t'' := by
  intro r
  rw [h' r, h r, List.map_append, List.mem_append, List.mem_append]
  constructor
  · rintro (⟨⟨hr, hk⟩ | hr, hk'⟩ | hr)
    · exact .inl ⟨hr, fun hmem => hmem.elim hk hk'⟩
    · exact .inr (.inl hr)
    · exact .inr (.inr hr)
  · rintro (⟨hr, hk⟩ | hr | hr)
    · exact .inl ⟨.inl ⟨hr, fun hmem => hk (.inl hmem)⟩, fun hmem => hk (.inr hmem)⟩
    · exact .inl ⟨.inr hr, hd r hr⟩
    · exact .inr hr

/-- An insert puts its row. -/
theorem puts_of_insert (hclash : ∀ r, key r = key row → Schema.clash row r)
    (h : t.insert row = .ok t') : Puts key [row] t t' := by
  intro r
  rw [Table.mem_of_insert h, List.map_singleton, List.mem_singleton, List.mem_singleton]
  constructor
  · rintro (rfl | hr)
    · exact .inr rfl
    · exact .inl ⟨hr, fun hk => (Table.insert_eq_ok.mp h).2.2.1 r hr (hclash r hk)⟩
  · rintro (⟨hr, -⟩ | rfl)
    · exact .inr hr
    · exact .inl rfl

/-- An update of the one row of a key puts the row that it sets. -/
theorem puts_of_update_one {now : Int} {sel : ρ → Prop} [DecidablePred sel] {set : ρ → ρ} {n : Nat}
    (hclash : ∀ a b, key a = key b → Schema.clash a b) (h : t.update now sel set = .ok (n, t'))
    (hrow : row ∈ t) (hs : sel row) (hsel : ∀ r, sel r → key r = key row)
    (hset : key (set row) = key row) : Puts key [set row] t t' := by
  have hone : ∀ r ∈ t, key r = key row → r = row := fun r hr hk =>
    Table.unique hr hrow (hclash r row hk)
  intro r
  rw [Table.mem_of_update_one h hrow hs fun a ha hsa => hone a ha (hsel a hsa), List.map_singleton,
    List.mem_singleton, List.mem_singleton, hset]
  constructor
  · rintro (⟨hr, hne⟩ | rfl)
    · exact .inl ⟨hr, fun hk => hne (hone r hr hk)⟩
    · exact .inr rfl
  · rintro (⟨hr, hk⟩ | rfl)
    · exact .inl ⟨hr, fun heq => hk (congrArg key heq)⟩
    · exact .inr rfl

/-- An update by a key that leaves a row of the key in the table has put it. -/
theorem puts_of_update {now : Int} {sel : ρ → Prop} [DecidablePred sel] {set : ρ → ρ} {n : Nat}
    (hclash : ∀ a b, key a = key b → Schema.clash a b) (hsel : ∀ r, sel r → key r = key row)
    (hset : ∀ r, sel r → key (set r) = key r) (hrow : sel row)
    (h : t.update now sel set = .ok (n, t')) (hin : row ∈ t') : Puts key [row] t t' := by
  have hplace : ∃ a ∈ t, sel a := by
    by_contra hno
    have hcount : n = 0 := (Table.update_eq_ok.mp h).2.1.trans
      (Table.count_eq_zero.mpr fun a ha hs => hno ⟨a, ha, hs⟩)
    subst hcount
    exact hno ⟨row, Table.update_zero h ▸ hin, hrow⟩
  obtain ⟨a, ha, hs⟩ := hplace
  have hput := puts_of_update_one hclash h ha hs (fun b hb => (hsel b hb).trans (hsel a hs).symm)
    (hset a hs)
  have hrow' : row = set a :=
    Table.unique hin (hput.put List.mem_cons_self)
      (hclash _ _ ((hset a hs).trans (hsel a hs)).symm)
  rw [hrow']
  exact hput

/-- The second of two puts of one key is the put of both. -/
theorem Puts.replace {row' : ρ} (h : Puts key [row] t t') (h' : Puts key [row'] t' t'')
    (hk : key row' = key row) : Puts key [row'] t t'' := by
  intro r
  rw [h' r, h r]
  simp only [List.map_singleton, List.mem_singleton, hk]
  constructor
  · rintro (⟨⟨hr, -⟩ | rfl, hne⟩ | rfl)
    · exact .inl ⟨hr, hne⟩
    · exact absurd rfl hne
    · exact .inr rfl
  · rintro (⟨hr, hne⟩ | rfl)
    · exact .inl ⟨.inl ⟨hr, hne⟩, hne⟩
    · exact .inr rfl

/-- An update of one row succeeds when the row that it sets clashes with no other. -/
theorem update_one_ok {now : Int} {sel : ρ → Prop} [DecidablePred sel] {set : ρ → ρ}
    (hrow : row ∈ t) (hself : Schema.clash row row) (hs : sel row)
    (hone : ∀ r ∈ t, sel r → r = row) (hraise : Schema.beforeUpdate now row (set row) = none)
    (hcheck : Schema.check (set row)) (hclash : ∀ r ∈ t, r ≠ row → ¬ Schema.clash (set row) r) :
    ∃ t', t.update now sel set = .ok (t.count sel, t') := by
  refine Table.update_ok (fun r hr hsr => ?_) (fun r hr hsr => ?_) fun a ha b hb hc => ?_
  · obtain rfl := hone r hr hsr
    exact hraise
  · obtain rfl := hone r hr hsr
    exact hcheck
  · by_cases hsa : sel a
    · obtain rfl := hone a ha hsa
      rw [if_pos hsa] at hc
      by_cases hsb : sel b
      · obtain rfl := hone b hb hsb
        exact hself
      · rw [if_neg hsb] at hc
        exact absurd hc (hclash b hb fun heq => hsb (heq ▸ hsa))
    · rw [if_neg hsa] at hc
      by_cases hsb : sel b
      · obtain rfl := hone b hb hsb
        rw [if_pos hsb] at hc
        exact absurd (Schema.clash_symm hc) (hclash a ha fun heq => hsa (heq ▸ hsb))
      · rw [if_neg hsb] at hc
        exact hc

end Licensecc.Sql
