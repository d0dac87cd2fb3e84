-- The laws of a table. A table holds its rows with the proof that every row
-- meets the CHECKs and that no two rows share a key, so every table that a
-- statement returns is well formed and no later proof shows it again.
import Licensecc.Failure
import Mathlib.Data.List.Pairwise
import Mathlib.Data.List.Perm.Basic

namespace Licensecc.Sql

/-! ## Failures -/

/-- Why a statement stops its whole batch: a constraint of the schema, or a
trigger that raises its text. -/
inductive Abort where
  | constraint
  | raised (text : String)
  deriving DecidableEq

/-- A failure of the constraint when a condition does not hold. -/
def require (p : Prop) [Decidable p] : Except Abort Unit :=
  if p then .ok () else .error .constraint

theorem require_bind_eq_ok {α : Type} {p : Prop} [Decidable p] {x : Unit → Except Abort α} {a : α} :
    (require p >>= x) = .ok a ↔ p ∧ x () = .ok a := by
  unfold require
  split <;> simp_all [bind, Except.bind]

/-- SQL equality of two columns that can be NULL: NULL equals nothing. -/
def Same {α : Type} (a b : Option α) : Prop := ∃ v, a = some v ∧ b = some v

instance {α : Type} [DecidableEq α] (a b : Option α) : Decidable (Same a b) :=
  decidable_of_iff (a ≠ none ∧ a = b) <| by
    cases a <;> cases b <;> simp [Same, eq_comm]

@[simp] theorem same_some {α : Type} {a : Option α} {v : α} : Same a (some v) ↔ a = some v := by
  simp [Same]

@[simp] theorem same_none {α : Type} {a : Option α} : ¬ Same a none := by
  simp [Same]

theorem same_self {α : Type} {a : Option α} (h : a ≠ none) : Same a a := by
  obtain ⟨v, rfl⟩ := Option.ne_none_iff_exists'.mp h
  exact ⟨v, rfl, rfl⟩

theorem Same.eq {α : Type} {a b : Option α} (h : Same a b) : a = b := by
  obtain ⟨v, rfl, rfl⟩ := h
  rfl

/-! ## The schema of a row type -/

/-- What the schema says about the rows of one table: the CHECKs, the pairs
of rows that no key allows together, and the BEFORE triggers. A trigger gives
the text that it raises. -/
class Schema (ρ : Type) where
  check : ρ → Prop
  clash : ρ → ρ → Prop
  beforeInsert : List ρ → ρ → Option String := fun _ _ => none
  beforeUpdate : Int → ρ → ρ → Option String := fun _ _ _ => none
  beforeDelete : ρ → Option String := fun _ => none
  clash_symm : ∀ {a b}, clash a b → clash b a
  [decCheck : DecidablePred check]
  [decClash : DecidableRel clash]

instance {ρ : Type} [s : Schema ρ] : DecidablePred (@Schema.check ρ s) := s.decCheck

instance {ρ : Type} [s : Schema ρ] : DecidableRel (@Schema.clash ρ s) := s.decClash

/-- The rows of a table, with the constraints that hold of them. -/
@[ext] structure Table (ρ : Type) [Schema ρ] where
  rows : List ρ
  checked : ∀ r ∈ rows, Schema.check r
  distinct : rows.Pairwise fun a b => ¬ Schema.clash a b

/-! ## Rows in the same order -/

section
variable {α β : Type} {R : α → β → Prop} {l : List α} {l' : List β}

theorem forall₂_right (h : List.Forall₂ R l l') {b : β} (hb : b ∈ l') : ∃ a ∈ l, R a b := by
  induction h with
  | nil => cases hb
  | @cons x y _ _ hr _ ih =>
    rcases List.mem_cons.mp hb with rfl | hb
    · exact ⟨x, List.mem_cons_self, hr⟩
    · obtain ⟨a, ha, hab⟩ := ih hb
      exact ⟨a, List.mem_cons_of_mem _ ha, hab⟩

theorem forall₂_left (h : List.Forall₂ R l l') {a : α} (ha : a ∈ l) : ∃ b ∈ l', R a b :=
  forall₂_right h.flip ha

theorem forall₂_countP {p : α → Bool} {q : β → Bool} (h : List.Forall₂ R l l')
    (himp : ∀ a b, R a b → q b → p a) : l'.countP q ≤ l.countP p := by
  induction h with
  | nil => simp
  | @cons x y _ _ hr _ ih =>
    rw [List.countP_cons, List.countP_cons]
    by_cases hq : q y
    · rw [if_pos hq, if_pos (himp x y hr hq)]
      omega
    · rw [if_neg hq]
      omega

end

namespace Table

variable {ρ : Type} [Schema ρ]

instance : Membership ρ (Table ρ) := ⟨fun t r => r ∈ t.rows⟩

theorem mem_def {t : Table ρ} {r : ρ} : r ∈ t ↔ r ∈ t.rows := Iff.rfl

def empty : Table ρ := ⟨[], by simp, List.Pairwise.nil⟩

instance : Inhabited (Table ρ) := ⟨empty⟩

@[simp] theorem not_mem_empty {r : ρ} : ¬ r ∈ (empty : Table ρ) := by
  simp [empty, mem_def]

instance [DecidableEq ρ] (r : ρ) (t : Table ρ) : Decidable (r ∈ t) :=
  inferInstanceAs (Decidable (r ∈ t.rows))

instance (t : Table ρ) (p : ρ → Prop) [DecidablePred p] : Decidable (∃ r ∈ t, p r) :=
  inferInstanceAs (Decidable (∃ r ∈ t.rows, p r))

instance (t : Table ρ) (p : ρ → Prop) [DecidablePred p] : Decidable (∀ r ∈ t, p r) :=
  inferInstanceAs (Decidable (∀ r ∈ t.rows, p r))

/-- Two rows of one table that share a key are one row. -/
theorem unique {t : Table ρ} {a b : ρ} (ha : a ∈ t) (hb : b ∈ t) (h : Schema.clash a b) :
    a = b := by
  by_contra hne
  have hsymm : Std.Symm fun x y : ρ => ¬ Schema.clash x y :=
    ⟨fun _ _ hn hc => hn (Schema.clash_symm hc)⟩
  exact t.distinct.forall ha hb hne h

/-! ## The row of a key -/

def find? (t : Table ρ) (p : ρ → Prop) [DecidablePred p] : Option ρ := t.rows.find? (p ·)

theorem find?_some {t : Table ρ} {p : ρ → Prop} [DecidablePred p] {r : ρ}
    (h : t.find? p = some r) : r ∈ t ∧ p r :=
  ⟨List.mem_of_find?_eq_some h, by simpa using List.find?_some h⟩

theorem find?_none {t : Table ρ} {p : ρ → Prop} [DecidablePred p] :
    t.find? p = none ↔ ∀ r ∈ t, ¬ p r := by
  simp [find?, mem_def]

/-- A search that a key makes unique finds the row that has the key. -/
theorem find?_eq {t : Table ρ} {p : ρ → Prop} [DecidablePred p] {r : ρ} (hr : r ∈ t) (hp : p r)
    (hu : ∀ a b, p a → p b → Schema.clash a b) : t.find? p = some r := by
  cases h : t.find? p with
  | none => exact absurd hp (find?_none.mp h r hr)
  | some a =>
    obtain ⟨ha, hpa⟩ := find?_some h
    rw [unique ha hr (hu a r hpa hp)]

/-! ## Count -/

/-- `SELECT COUNT(*)` of the rows that a condition selects. -/
def count (t : Table ρ) (p : ρ → Prop) [DecidablePred p] : Nat := t.rows.countP (p ·)

theorem count_mono {t : Table ρ} {p q : ρ → Prop} [DecidablePred p] [DecidablePred q]
    (h : ∀ r ∈ t, p r → q r) : t.count p ≤ t.count q := by
  refine List.countP_mono_left fun r hr hp => ?_
  simpa using h r hr (by simpa using hp)

theorem count_congr {t : Table ρ} {p q : ρ → Prop} [DecidablePred p] [DecidablePred q]
    (h : ∀ r ∈ t, p r ↔ q r) : t.count p = t.count q :=
  Nat.le_antisymm (count_mono fun r hr => (h r hr).mp) (count_mono fun r hr => (h r hr).mpr)

theorem count_eq_zero {t : Table ρ} {p : ρ → Prop} [DecidablePred p] :
    t.count p = 0 ↔ ∀ r ∈ t, ¬ p r := by
  simp [count, List.countP_eq_zero, mem_def]

/-! ## INSERT -/

/-- `INSERT` of one row. -/
def insert (row : ρ) (t : Table ρ) : Except Abort (Table ρ) :=
  match Schema.beforeInsert t.rows row with
  | some text => .error (.raised text)
  | none =>
    if h : Schema.check row ∧ ∀ r ∈ t.rows, ¬ Schema.clash row r then
      .ok ⟨row :: t.rows, by simpa using ⟨h.1, t.checked⟩, List.pairwise_cons.mpr ⟨h.2, t.distinct⟩⟩
    else .error .constraint

/-- An insert succeeds exactly when no trigger raises, the row meets the
checks and no stored row has its key. The new table is the old one with the
row in front. -/
theorem insert_eq_ok {row : ρ} {t t' : Table ρ} :
    t.insert row = .ok t' ↔ Schema.beforeInsert t.rows row = none ∧ Schema.check row ∧
      (∀ r ∈ t, ¬ Schema.clash row r) ∧ t'.rows = row :: t.rows := by
  unfold insert
  cases Schema.beforeInsert t.rows row with
  | some text => simp
  | none =>
    by_cases h : Schema.check row ∧ ∀ r ∈ t.rows, ¬ Schema.clash row r
    · rw [dif_pos h]
      simp only [Except.ok.injEq, Table.ext_iff, @eq_comm _ _ t'.rows, true_and]
      exact ⟨fun e => ⟨h.1, h.2, e⟩, fun e => e.2.2⟩
    · rw [dif_neg h]
      simp only [reduceCtorEq, true_and, false_iff]
      rintro ⟨h1, h2, -⟩
      exact h ⟨h1, h2⟩

theorem insert_ok {row : ρ} {t : Table ρ} (hbefore : Schema.beforeInsert t.rows row = none)
    (hcheck : Schema.check row) (hclash : ∀ r ∈ t, ¬ Schema.clash row r) :
    ∃ t', t.insert row = .ok t' :=
  ⟨⟨row :: t.rows, by simpa using ⟨hcheck, t.checked⟩,
    List.pairwise_cons.mpr ⟨hclash, t.distinct⟩⟩, insert_eq_ok.mpr ⟨hbefore, hcheck, hclash, rfl⟩⟩

theorem rows_of_insert {row : ρ} {t t' : Table ρ} (h : t.insert row = .ok t') :
    t'.rows = row :: t.rows :=
  (insert_eq_ok.mp h).2.2.2

theorem mem_of_insert {row r : ρ} {t t' : Table ρ} (h : t.insert row = .ok t') :
    r ∈ t' ↔ r = row ∨ r ∈ t := by
  rw [mem_def, rows_of_insert h, List.mem_cons, mem_def]

theorem count_of_insert {row : ρ} {t t' : Table ρ} {p : ρ → Prop} [DecidablePred p]
    (h : t.insert row = .ok t') : t'.count p = t.count p + if p row then 1 else 0 := by
  simp [count, rows_of_insert h, List.countP_cons]

/-! ## UPDATE -/

/-- The table of a list of rows, when the schema allows the rows. -/
def ofRows (rows : List ρ) : Except Abort (Table ρ) :=
  if h : (∀ r ∈ rows, Schema.check r) ∧ rows.Pairwise (fun a b => ¬ Schema.clash a b) then
    .ok ⟨rows, h.1, h.2⟩
  else .error .constraint

theorem ofRows_eq_ok {rows : List ρ} {t : Table ρ} : ofRows rows = .ok t ↔ t.rows = rows := by
  unfold ofRows
  constructor
  · intro h
    split at h
    · obtain rfl := Except.ok.inj h
      rfl
    · cases h
  · rintro rfl
    rw [dif_pos ⟨t.checked, t.distinct⟩]

/-- `UPDATE ... SET set WHERE sel` at one time. The count is the number of
rows that the condition selects. -/
def update (now : Int) (sel : ρ → Prop) [DecidablePred sel] (set : ρ → ρ) (t : Table ρ) :
    Except Abort (Nat × Table ρ) :=
  match (t.rows.filter (sel ·)).findSome? fun r => Schema.beforeUpdate now r (set r) with
  | some text => .error (.raised text)
  | none => do
    let t' ← ofRows (t.rows.map fun r => if sel r then set r else r)
    return (t.count sel, t')

/-- An update succeeds exactly when no trigger raises on a selected row and
the new rows make a table. -/
theorem update_eq_ok {now : Int} {sel : ρ → Prop} [DecidablePred sel] {set : ρ → ρ}
    {t t' : Table ρ} {n : Nat} :
    t.update now sel set = .ok (n, t') ↔
      (∀ r ∈ t, sel r → Schema.beforeUpdate now r (set r) = none) ∧ n = t.count sel ∧
      t'.rows = t.rows.map fun r => if sel r then set r else r := by
  have hraise : (t.rows.filter (sel ·)).findSome? (fun r => Schema.beforeUpdate now r (set r)) = none ↔
      ∀ r ∈ t, sel r → Schema.beforeUpdate now r (set r) = none := by
    simp [mem_def]
  unfold update
  cases hf : (t.rows.filter (sel ·)).findSome? fun r => Schema.beforeUpdate now r (set r) with
  | some text =>
    have : ¬ ∀ r ∈ t, sel r → Schema.beforeUpdate now r (set r) = none := by
      rw [← hraise, hf]; simp
    simp only [reduceCtorEq, false_iff]
    exact fun h => this h.1
  | none =>
    simp only [bind_eq_ok, ofRows_eq_ok, pure, Except.pure, Except.ok.injEq, Prod.mk.injEq]
    constructor
    · rintro ⟨a, ha, rfl, rfl⟩
      exact ⟨hraise.mp hf, rfl, ha⟩
    · rintro ⟨-, rfl, h⟩
      exact ⟨t', h, rfl, rfl⟩

theorem rows_of_update {now : Int} {sel : ρ → Prop} [DecidablePred sel] {set : ρ → ρ}
    {t t' : Table ρ} {n : Nat} (h : t.update now sel set = .ok (n, t')) :
    t'.rows = t.rows.map fun r => if sel r then set r else r :=
  (update_eq_ok.mp h).2.2

/-- The rows after an update: each selected row is set, and every other row
is the row that it was. -/
theorem mem_of_update {now : Int} {sel : ρ → Prop} [DecidablePred sel] {set : ρ → ρ}
    {t t' : Table ρ} {n : Nat} (h : t.update now sel set = .ok (n, t')) {r : ρ} :
    r ∈ t' ↔ ∃ r₀ ∈ t, r = if sel r₀ then set r₀ else r₀ := by
  rw [mem_def, rows_of_update h]
  simp [mem_def, eq_comm]

/-- An update of one row. -/
theorem mem_of_update_one {now : Int} {sel : ρ → Prop} [DecidablePred sel] {set : ρ → ρ}
    {t t' : Table ρ} {n : Nat} {r₀ : ρ} (h : t.update now sel set = .ok (n, t')) (hr₀ : r₀ ∈ t)
    (hs : sel r₀) (hone : ∀ r ∈ t, sel r → r = r₀) {r : ρ} :
    r ∈ t' ↔ (r ∈ t ∧ r ≠ r₀) ∨ r = set r₀ := by
  rw [mem_of_update h]
  constructor
  · rintro ⟨a, ha, rfl⟩
    by_cases hsa : sel a
    · rw [if_pos hsa, hone a ha hsa]
      exact .inr rfl
    · rw [if_neg hsa]
      exact .inl ⟨ha, fun he => hsa (he ▸ hs)⟩
  · rintro (⟨hr, hne⟩ | rfl)
    · exact ⟨r, hr, (if_neg fun hsr => hne (hone r hr hsr)).symm⟩
    · exact ⟨r₀, hr₀, (if_pos hs).symm⟩

/-- An update that selects no row succeeds and changes nothing. -/
theorem update_none {now : Int} {sel : ρ → Prop} [DecidablePred sel] {set : ρ → ρ} {t : Table ρ}
    (h : ∀ r ∈ t, ¬ sel r) : t.update now sel set = .ok (0, t) := by
  refine Iff.mpr update_eq_ok ⟨fun r hr hs => absurd hs (h r hr), (count_eq_zero.mpr h).symm, ?_⟩
  have : t.rows.map (fun r => if sel r then set r else r) = t.rows.map id :=
    List.map_congr_left fun r hr => if_neg (h r hr)
  rw [this, List.map_id]

/-- An update that counts no row has changed nothing. -/
theorem update_zero {now : Int} {sel : ρ → Prop} [DecidablePred sel] {set : ρ → ρ}
    {t t' : Table ρ} (h : t.update now sel set = .ok (0, t')) : t' = t := by
  have hcount := (Iff.mp update_eq_ok h).2.1
  have hnone : t.update now sel set = .ok (0, t) := update_none (count_eq_zero.mp hcount.symm)
  rw [h] at hnone
  exact (Prod.mk.inj (Except.ok.inj hnone)).2

theorem count_of_update {now : Int} {sel p : ρ → Prop} [DecidablePred sel] [DecidablePred p]
    {set : ρ → ρ} {t t' : Table ρ} {n : Nat} (h : t.update now sel set = .ok (n, t')) :
    t'.count p = t.count fun r => p (if sel r then set r else r) := by
  simp only [count, rows_of_update h, List.countP_map]
  rfl

/-- An update that turns no new row into a counted one does not raise a
count. -/
theorem count_of_update_le {now : Int} {sel p q : ρ → Prop} [DecidablePred sel] [DecidablePred p]
    [DecidablePred q] {set : ρ → ρ} {t t' : Table ρ} {n : Nat}
    (h : t.update now sel set = .ok (n, t'))
    (hsel : ∀ r ∈ t, sel r → p (set r) → q r) (hkeep : ∀ r ∈ t, ¬ sel r → p r → q r) :
    t'.count p ≤ t.count q := by
  rw [count_of_update h]
  refine count_mono fun r hr hp => ?_
  split at hp
  · exact hsel r hr ‹_› hp
  · exact hkeep r hr ‹_› hp

/-- What the set part of an update does to each row, in the order of the
rows. -/
theorem forall₂_of_update {R : ρ → ρ → Prop} {now : Int} {sel : ρ → Prop} [DecidablePred sel]
    {set : ρ → ρ} {t t' : Table ρ} {n : Nat} (h : t.update now sel set = .ok (n, t'))
    (hrefl : ∀ r ∈ t, ¬ sel r → R r r)
    (hset : ∀ r ∈ t, sel r → Schema.beforeUpdate now r (set r) = none → R r (set r)) :
    List.Forall₂ R t.rows t'.rows := by
  obtain ⟨hraise, -, hrows⟩ := Iff.mp update_eq_ok h
  rw [hrows, List.forall₂_map_right_iff, List.forall₂_same]
  intro r hr
  split
  · exact hset r hr ‹_› (hraise r hr ‹_›)
  · exact hrefl r hr ‹_›

/-- When the set part keeps the checks and no new row clashes, an update that
no trigger stops succeeds. -/
theorem update_ok {now : Int} {sel : ρ → Prop} [DecidablePred sel] {set : ρ → ρ} {t : Table ρ}
    (hraise : ∀ r ∈ t, sel r → Schema.beforeUpdate now r (set r) = none)
    (hcheck : ∀ r ∈ t, sel r → Schema.check (set r))
    (hclash : ∀ a ∈ t, ∀ b ∈ t, Schema.clash (if sel a then set a else a)
      (if sel b then set b else b) → Schema.clash a b) :
    ∃ t', t.update now sel set = .ok (t.count sel, t') := by
  refine ⟨⟨t.rows.map fun r => if sel r then set r else r, ?_, ?_⟩,
    Iff.mpr update_eq_ok ⟨hraise, rfl, rfl⟩⟩
  · intro r hr
    obtain ⟨a, ha, rfl⟩ := List.mem_map.mp hr
    split
    · exact hcheck a ha ‹_›
    · exact t.checked a ha
  · rw [List.pairwise_map]
    exact t.distinct.imp_of_mem fun ha hb hab hc => hab (hclash _ ha _ hb hc)

/-! ## DELETE -/

/-- `DELETE ... WHERE sel`. -/
def delete (sel : ρ → Prop) [DecidablePred sel] (t : Table ρ) : Except Abort (Nat × Table ρ) :=
  match (t.rows.filter (sel ·)).findSome? Schema.beforeDelete with
  | some text => .error (.raised text)
  | none => .ok (t.count sel, ⟨t.rows.filter (fun r => ¬ sel r),
      fun r hr => t.checked r (List.mem_filter.mp hr).1, t.distinct.filter _⟩)

theorem rows_of_delete {sel : ρ → Prop} [DecidablePred sel] {t t' : Table ρ} {n : Nat}
    (h : t.delete sel = .ok (n, t')) : t'.rows = t.rows.filter fun r => ¬ sel r := by
  unfold delete at h
  split at h
  · cases h
  · obtain ⟨-, rfl⟩ := Prod.mk.inj (Except.ok.inj h)
    rfl

theorem mem_of_delete {sel : ρ → Prop} [DecidablePred sel] {t t' : Table ρ} {n : Nat}
    (h : t.delete sel = .ok (n, t')) {r : ρ} : r ∈ t' ↔ r ∈ t ∧ ¬ sel r := by
  simp [mem_def, rows_of_delete h]

/-- A table with no delete trigger deletes without a failure. -/
theorem delete_ok {sel : ρ → Prop} [DecidablePred sel] {t : Table ρ}
    (h : ∀ r ∈ t, sel r → Schema.beforeDelete r = none) :
    ∃ t', t.delete sel = .ok (t.count sel, t') := by
  have hf : (t.rows.filter (sel ·)).findSome? Schema.beforeDelete = none := by
    simpa [mem_def] using h
  unfold delete
  rw [hf]
  exact ⟨_, rfl⟩

/-- A table whose delete trigger always raises loses no row. -/
theorem delete_raises {sel : ρ → Prop} [DecidablePred sel] {t t' : Table ρ} {n : Nat}
    (h : t.delete sel = .ok (n, t')) {r : ρ} (hr : r ∈ t) (hs : sel r) :
    Schema.beforeDelete r = none := by
  unfold delete at h
  split at h
  · cases h
  · rename_i hf
    have hall : ∀ x ∈ t.rows.filter (sel ·), Schema.beforeDelete x = none := by simpa using hf
    exact hall r (List.mem_filter.mpr ⟨hr, by simpa using hs⟩)

end Table

end Licensecc.Sql
