-- The laws of fields. A text of fields has one line for each key, in the order
-- of the keys, and the line starts with the spelling of its key. The values
-- that are read are exactly those that the lines were written with.
import Licensecc.Codec.Lines

namespace Licensecc.Codec

variable {α κ : Type} [DecidableEq α] {nl : α}

/-- Why a text is not the fields of some keys. -/
inductive FieldError (κ : Type) where
  | missing (key : κ)
  | expected (key : κ)
  | invalid (key : κ)
  | trailing

/-- The value of a line that starts with a spelling. -/
def valueAfter (p line : List α) : Option (List α) :=
  if p.isPrefixOf line then some (line.drop p.length) else none

/-- The values of the fields of a text, one for each key. -/
def parseFields (nl : α) (spell : κ → List α) (bad : List α → Bool) :
    List κ → List α → Except (FieldError κ) (List (List α))
  | [], s => if s = [] then .ok [] else .error .trailing
  | key :: keys, s =>
    match takeLine nl s with
    | none => .error (.missing key)
    | some (line, rest) =>
      match valueAfter (spell key) line with
      | none => .error (.expected key)
      | some v =>
        if bad v then .error (.invalid key)
        else (parseFields nl spell bad keys rest).map (v :: ·)

/-- The lines of a text that have an end. -/
def endedLines (nl : α) (s : List α) : List (List α) := (s.splitOn nl).dropLast

/-- The value of the first ended line that starts with a spelling. -/
def firstField (nl : α) (p s : List α) : Option (List α) :=
  ((endedLines nl s).find? p.isPrefixOf).map (·.drop p.length)

/-! ## The values of a text of fields -/

theorem valueAfter_eq_some {p line v : List α} : valueAfter p line = some v ↔ line = p ++ v := by
  unfold valueAfter
  by_cases h : p.isPrefixOf line = true
  · obtain ⟨t, rfl⟩ := List.isPrefixOf_iff_prefix.mp h
    rw [if_pos h, List.drop_left, Option.some.injEq, List.append_cancel_left_eq]
  · rw [if_neg h]
    constructor
    · intro he
      cases he
    · rintro rfl
      exact absurd (List.isPrefixOf_iff_prefix.mpr (List.prefix_append p v)) h

@[simp] theorem valueAfter_append (p v : List α) : valueAfter p (p ++ v) = some v :=
  valueAfter_eq_some.mpr rfl

/-- The lines of some values. -/
def fieldLines (spell : κ → List α) (keys : List κ) (vs : List (List α)) : List (List α) :=
  keys.zipWith (fun key v => spell key ++ v) vs

omit [DecidableEq α] in
@[simp] theorem fieldLines_cons (spell : κ → List α) (key : κ) (keys : List κ) (v : List α)
    (vs : List (List α)) : fieldLines spell (key :: keys) (v :: vs) =
      (spell key ++ v) :: fieldLines spell keys vs := rfl

theorem parseFields_cons {spell : κ → List α} {bad : List α → Bool} {key : κ} {keys : List κ}
    {s : List α} {vs : List (List α)} : parseFields nl spell bad (key :: keys) s = .ok vs ↔
      ∃ v vs' rest, vs = v :: vs' ∧ nl ∉ spell key ++ v ∧ bad v = false ∧
        s = spell key ++ v ++ nl :: rest ∧ parseFields nl spell bad keys rest = .ok vs' := by
  conv => lhs; unfold parseFields
  constructor
  · intro h
    split at h
    · cases h
    rename_i line rest hline
    obtain ⟨hnl, rfl⟩ := takeLine_eq_some.mp hline
    split at h
    · cases h
    rename_i v hv
    obtain rfl := valueAfter_eq_some.mp hv
    split at h
    · cases h
    rename_i hbad
    cases hrest : parseFields nl spell bad keys rest with
    | error e =>
      rw [hrest] at h
      cases h
    | ok vs' =>
      rw [hrest] at h
      obtain rfl := Except.ok.inj h
      exact ⟨v, vs', rest, rfl, hnl, by simpa using hbad, rfl, hrest⟩
  · rintro ⟨v, vs', rest, rfl, hnl, hbad, rfl, hrest⟩
    have hline : takeLine nl (spell key ++ v ++ nl :: rest) = some (spell key ++ v, rest) :=
      takeLine_eq_some.mpr ⟨hnl, rfl⟩
    rw [hline]
    simp [hbad, hrest, Except.map]

/-- The values that are read are exactly those of the lines. -/
theorem parseFields_ok {spell : κ → List α} {bad : List α → Bool} {keys : List κ}
    (hkeys : ∀ key ∈ keys, nl ∉ spell key) {s : List α} {vs : List (List α)} :
    parseFields nl spell bad keys s = .ok vs ↔
      vs.length = keys.length ∧ (∀ v ∈ vs, nl ∉ v ∧ bad v = false) ∧
        s = unlines nl (fieldLines spell keys vs) := by
  induction keys generalizing s vs with
  | nil =>
    unfold parseFields
    by_cases hs : s = []
    · rw [if_pos hs]
      subst hs
      cases vs with
      | nil => simp [unlines, fieldLines]
      | cons v vs => simp
    · rw [if_neg hs]
      simp [unlines, fieldLines, hs]
  | cons key keys ih =>
    have hkey := hkeys key List.mem_cons_self
    have ih' := fun (s : List α) (vs : List (List α)) =>
      @ih (fun k hk => hkeys k (List.mem_cons_of_mem _ hk)) s vs
    rw [parseFields_cons]
    constructor
    · rintro ⟨v, vs', rest, rfl, hnl, hbad, rfl, hrest⟩
      obtain ⟨hlen, hvs, rfl⟩ := (ih' _ _).mp hrest
      refine ⟨by simp [hlen], ?_, by simp⟩
      intro w hw
      rcases List.mem_cons.mp hw with rfl | hw
      · exact ⟨fun h => hnl (List.mem_append_right _ h), hbad⟩
      · exact hvs w hw
    · rintro ⟨hlen, hvs, rfl⟩
      cases vs with
      | nil => cases hlen
      | cons v vs =>
        obtain ⟨hnl, hbad⟩ := hvs v List.mem_cons_self
        refine ⟨v, vs, _, rfl, ?_, hbad, by simp, (ih' _ _).mpr
          ⟨Nat.succ.inj hlen, fun w hw => hvs w (List.mem_cons_of_mem _ hw), rfl⟩⟩
        simp [hkey, hnl]

/-! ## The first field of a text -/

theorem endedLines_unlines {ls : List (List α)} (h : ∀ l ∈ ls, nl ∉ l) :
    endedLines nl (unlines nl ls) = ls := by
  unfold endedLines
  rw [splitOn_eq_lines.mpr ⟨h, rfl⟩, List.dropLast_concat]

omit [DecidableEq α] in
/-- No line has an end inside. -/
theorem not_mem_fieldLines {spell : κ → List α} {keys : List κ} {vs : List (List α)}
    (hkeys : ∀ key ∈ keys, nl ∉ spell key) (hvs : ∀ v ∈ vs, nl ∉ v) :
    ∀ l ∈ fieldLines spell keys vs, nl ∉ l := by
  induction keys generalizing vs with
  | nil => simp [fieldLines]
  | cons key keys ih =>
    cases vs with
    | nil => simp [fieldLines]
    | cons v vs =>
      intro l hl
      rw [fieldLines_cons] at hl
      rcases List.mem_cons.mp hl with rfl | hl
      · simp [hkeys key List.mem_cons_self, hvs v List.mem_cons_self]
      · exact ih (fun k hk => hkeys k (List.mem_cons_of_mem _ hk))
          (fun w hw => hvs w (List.mem_cons_of_mem _ hw)) l hl

theorem find_fieldLines {spell : κ → List α} {keys : List κ} {vs : List (List α)} {n : Nat}
    (hn : n < keys.length) (hlen : vs.length = keys.length)
    (hother : ∀ key ∈ keys.take n, ∀ v, (spell keys[n]).isPrefixOf (spell key ++ v) = false) :
    (fieldLines spell keys vs).find? (spell keys[n]).isPrefixOf =
      some (spell keys[n] ++ vs.getD n []) := by
  induction n generalizing keys vs with
  | zero =>
    obtain ⟨key, keys, rfl⟩ := List.exists_cons_of_length_pos hn
    obtain ⟨v, vs, rfl⟩ := List.exists_cons_of_length_pos (hlen ▸ hn)
    rw [fieldLines_cons]
    refine List.find?_cons_of_pos ?_
    exact List.isPrefixOf_iff_prefix.mpr (List.prefix_append _ v)
  | succ n ih =>
    obtain ⟨key, keys, rfl⟩ := List.exists_cons_of_length_pos (Nat.zero_lt_of_lt hn)
    obtain ⟨v, vs, rfl⟩ := List.exists_cons_of_length_pos (hlen ▸ Nat.zero_lt_of_lt hn)
    have hn' : n < keys.length := Nat.lt_of_succ_lt_succ hn
    simp only [List.getElem_cons_succ, List.getD_cons_succ, List.take_succ_cons] at hother ⊢
    rw [fieldLines_cons, List.find?_cons, hother key List.mem_cons_self v]
    exact ih hn' (Nat.succ.inj hlen) fun k hk => hother k (List.mem_cons_of_mem _ hk)

/-- A key that starts no line before its own finds its own value. -/
theorem firstField_fieldLines {spell : κ → List α} {keys : List κ} {vs : List (List α)} {n : Nat}
    (hn : n < keys.length) (hlen : vs.length = keys.length)
    (hkeys : ∀ key ∈ keys, nl ∉ spell key) (hvs : ∀ v ∈ vs, nl ∉ v)
    (hother : ∀ key ∈ keys.take n, ∀ v, (spell keys[n]).isPrefixOf (spell key ++ v) = false) :
    firstField nl (spell keys[n]) (unlines nl (fieldLines spell keys vs)) =
      some (vs.getD n []) := by
  unfold firstField
  rw [endedLines_unlines (not_mem_fieldLines hkeys hvs), find_fieldLines hn hlen hother]
  simp

end Licensecc.Codec
