-- The grammar of JSON texts: which text is one of a value, with white space, with
-- every escape and with every spelling of a number. The reader takes texts of
-- the grammar only.
import Licensecc.Codec.JsonText

namespace Licensecc.Codec

/-- White space. -/
def Blank (s : List Char) : Prop := s.all isJsonSpace = true

/-- The characters between two quotes, and the text that they stand for. -/
inductive StringBody : List Char → JsText → Prop
  | nil : StringBody [] []
  | char {c : Char} {s : List Char} {t : JsText} : 32 ≤ c.toNat → c ≠ '\"' → c ≠ '\\' →
      StringBody s t → StringBody (c :: s) ((CodePoint.char c).units ++ t)
  | short {e : Char} {u : UInt16} {s : List Char} {t : JsText} : escapedUnit? e = some u →
      StringBody s t → StringBody ('\\' :: e :: s) (u :: t)
  | hex {a b c d : Char} {u : UInt16} {s : List Char} {t : JsText} : hexUnit? a b c d = some u →
      StringBody s t → StringBody ('\\' :: 'u' :: a :: b :: c :: d :: s) (u :: t)

/-- What a part of a text stands for: a value, a value with white space around it,
the items of an array, a member or the members of an object. -/
inductive Part where
  | value (v : Json.Tree)
  | element (v : Json.Tree)
  | items (l : List Json.Tree)
  | member (m : JsText × Json.Tree)
  | members (l : List (JsText × Json.Tree))

/-- The text spells the part. -/
inductive Spells : List Char → Part → Prop
  | null : Spells "null".toList (.value .null)
  | true : Spells "true".toList (.value (.bool Bool.true))
  | false : Spells "false".toList (.value (.bool Bool.false))
  | number (n : NumberToken) : Spells n.val (.value (.number n))
  | string {s : List Char} {t : JsText} : StringBody s t →
      Spells ('\"' :: (s ++ ['\"'])) (.value (.string t))
  | emptyArray {w : List Char} : Blank w → Spells ('[' :: (w ++ [']'])) (.value (.array []))
  | array {s : List Char} {l : List Json.Tree} : Spells s (.items l) →
      Spells ('[' :: (s ++ [']'])) (.value (.array l))
  | emptyObject {w : List Char} : Blank w → Spells ('\x7b' :: (w ++ ['\x7d'])) (.value (.object []))
  | object {s : List Char} {l : List (JsText × Json.Tree)} : Spells s (.members l) →
      Spells ('\x7b' :: (s ++ ['\x7d'])) (.value (.object l))
  | element {w s w' : List Char} {v : Json.Tree} : Blank w → Blank w' → Spells s (.value v) →
      Spells (w ++ (s ++ w')) (.element v)
  | item {s : List Char} {v : Json.Tree} : Spells s (.element v) → Spells s (.items [v])
  | items {s r : List Char} {v : Json.Tree} {l : List Json.Tree} : Spells s (.element v) →
      Spells r (.items l) → Spells (s ++ ',' :: r) (.items (v :: l))
  | named {w n w' s : List Char} {name : JsText} {v : Json.Tree} : Blank w → StringBody n name →
      Blank w' → Spells s (.element v) →
      Spells (w ++ '\"' :: (n ++ '\"' :: (w' ++ ':' :: s))) (.member (name, v))
  | member {s : List Char} {m : JsText × Json.Tree} : Spells s (.member m) → Spells s (.members [m])
  | members {s r : List Char} {m : JsText × Json.Tree} {l : List (JsText × Json.Tree)} :
      Spells s (.member m) → Spells r (.members l) → Spells (s ++ ',' :: r) (.members (m :: l))

/-! ## White space -/

theorem blank_nil : Blank [] := rfl

theorem Blank.append {w w' : List Char} (h : Blank w) (h' : Blank w') : Blank (w ++ w') := by
  unfold Blank
  rw [List.all_append, h, h']
  rfl

theorem blank_takeWhile (s : List Char) : Blank (s.takeWhile isJsonSpace) :=
  List.all_eq_true.mpr fun _ hc => List.mem_takeWhile_imp hc

/-- A text is its white space and what follows. -/
theorem space_append (s : List Char) :
    s = s.takeWhile isJsonSpace ++ s.dropWhile isJsonSpace := List.takeWhile_append_dropWhile.symm

theorem dropWhile_blank {w r : List Char} (h : Blank w) :
    (w ++ r).dropWhile isJsonSpace = r.dropWhile isJsonSpace :=
  List.dropWhile_append_of_pos (List.all_eq_true.mp h)

/-- White space after a part is of an element. -/
theorem Spells.element_append {s w : List Char} {v : Json.Tree} (h : Spells s (.element v))
    (hw : Blank w) : Spells (s ++ w) (.element v) := by
  cases h with
  | @element w₁ s w₂ v h₁ h₂ h =>
    rw [List.append_assoc, List.append_assoc]
    exact .element h₁ (h₂.append hw) h

theorem Spells.member_append {s w : List Char} {m : JsText × Json.Tree} (h : Spells s (.member m))
    (hw : Blank w) : Spells (s ++ w) (.member m) := by
  cases h with
  | @named w₁ n w₂ s name v h₁ hn h₂ h =>
    simp only [List.append_assoc, List.cons_append]
    exact .named h₁ hn h₂ (h.element_append hw)

/-- White space before a part is of an element. -/
theorem Spells.element_prepend {s w : List Char} {v : Json.Tree} (h : Spells s (.element v))
    (hw : Blank w) : Spells (w ++ s) (.element v) := by
  cases h with
  | @element w₁ s w₂ v h₁ h₂ h =>
    rw [← List.append_assoc]
    exact .element (hw.append h₁) h₂ h

theorem Spells.items_prepend {s w : List Char} {l : List Json.Tree} (h : Spells s (.items l))
    (hw : Blank w) : Spells (w ++ s) (.items l) := by
  cases h with
  | item h => exact .item (h.element_prepend hw)
  | items h hr =>
    rw [← List.append_assoc]
    exact .items (h.element_prepend hw) hr

theorem Spells.member_prepend {s w : List Char} {m : JsText × Json.Tree} (h : Spells s (.member m))
    (hw : Blank w) : Spells (w ++ s) (.member m) := by
  cases h with
  | named h₁ hn h₂ h =>
    rw [← List.append_assoc]
    exact .named (hw.append h₁) hn h₂ h

theorem Spells.members_prepend {s w : List Char} {l : List (JsText × Json.Tree)}
    (h : Spells s (.members l)) (hw : Blank w) : Spells (w ++ s) (.members l) := by
  cases h with
  | member h => exact .member (h.member_prepend hw)
  | members h hr =>
    rw [← List.append_assoc]
    exact .members (h.member_prepend hw) hr

/-! ## What the reader takes is of the grammar -/

theorem stringBody_of_readString {s r : List Char} {t : JsText} (h : readString s = some (t, r)) :
    ∃ b, StringBody b t ∧ s = b ++ '\"' :: r := by
  fun_induction readString s generalizing t with
  | case1 s =>
    obtain ⟨rfl, rfl⟩ := Prod.mk.inj (Option.some.inj h)
    exact ⟨[], .nil, rfl⟩
  | case2 a b c d s u hu ih =>
    obtain ⟨⟨t', r'⟩, hs, hpair⟩ := Option.map_eq_some_iff.mp h
    obtain ⟨rfl, rfl⟩ := Prod.mk.inj hpair
    obtain ⟨body, hbody, rfl⟩ := ih hs
    exact ⟨_, .hex hu hbody, rfl⟩
  | case3 a b c d s hu => cases h
  | case4 e s hne u hu ih =>
    obtain ⟨⟨t', r'⟩, hs, hpair⟩ := Option.map_eq_some_iff.mp h
    obtain ⟨rfl, rfl⟩ := Prod.mk.inj hpair
    obtain ⟨body, hbody, rfl⟩ := ih hs
    exact ⟨_, .short hu hbody, rfl⟩
  | case5 e s hne hu => cases h
  | case6 c s hquote hhex hshort hc => cases h
  | case7 c s hquote hhex hshort hc ih =>
    obtain ⟨⟨t', r'⟩, hs, hpair⟩ := Option.map_eq_some_iff.mp h
    obtain ⟨rfl, rfl⟩ := Prod.mk.inj hpair
    obtain ⟨body, hbody, rfl⟩ := ih hs
    rw [not_or, Nat.not_lt] at hc
    exact ⟨_, .char hc.1 hquote hc.2 hbody, rfl⟩
  | case8 => cases h

/-- A short escape is none of the quote, the backslash and the letter of the long one. -/
theorem escapedUnit?_u {e : Char} {u : UInt16} (h : escapedUnit? e = some u) : e ≠ 'u' := by
  rintro rfl
  cases h

theorem hexDigit?_plain {c : Char} {n : Nat} (h : hexDigit? c = some n) : c ≠ '\"' ∧ c ≠ '\\' := by
  constructor
  · rintro rfl
    cases h
  · rintro rfl
    cases h

/-- The digits of an escape are none of the quote and the backslash. -/
theorem hexUnit?_plain {a b c d : Char} {u : UInt16} (h : hexUnit? a b c d = some u) :
    ∀ x ∈ [a, b, c, d], x ≠ '\"' ∧ x ≠ '\\' := by
  unfold hexUnit? at h
  split at h
  · rename_i ha hb hc hd
    simp only [List.forall_mem_cons]
    exact ⟨hexDigit?_plain ha, hexDigit?_plain hb, hexDigit?_plain hc, hexDigit?_plain hd, by simp⟩
  · cases h

/-- The reader at a character that stands for itself, or at a control character. -/
theorem readString_char {c : Char} {s : List Char} (hquote : c ≠ '\"') (hback : c ≠ '\\') :
    readString (c :: s) = if c.toNat < 32 then none
      else (readString s).map fun p => ((CodePoint.char c).units ++ p.1, p.2) := by
  conv => lhs; unfold readString
  split
  · rename_i heq
    exact absurd (List.cons.inj heq).1 hquote
  · rename_i heq
    exact absurd (List.cons.inj heq).1 hback
  · rename_i heq
    exact absurd (List.cons.inj heq).1 hback
  · rename_i heq
    obtain ⟨rfl, rfl⟩ := List.cons.inj heq
    simp only [hback, or_false]
  · rename_i heq
    cases heq

/-- The reader at an escape of one character. -/
theorem readString_short {e : Char} {s : List Char} (hu : e ≠ 'u') :
    readString ('\\' :: e :: s) =
      (escapedUnit? e).bind fun u => (readString s).map fun p => (u :: p.1, p.2) := by
  conv => lhs; unfold readString
  split
  · rename_i heq
    cases heq
  · rename_i heq
    exact absurd (List.cons.inj (List.cons.inj heq).2).1 hu
  · rename_i heq
    obtain ⟨rfl, rfl⟩ := List.cons.inj (List.cons.inj heq).2
    cases escapedUnit? e with
    | none => rfl
    | some u => rfl
  · rename_i heq
    obtain ⟨rfl, rfl⟩ := List.cons.inj heq
    rename_i hshort
    exact (hshort _ _ rfl rfl).elim
  · rename_i heq
    cases heq

/-- The reader takes the characters between two quotes. -/
theorem readString_of_stringBody {b : List Char} {t : JsText} (h : StringBody b t)
    (r : List Char) : readString (b ++ '\"' :: r) = some (t, r) := by
  induction h with
  | nil => rfl
  | char hlow hquote hback hs ih =>
    rw [List.cons_append, readString_char hquote hback, if_neg (Nat.not_lt.mpr hlow), ih]
    rfl
  | short hu hs ih =>
    rw [List.cons_append, List.cons_append, readString_short (escapedUnit?_u hu), hu,
      Option.bind_some, ih]
    rfl
  | @hex a b c d u s t hu hs ih =>
    simp only [List.cons_append, readString, hu, ih]
    rfl

theorem spells_of_readWord {s r : List Char} {v : Json.Tree} (h : readWord s = some (v, r)) :
    ∃ w, s = w ++ r ∧ Spells w (.value v) := by
  have hsplit : s = s.takeWhile isWordChar ++ s.dropWhile isWordChar :=
    List.takeWhile_append_dropWhile.symm
  unfold readWord at h
  dsimp only at h
  split at h
  · rename_i hword
    obtain ⟨rfl, rfl⟩ := Prod.mk.inj (Option.some.inj h)
    exact ⟨_, hsplit, hword ▸ .null⟩
  split at h
  · rename_i hword
    obtain ⟨rfl, rfl⟩ := Prod.mk.inj (Option.some.inj h)
    exact ⟨_, hsplit, hword ▸ .true⟩
  split at h
  · rename_i hword
    obtain ⟨rfl, rfl⟩ := Prod.mk.inj (Option.some.inj h)
    exact ⟨_, hsplit, hword ▸ .false⟩
  split at h
  · rename_i hword
    obtain ⟨rfl, rfl⟩ := Prod.mk.inj (Option.some.inj h)
    exact ⟨_, hsplit, .number ⟨_, hword⟩⟩
  · cases h

/-- What each reader takes, within some number of calls, is of the grammar. -/
structure ReadsGrammar (n : Nat) : Prop where
  value : ∀ {s r : List Char} {v : Json.Tree}, readValue n s = some (v, r) →
    ∃ w t, Blank w ∧ s = w ++ (t ++ r) ∧ Spells t (.value v)
  items : ∀ {s r : List Char} {l : List Json.Tree}, readItems n s = some (l, r) →
    ∃ t, s = t ++ ']' :: r ∧ Spells t (.items l)
  member : ∀ {s r : List Char} {m : JsText × Json.Tree}, readMember n s = some (m, r) →
    ∃ t, s = t ++ r ∧ Spells t (.member m)
  members : ∀ {s r : List Char} {l : List (JsText × Json.Tree)}, readMembers n s = some (l, r) →
    ∃ t, s = t ++ '\x7d' :: r ∧ Spells t (.members l)

theorem readsGrammar_value {n : Nat} (ih : ReadsGrammar n) {s r : List Char} {v : Json.Tree}
    (h : readValue (n + 1) s = some (v, r)) :
    ∃ w t, Blank w ∧ s = w ++ (t ++ r) ∧ Spells t (.value v) := by
  have hspace := space_append s
  have hblank := blank_takeWhile s
  unfold readValue at h
  split at h
  · rename_i r' hs
    obtain ⟨⟨t, after⟩, hread, hpair⟩ := Option.map_eq_some_iff.mp h
    obtain ⟨rfl, rfl⟩ := Prod.mk.inj hpair
    obtain ⟨body, hbody, rfl⟩ := stringBody_of_readString hread
    refine ⟨_, _, hblank, ?_, .string hbody⟩
    rw [hs] at hspace
    simpa using hspace
  · rename_i r' hs
    rw [hs] at hspace
    have hinner := space_append r'
    split at h
    · rename_i after hclose
      obtain ⟨rfl, rfl⟩ := Prod.mk.inj (Option.some.inj h)
      rw [hclose] at hinner
      refine ⟨_, _, hblank, ?_, .emptyArray (blank_takeWhile r')⟩
      conv at hspace => rhs; rw [hinner]
      simpa using hspace
    · obtain ⟨⟨l, after⟩, hread, hpair⟩ := Option.map_eq_some_iff.mp h
      obtain ⟨rfl, rfl⟩ := Prod.mk.inj hpair
      obtain ⟨t, ht, hitems⟩ := ih.items hread
      rw [ht] at hinner
      refine ⟨_, _, hblank, ?_, .array (hitems.items_prepend (blank_takeWhile r'))⟩
      conv at hspace => rhs; rw [hinner]
      simpa using hspace
  · rename_i r' hs
    rw [hs] at hspace
    have hinner := space_append r'
    split at h
    · rename_i after hclose
      obtain ⟨rfl, rfl⟩ := Prod.mk.inj (Option.some.inj h)
      rw [hclose] at hinner
      refine ⟨_, _, hblank, ?_, .emptyObject (blank_takeWhile r')⟩
      conv at hspace => rhs; rw [hinner]
      simpa using hspace
    · obtain ⟨⟨l, after⟩, hread, hpair⟩ := Option.map_eq_some_iff.mp h
      obtain ⟨rfl, rfl⟩ := Prod.mk.inj hpair
      obtain ⟨t, ht, hmembers⟩ := ih.members hread
      rw [ht] at hinner
      refine ⟨_, _, hblank, ?_, .object (hmembers.members_prepend (blank_takeWhile r'))⟩
      conv at hspace => rhs; rw [hinner]
      simpa using hspace
  · obtain ⟨t, ht, hspells⟩ := spells_of_readWord h
    rw [ht] at hspace
    exact ⟨_, t, hblank, hspace, hspells⟩

theorem readsGrammar_items {n : Nat} (ih : ReadsGrammar n) {s r : List Char} {l : List Json.Tree}
    (h : readItems (n + 1) s = some (l, r)) : ∃ t, s = t ++ ']' :: r ∧ Spells t (.items l) := by
  unfold readItems at h
  split at h
  · cases h
  rename_i x after hread
  obtain ⟨w, t, hw, rfl, ht⟩ := ih.value hread
  have hspace := space_append after
  have helement := Spells.element hw (blank_takeWhile after) ht
  split at h
  · rename_i r' hr
    obtain ⟨rfl, rfl⟩ := Prod.mk.inj (Option.some.inj h)
    rw [hr] at hspace
    refine ⟨_, ?_, .item helement⟩
    conv => lhs; rw [hspace]
    simp
  · rename_i r' hr
    obtain ⟨⟨l', after'⟩, hrest, hpair⟩ := Option.map_eq_some_iff.mp h
    obtain ⟨rfl, rfl⟩ := Prod.mk.inj hpair
    obtain ⟨t', rfl, ht'⟩ := ih.items hrest
    rw [hr] at hspace
    refine ⟨_, ?_, .items helement ht'⟩
    conv => lhs; rw [hspace]
    simp
  · cases h

theorem readsGrammar_member {n : Nat} (ih : ReadsGrammar n) {s r : List Char}
    {m : JsText × Json.Tree} (h : readMember (n + 1) s = some (m, r)) :
    ∃ t, s = t ++ r ∧ Spells t (.member m) := by
  have hspace := space_append s
  have hblank := blank_takeWhile s
  unfold readMember at h
  split at h
  · rename_i r' hs
    rw [hs] at hspace
    split at h
    · cases h
    rename_i name after hread
    obtain ⟨body, hbody, rfl⟩ := stringBody_of_readString hread
    have hinner := space_append after
    split at h
    · rename_i r'' hcolon
      obtain ⟨⟨v, after'⟩, hvalue, hpair⟩ := Option.map_eq_some_iff.mp h
      obtain ⟨rfl, rfl⟩ := Prod.mk.inj hpair
      obtain ⟨w, t, hw, rfl, ht⟩ := ih.value hvalue
      rw [hcolon] at hinner
      have helement : Spells (w ++ (t ++ [])) (.element v) := .element hw blank_nil ht
      refine ⟨_, ?_, .named hblank hbody (blank_takeWhile after) helement⟩
      conv at hspace => rhs; rw [hinner]
      simpa using hspace
    · cases h
  · cases h

theorem readsGrammar_members {n : Nat} (ih : ReadsGrammar n) {s r : List Char}
    {l : List (JsText × Json.Tree)} (h : readMembers (n + 1) s = some (l, r)) :
    ∃ t, s = t ++ '\x7d' :: r ∧ Spells t (.members l) := by
  unfold readMembers at h
  split at h
  · cases h
  rename_i m after hread
  obtain ⟨t, rfl, ht⟩ := ih.member hread
  have hspace := space_append after
  have hmember := ht.member_append (blank_takeWhile after)
  split at h
  · rename_i r' hr
    obtain ⟨rfl, rfl⟩ := Prod.mk.inj (Option.some.inj h)
    rw [hr] at hspace
    refine ⟨_, ?_, .member hmember⟩
    conv => lhs; rw [hspace]
    simp
  · rename_i r' hr
    obtain ⟨⟨l', after'⟩, hrest, hpair⟩ := Option.map_eq_some_iff.mp h
    obtain ⟨rfl, rfl⟩ := Prod.mk.inj hpair
    obtain ⟨t', rfl, ht'⟩ := ih.members hrest
    rw [hr] at hspace
    refine ⟨_, ?_, .members hmember ht'⟩
    conv => lhs; rw [hspace]
    simp
  · cases h

theorem readsGrammar (n : Nat) : ReadsGrammar n := by
  induction n with
  | zero =>
    refine ⟨fun h => ?_, fun h => ?_, fun h => ?_, fun h => ?_⟩
    · cases h
    · cases h
    · cases h
    · cases h
  | succ n ih =>
    exact ⟨fun h => readsGrammar_value ih h, fun h => readsGrammar_items ih h,
      fun h => readsGrammar_member ih h, fun h => readsGrammar_members ih h⟩

/-- A text that is parsed spells its value. -/
theorem spells_of_parseJson {s : List Char} {v : Json.Tree} (h : parseJson s = some v) :
    Spells s (.element v) := by
  unfold parseJson at h
  split at h
  · rename_i v' r hread
    split at h
    · rename_i hblank
      obtain rfl := Option.some.inj h
      obtain ⟨w, t, hw, rfl, ht⟩ := (readsGrammar _).value hread
      exact .element hw hblank ht
    · cases h
  · cases h

end Licensecc.Codec
