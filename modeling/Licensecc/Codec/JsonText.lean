-- The texts of JSON values. `JSON.stringify` writes one and `JSON.parse` reads one, with
-- white space, with every escape and with every spelling of a number. A value is read
-- back from its text, whatever follows it, so no two values have one text.
import Licensecc.Codec.JsNumber
import Licensecc.Codec.JsonValue

namespace Licensecc.Codec

/-! ## Numbers -/

/-- The digits of an exponent, with its sign. -/
def isExponent : List Char → Bool
  | '+' :: ds => ds ≠ [] && ds.all Char.isDigit
  | '-' :: ds => ds ≠ [] && ds.all Char.isDigit
  | ds => ds ≠ [] && ds.all Char.isDigit

/-- What can follow the digits of the fraction. -/
def isExponentPart : List Char → Bool
  | [] => true
  | 'e' :: r => isExponent r
  | 'E' :: r => isExponent r
  | _ => false

/-- What can follow the integer of a number. -/
def isFractionPart : List Char → Bool
  | '.' :: r => r.takeWhile Char.isDigit ≠ [] && isExponentPart (r.dropWhile Char.isDigit)
  | r => isExponentPart r

def isUnsigned (s : List Char) : Bool :=
  isNumeral (s.takeWhile Char.isDigit) && isFractionPart (s.dropWhile Char.isDigit)

/-- The number token of the JSON grammar. -/
def isNumberToken : List Char → Bool
  | '-' :: s => isUnsigned s
  | s => isUnsigned s

/-- A number as it is written. -/
abbrev NumberToken := { s : List Char // isNumberToken s = true }

/-- The values as they are written. -/
abbrev Json.Tree := JsonValue NumberToken

/-- A character of a literal or of a number. -/
def isWordChar (c : Char) : Bool := c.isAlphanum || c = '-' || c = '+' || c = '.'

/-- A character of a number. -/
def isNumberUnit (c : Char) : Bool :=
  c.isDigit || c = 'e' || c = 'E' || c = '+' || c = '.' || c = '-'

def isJsonSpace (c : Char) : Bool := c = ' ' || c = '\t' || c = '\n' || c = '\r'

/-! ## Writing -/

/-- A code point in a quoted text. -/
def CodePoint.escape : CodePoint → List Char
  | .char c => escapeChar c
  | .lone u =>
    let n := u.toNat
    ['\\', 'u', hexDigit (n / 4096), hexDigit (n / 256 % 16), hexDigit (n / 16 % 16), hexDigit (n % 16)]

/-- `JSON.stringify` of a text. -/
def quoteText (s : JsText) : List Char :=
  '\"' :: (codePoints s).flatMap CodePoint.escape ++ ['\"']

theorem quoteText_ofChars (s : List Char) : quoteText (ofChars s) = quote s := by
  unfold quoteText quote
  rw [codePoints_ofChars, List.flatMap_map]
  rfl

mutual

/-- `JSON.stringify` -/
def JsonValue.stringify : Json.Tree → List Char
  | .null => "null".toList
  | .bool b => if b then "true".toList else "false".toList
  | .number n => n.val
  | .string s => quoteText s
  | .array [] => ['[', ']']
  | .array (x :: l) => '[' :: (x.stringify ++ itemsText l)
  | .object [] => ['\x7b', '\x7d']
  | .object (m :: l) => '\x7b' :: (memberText m ++ membersText l)

/-- The rest of an array. -/
def itemsText : List Json.Tree → List Char
  | [] => [']']
  | x :: l => ',' :: (x.stringify ++ itemsText l)

def memberText : JsText × Json.Tree → List Char
  | (name, v) => quoteText name ++ ':' :: v.stringify

/-- The rest of an object. -/
def membersText : List (JsText × Json.Tree) → List Char
  | [] => ['\x7d']
  | m :: l => ',' :: (memberText m ++ membersText l)

end

/-! ## Reading -/

def hexDigit? (c : Char) : Option Nat :=
  if c.isDigit then some (c.toNat - 48)
  else if 'a' ≤ c ∧ c ≤ 'f' then some (c.toNat - 87)
  else if 'A' ≤ c ∧ c ≤ 'F' then some (c.toNat - 55)
  else none

def hexUnit? (a b c d : Char) : Option UInt16 :=
  match hexDigit? a, hexDigit? b, hexDigit? c, hexDigit? d with
  | some a, some b, some c, some d => some (UInt16.ofNat (a * 4096 + b * 256 + c * 16 + d))
  | _, _, _, _ => none

/-- The unit of a short escape. -/
def escapedUnit? : Char → Option UInt16
  | '\"' => some (unit '\"')
  | '\\' => some (unit '\\')
  | '/' => some (unit '/')
  | 'b' => some (unit '\x08')
  | 'f' => some (unit '\x0c')
  | 'n' => some (unit '\n')
  | 'r' => some (unit '\r')
  | 't' => some (unit '\t')
  | _ => none

/-- The rest of a quoted text, and what follows it. -/
def readString : List Char → Option (JsText × List Char)
  | '\"' :: r => some ([], r)
  | '\\' :: 'u' :: a :: b :: c :: d :: r =>
    match hexUnit? a b c d with
    | some u => (readString r).map fun p => (u :: p.1, p.2)
    | none => none
  | '\\' :: e :: r =>
    match escapedUnit? e with
    | some u => (readString r).map fun p => (u :: p.1, p.2)
    | none => none
  | c :: r =>
    if c.toNat < 32 ∨ c = '\\' then none
    else (readString r).map fun p => ((CodePoint.char c).units ++ p.1, p.2)
  | [] => none

/-- A literal or a number. -/
def readWord (s : List Char) : Option (Json.Tree × List Char) :=
  let word := s.takeWhile isWordChar
  let rest := s.dropWhile isWordChar
  if word = "null".toList then some (.null, rest)
  else if word = "true".toList then some (.bool true, rest)
  else if word = "false".toList then some (.bool false, rest)
  else if h : isNumberToken word = true then some (.number ⟨word, h⟩, rest)
  else none

mutual

/-- One value, and what follows it. The number bounds the depth of the calls. -/
def readValue : Nat → List Char → Option (Json.Tree × List Char)
  | 0, _ => none
  | n + 1, s =>
    match s.dropWhile isJsonSpace with
    | '\"' :: r => (readString r).map fun p => (.string p.1, p.2)
    | '[' :: r =>
      match r.dropWhile isJsonSpace with
      | ']' :: r => some (.array [], r)
      | r => (readItems n r).map fun p => (.array p.1, p.2)
    | '\x7b' :: r =>
      match r.dropWhile isJsonSpace with
      | '\x7d' :: r => some (.object [], r)
      | r => (readMembers n r).map fun p => (.object p.1, p.2)
    | r => readWord r

def readItems : Nat → List Char → Option (List Json.Tree × List Char)
  | 0, _ => none
  | n + 1, s =>
    match readValue n s with
    | none => none
    | some (x, r) =>
      match r.dropWhile isJsonSpace with
      | ']' :: r => some ([x], r)
      | ',' :: r => (readItems n r).map fun p => (x :: p.1, p.2)
      | _ => none

def readMember : Nat → List Char → Option ((JsText × Json.Tree) × List Char)
  | 0, _ => none
  | n + 1, s =>
    match s.dropWhile isJsonSpace with
    | '\"' :: r =>
      match readString r with
      | none => none
      | some (name, r) =>
        match r.dropWhile isJsonSpace with
        | ':' :: r => (readValue n r).map fun p => ((name, p.1), p.2)
        | _ => none
    | _ => none

def readMembers : Nat → List Char → Option (List (JsText × Json.Tree) × List Char)
  | 0, _ => none
  | n + 1, s =>
    match readMember n s with
    | none => none
    | some (m, r) =>
      match r.dropWhile isJsonSpace with
      | '\x7d' :: r => some ([m], r)
      | ',' :: r => (readMembers n r).map fun p => (m :: p.1, p.2)
      | _ => none

end

/-- `JSON.parse`, before it makes objects of the members. No text needs more calls. -/
def parseJson (s : List Char) : Option Json.Tree :=
  match readValue (3 * s.length) s with
  | some (v, r) => if r.all isJsonSpace then some v else none
  | none => none

/-! ## The characters of a number -/

theorem isNumberUnit_of_isDigit {c : Char} (h : c.isDigit = true) : isNumberUnit c = true := by
  unfold isNumberUnit
  simp [h]

theorem digits_units {s : List Char} (h : s.all Char.isDigit = true) :
    ∀ c ∈ s, isNumberUnit c = true := by
  intro c hc
  exact isNumberUnit_of_isDigit (List.all_eq_true.mp h c hc)

theorem isExponent_units {s : List Char} (h : isExponent s = true) :
    ∀ c ∈ s, isNumberUnit c = true := by
  unfold isExponent at h
  split at h
  · rw [Bool.and_eq_true] at h
    exact List.forall_mem_cons.mpr ⟨by decide, digits_units h.2⟩
  · rw [Bool.and_eq_true] at h
    exact List.forall_mem_cons.mpr ⟨by decide, digits_units h.2⟩
  · rw [Bool.and_eq_true] at h
    exact digits_units h.2

theorem isExponentPart_units {s : List Char} (h : isExponentPart s = true) :
    ∀ c ∈ s, isNumberUnit c = true := by
  unfold isExponentPart at h
  split at h
  · simp
  · exact List.forall_mem_cons.mpr ⟨by decide, isExponent_units h⟩
  · exact List.forall_mem_cons.mpr ⟨by decide, isExponent_units h⟩
  · cases h

/-- The digits at the front are of a number when the rest is. -/
theorem units_of_dropWhile {s : List Char}
    (h : ∀ c ∈ s.dropWhile Char.isDigit, isNumberUnit c = true) :
    ∀ c ∈ s, isNumberUnit c = true := by
  intro c hc
  rw [← List.takeWhile_append_dropWhile (p := Char.isDigit) (l := s)] at hc
  rcases List.mem_append.mp hc with hc | hc
  · exact isNumberUnit_of_isDigit (List.mem_takeWhile_imp hc)
  · exact h c hc

theorem isFractionPart_units {s : List Char} (h : isFractionPart s = true) :
    ∀ c ∈ s, isNumberUnit c = true := by
  unfold isFractionPart at h
  split at h
  · rw [Bool.and_eq_true] at h
    exact List.forall_mem_cons.mpr ⟨by decide, units_of_dropWhile (isExponentPart_units h.2)⟩
  · exact isExponentPart_units h

theorem isUnsigned_units {s : List Char} (h : isUnsigned s = true) :
    ∀ c ∈ s, isNumberUnit c = true := by
  unfold isUnsigned at h
  rw [Bool.and_eq_true] at h
  exact units_of_dropWhile (isFractionPart_units h.2)

/-- A number begins with a digit. -/
theorem isUnsigned_head {s : List Char} (h : isUnsigned s = true) :
    ∃ c t, s = c :: t ∧ c.isDigit = true := by
  unfold isUnsigned at h
  rw [Bool.and_eq_true] at h
  have hne := (isNumeral_iff.mp h.1).1
  cases s with
  | nil => exact absurd rfl hne
  | cons c t =>
    refine ⟨c, t, rfl, ?_⟩
    by_contra hc
    exact hne (List.takeWhile_cons_of_neg hc)

theorem isNumberToken_cases {s : List Char} (h : isNumberToken s = true) :
    (∃ t, s = '-' :: t ∧ isUnsigned t = true) ∨ isUnsigned s = true := by
  unfold isNumberToken at h
  split at h
  · exact .inl ⟨_, rfl, h⟩
  · exact .inr h

theorem isNumberToken_units {s : List Char} (h : isNumberToken s = true) :
    ∀ c ∈ s, isNumberUnit c = true := by
  rcases isNumberToken_cases h with ⟨t, rfl, ht⟩ | hs
  · exact List.forall_mem_cons.mpr ⟨by decide, isUnsigned_units ht⟩
  · exact isUnsigned_units hs

/-- A number token begins with a minus or with a digit. -/
theorem isNumberToken_head {s : List Char} (h : isNumberToken s = true) :
    ∃ c t, s = c :: t ∧ (c = '-' ∨ c.isDigit = true) := by
  rcases isNumberToken_cases h with ⟨t, rfl, -⟩ | hs
  · exact ⟨_, _, rfl, Or.inl rfl⟩
  · obtain ⟨c, t, hs, hc⟩ := isUnsigned_head hs
    exact ⟨c, t, hs, Or.inr hc⟩

theorem isWordChar_of_isNumberUnit {c : Char} (h : isNumberUnit c = true) :
    isWordChar c = true := by
  unfold isNumberUnit at h
  simp only [Bool.or_eq_true, decide_eq_true_eq] at h
  rcases h with ((((h | rfl) | rfl) | rfl) | rfl) | rfl
  · unfold isWordChar Char.isAlphanum
    simp [h]
  · decide
  · decide
  · decide
  · decide
  · decide

theorem isNumberToken_wordChars {s : List Char} (h : isNumberToken s = true) :
    ∀ c ∈ s, isWordChar c = true := by
  intro c hc
  exact isWordChar_of_isNumberUnit (isNumberToken_units h c hc)

theorem isNumberToken_numeral {s : List Char} (h : isNumeral s = true) :
    isNumberToken s = true ∧ isNumberToken ('-' :: s) = true := by
  obtain ⟨hne, hdigits, -⟩ := isNumeral_iff.mp h
  have hunsigned : isUnsigned s = true := by
    unfold isUnsigned
    rw [List.takeWhile_eq_self_iff.mpr hdigits, List.dropWhile_eq_nil_iff.mpr hdigits, h]
    rfl
  refine ⟨?_, hunsigned⟩
  unfold isNumberToken
  split
  · exact absurd (hdigits '-' List.mem_cons_self) (by decide)
  · exact hunsigned

theorem isNumberToken_numberText (n : Int) : isNumberToken (numberText n) = true := by
  cases n with
  | ofNat n => exact (isNumberToken_numeral (isNumeral_toDigits _)).1
  | negSucc n => exact (isNumberToken_numeral (isNumeral_toDigits _)).2

/-! ## Reading what was written -/

theorem hexDigit?_hexDigit {n : Nat} (h : n < 16) : hexDigit? (hexDigit n) = some n := by
  have hall : ∀ n < 16, hexDigit? (hexDigit n) = some n := by decide
  exact hall n h

/-- The reader of a quoted text takes one code point. -/
theorem readString_escape (p : CodePoint) (r : List Char) :
    readString (p.escape ++ r) = (readString r).map fun q => (p.units ++ q.1, q.2) := by
  cases p with
  | lone u =>
    have hlt := u.toNat_lt
    have hsum : u.toNat / 4096 * 4096 + u.toNat / 256 % 16 * 256 + u.toNat / 16 % 16 * 16 +
        u.toNat % 16 = u.toNat := by omega
    simp only [CodePoint.escape, List.cons_append, List.nil_append, readString, hexUnit?,
      hexDigit?_hexDigit (show u.toNat / 4096 < 16 by omega),
      hexDigit?_hexDigit (show u.toNat / 256 % 16 < 16 by omega),
      hexDigit?_hexDigit (show u.toNat / 16 % 16 < 16 by omega),
      hexDigit?_hexDigit (show u.toNat % 16 < 16 by omega), hsum, UInt16.ofNat_toNat]
    rfl
  | char c =>
    simp only [CodePoint.escape]
    unfold escapeChar
    split_ifs with h1 h2 h3 h4 h5 h6 h7 h8
    · subst h1
      rfl
    · subst h2
      rfl
    · subst h3
      rfl
    · subst h4
      rfl
    · subst h5
      rfl
    · subst h6
      rfl
    · subst h7
      rfl
    · have hunit : UInt16.ofNat (0 * 4096 + 0 * 256 + c.toNat / 16 * 16 + c.toNat % 16) = unit c := by
        unfold unit
        congr 1
        omega
      have hzero : hexDigit? '0' = some 0 := by decide
      simp only [List.cons_append, List.nil_append, readString, hexUnit?, hzero,
        hexDigit?_hexDigit (show c.toNat / 16 < 16 by omega),
        hexDigit?_hexDigit (show c.toNat % 16 < 16 by omega), hunit]
      have hunits : (CodePoint.char c).units = [unit c] := if_pos (by omega)
      rw [hunits]
      rfl
    · rw [List.singleton_append]
      conv => lhs; unfold readString
      split
      · rename_i heq
        exact absurd (List.cons.inj heq).1 h1
      · rename_i heq
        exact absurd (List.cons.inj heq).1 h2
      · rename_i heq
        exact absurd (List.cons.inj heq).1 h2
      · rename_i heq
        obtain ⟨rfl, rfl⟩ := List.cons.inj heq
        rw [if_neg (by
          rintro (h | h)
          · exact h8 h
          · exact h2 h)]
      · rename_i heq
        cases heq

theorem readString_flatMap (l : List CodePoint) (r : List Char) :
    readString (l.flatMap CodePoint.escape ++ '\"' :: r) = some (l.flatMap CodePoint.units, r) := by
  induction l with
  | nil => rfl
  | cons p l ih =>
    rw [List.flatMap_cons, List.append_assoc, readString_escape, ih, List.flatMap_cons]
    rfl

/-- What follows a value is not a part of it. -/
def Stops (r : List Char) : Prop := ∀ c ∈ r.head?, isWordChar c = false

theorem stops_cons {c : Char} {r : List Char} (h : isWordChar c = false) : Stops (c :: r) := by
  intro d hd
  obtain rfl := Option.some.inj hd
  exact h

/-- A word is read to its end. -/
theorem word_append {w r : List Char} (hw : ∀ c ∈ w, isWordChar c = true) (hr : Stops r) :
    (w ++ r).takeWhile isWordChar = w ∧ (w ++ r).dropWhile isWordChar = r := by
  rw [List.takeWhile_append_of_pos hw, List.dropWhile_append_of_pos hw]
  cases r with
  | nil => simp
  | cons c r =>
    have hc := hr c rfl
    simp [hc]

theorem isJsonSpace_of_isWordChar {c : Char} (hc : isWordChar c = true) : isJsonSpace c = false := by
  by_contra h
  rw [Bool.not_eq_false] at h
  unfold isJsonSpace at h
  simp only [Bool.or_eq_true, decide_eq_true_eq] at h
  rcases h with ((rfl | rfl) | rfl) | rfl
  · exact absurd hc (by decide)
  · exact absurd hc (by decide)
  · exact absurd hc (by decide)
  · exact absurd hc (by decide)

theorem readValue_succ (n : Nat) (s : List Char) : readValue (n + 1) s =
    match s.dropWhile isJsonSpace with
    | '\"' :: r => (readString r).map fun p => (.string p.1, p.2)
    | '[' :: r =>
      match r.dropWhile isJsonSpace with
      | ']' :: r => some (.array [], r)
      | r => (readItems n r).map fun p => (.array p.1, p.2)
    | '\x7b' :: r =>
      match r.dropWhile isJsonSpace with
      | '\x7d' :: r => some (.object [], r)
      | r => (readMembers n r).map fun p => (.object p.1, p.2)
    | r => readWord r := rfl

/-- A value that begins with a character of a word is a word. -/
theorem readValue_word {n : Nat} {w r : List Char} (hne : w ≠ []) (hw : ∀ c ∈ w, isWordChar c = true) :
    readValue (n + 1) (w ++ r) = readWord (w ++ r) := by
  obtain ⟨c, t, rfl⟩ := List.exists_cons_of_ne_nil hne
  have hc := hw c List.mem_cons_self
  have hspace := isJsonSpace_of_isWordChar hc
  have hdrop : (c :: t ++ r).dropWhile isJsonSpace = c :: t ++ r := by simp [hspace]
  rw [readValue_succ, hdrop]
  split
  · rename_i heq
    obtain rfl := (List.cons.inj heq).1
    exact absurd hc (by decide)
  · rename_i heq
    obtain rfl := (List.cons.inj heq).1
    exact absurd hc (by decide)
  · rename_i heq
    obtain rfl := (List.cons.inj heq).1
    exact absurd hc (by decide)
  · rfl

theorem readValue_number {n : Nat} {r : List Char} (hr : Stops r) (w : NumberToken) :
    readValue (n + 1) (w.val ++ r) = some (.number w, r) := by
  obtain ⟨w, hw⟩ := w
  have hchars := isNumberToken_wordChars hw
  have hnot : ∀ l : List Char, isNumberToken l = false → w ≠ l := by
    rintro l hl rfl
    rw [hl] at hw
    cases hw
  obtain ⟨htake, hdrop⟩ := word_append hchars hr
  rw [readValue_word (hnot [] (by decide)) hchars]
  unfold readWord
  simp only [htake, hdrop]
  rw [if_neg (hnot _ (by decide)), if_neg (hnot _ (by decide)), if_neg (hnot _ (by decide)),
    dif_pos hw]

theorem readValue_quote {n : Nat} (s : JsText) (r : List Char) :
    readValue (n + 1) (quoteText s ++ r) = some (.string s, r) := by
  unfold quoteText
  rw [List.append_assoc, List.cons_append]
  simp [readValue_succ, isJsonSpace, readString_flatMap, units_codePoints]

theorem readValue_literal {n : Nat} {w r : List Char} {v : Json.Tree} (hne : w ≠ [])
    (hw : ∀ c ∈ w, isWordChar c = true) (hr : Stops r) (hread : readWord w = some (v, [])) :
    readValue (n + 1) (w ++ r) = some (v, r) := by
  obtain ⟨htake, hdrop⟩ := word_append hw hr
  have htake' := (word_append (r := []) hw (by simp [Stops])).1
  rw [List.append_nil] at htake'
  rw [readValue_word hne hw]
  unfold readWord at hread ⊢
  simp only [htake, hdrop]
  simp only [htake'] at hread
  split_ifs at hread ⊢
  · simp only [Option.some.injEq, Prod.mk.injEq] at hread
    rw [hread.1]
  · simp only [Option.some.injEq, Prod.mk.injEq] at hread
    rw [hread.1]
  · simp only [Option.some.injEq, Prod.mk.injEq] at hread
    rw [hread.1]
  · simp only [Option.some.injEq, Prod.mk.injEq] at hread
    rw [hread.1]

/-! ## The round trip -/

/-- The value is read back from its text. -/
def ReadsBack (v : Json.Tree) : Prop :=
  ∀ n r, 3 * v.stringify.length ≤ n → Stops r → readValue n (v.stringify ++ r) = some (v, r)

theorem stops_itemsText (l : List Json.Tree) (r : List Char) : Stops (itemsText l ++ r) := by
  cases l with
  | nil => exact stops_cons (by decide)
  | cons x l => exact stops_cons (by decide)

theorem stops_membersText (l : List (JsText × Json.Tree)) (r : List Char) :
    Stops (membersText l ++ r) := by
  cases l with
  | nil => exact stops_cons (by decide)
  | cons m l => exact stops_cons (by decide)

theorem itemsText_pos (l : List Json.Tree) : 0 < (itemsText l).length := by
  cases l <;> simp [itemsText]

theorem membersText_pos (l : List (JsText × Json.Tree)) : 0 < (membersText l).length := by
  cases l <;> simp [membersText]

/-- The text of a value begins with no white space and with no bracket that closes. -/
theorem stringify_head (v : Json.Tree) : ∃ c t, v.stringify = c :: t ∧
    isJsonSpace c = false ∧ c ≠ ']' := by
  cases v with
  | null => exact ⟨_, _, rfl, by decide, by decide⟩
  | bool b => cases b <;> exact ⟨_, _, rfl, by decide, by decide⟩
  | number w =>
    obtain ⟨w, hw⟩ := w
    cases w with
    | nil => cases hw
    | cons c t =>
      have hc := isNumberToken_wordChars hw c List.mem_cons_self
      refine ⟨c, t, rfl, ?_, ?_⟩
      · exact isJsonSpace_of_isWordChar hc
      · rintro rfl
        exact absurd hc (by decide)
  | string s => exact ⟨_, _, rfl, by decide, by decide⟩
  | array l => cases l <;> exact ⟨_, _, by rw [JsonValue.stringify], by decide, by decide⟩
  | object l => cases l <;> exact ⟨_, _, by rw [JsonValue.stringify], by decide, by decide⟩

theorem readItems_itemsText {l : List Json.Tree} {x : Json.Tree} {n : Nat} {r : List Char}
    (hx : ReadsBack x) (hl : ∀ y ∈ l, ReadsBack y)
    (hn : 3 * (x.stringify ++ itemsText l).length ≤ n) :
    readItems n (x.stringify ++ (itemsText l ++ r)) = some (x :: l, r) := by
  induction l generalizing x n with
  | nil =>
    have hpos := itemsText_pos []
    rw [List.length_append] at hn
    obtain ⟨n, rfl⟩ : ∃ k, n = k + 1 := ⟨n - 1, by omega⟩
    unfold readItems
    rw [hx n _ (by omega) (stops_itemsText [] r)]
    rfl
  | cons y l ih =>
    have hpos := itemsText_pos (y :: l)
    rw [List.length_append] at hn
    obtain ⟨n, rfl⟩ : ∃ k, n = k + 1 := ⟨n - 1, by omega⟩
    obtain ⟨hy, hl⟩ := List.forall_mem_cons.mp hl
    have hrest : (itemsText (y :: l)).length = (y.stringify ++ itemsText l).length + 1 := by
      rw [itemsText, List.length_cons]
    have hread := ih (n := n) hy hl (by omega)
    unfold readItems
    rw [hx n _ (by omega) (stops_itemsText (y :: l) r)]
    simp only [itemsText, List.cons_append, List.append_assoc]
    simp [isJsonSpace, hread]

theorem readMember_memberText {m : JsText × Json.Tree} {n : Nat} {r : List Char}
    (hm : ReadsBack m.2) (hn : 3 * (memberText m).length ≤ n) (hr : Stops r) :
    readMember n (memberText m ++ r) = some (m, r) := by
  obtain ⟨name, v⟩ := m
  dsimp only at hm
  have hlen : (memberText (name, v)).length = (quoteText name).length + (v.stringify.length + 1) := by
    rw [memberText, List.length_append, List.length_cons]
  have hquote : 0 < (quoteText name).length := by simp [quoteText]
  obtain ⟨n, rfl⟩ : ∃ k, n = k + 1 := ⟨n - 1, by omega⟩
  have hread := hm n r (by omega) hr
  unfold readMember memberText quoteText
  simp only [List.cons_append, List.append_assoc, List.nil_append]
  simp [isJsonSpace, readString_flatMap, units_codePoints, hread]

theorem readMembers_membersText {l : List (JsText × Json.Tree)} {m : JsText × Json.Tree} {n : Nat}
    {r : List Char} (hm : ReadsBack m.2) (hl : ∀ y ∈ l, ReadsBack y.2)
    (hn : 3 * (memberText m ++ membersText l).length ≤ n) :
    readMembers n (memberText m ++ (membersText l ++ r)) = some (m :: l, r) := by
  induction l generalizing m n with
  | nil =>
    have hpos := membersText_pos []
    rw [List.length_append] at hn
    obtain ⟨n, rfl⟩ : ∃ k, n = k + 1 := ⟨n - 1, by omega⟩
    unfold readMembers
    rw [readMember_memberText hm (by omega) (stops_membersText [] r)]
    rfl
  | cons y l ih =>
    have hpos := membersText_pos (y :: l)
    rw [List.length_append] at hn
    obtain ⟨n, rfl⟩ : ∃ k, n = k + 1 := ⟨n - 1, by omega⟩
    obtain ⟨hy, hl⟩ := List.forall_mem_cons.mp hl
    have hrest : (membersText (y :: l)).length = (memberText y ++ membersText l).length + 1 := by
      rw [membersText, List.length_cons]
    have hread := ih (n := n) hy hl (by omega)
    unfold readMembers
    rw [readMember_memberText hm (by omega) (stops_membersText (y :: l) r)]
    simp only [membersText, List.cons_append, List.append_assoc]
    simp [isJsonSpace, hread]

theorem readsBack_array {l : List Json.Tree} (hl : ∀ x ∈ l, ReadsBack x) : ReadsBack (.array l) := by
  intro n r hn hr
  cases l with
  | nil =>
    simp only [JsonValue.stringify, List.length_cons, List.length_nil] at hn
    obtain ⟨n, rfl⟩ : ∃ k, n = k + 1 := ⟨n - 1, by omega⟩
    simp [JsonValue.stringify, readValue_succ, isJsonSpace]
  | cons x l =>
    obtain ⟨hx, hl⟩ := List.forall_mem_cons.mp hl
    simp only [JsonValue.stringify, List.length_cons] at hn
    obtain ⟨n, rfl⟩ : ∃ k, n = k + 1 := ⟨n - 1, by omega⟩
    have hread := readItems_itemsText (n := n) (r := r) hx hl (by omega)
    obtain ⟨c, t, hhead, hspace, hclose⟩ := stringify_head x
    rw [hhead] at hread
    simp only [List.cons_append] at hread
    have hopen : isJsonSpace '[' = false := by decide
    simp only [JsonValue.stringify, hhead, List.cons_append, List.append_assoc, readValue_succ,
      List.dropWhile_cons_of_neg (Bool.eq_false_iff.mp hopen),
      List.dropWhile_cons_of_neg (Bool.eq_false_iff.mp hspace)]
    split
    · rename_i heq
      exact absurd (List.cons.inj heq).1 hclose
    · rw [hread]
      rfl

theorem readsBack_object {l : List (JsText × Json.Tree)} (hl : ∀ m ∈ l, ReadsBack m.2) :
    ReadsBack (.object l) := by
  intro n r hn hr
  cases l with
  | nil =>
    simp only [JsonValue.stringify, List.length_cons, List.length_nil] at hn
    obtain ⟨n, rfl⟩ : ∃ k, n = k + 1 := ⟨n - 1, by omega⟩
    simp [JsonValue.stringify, readValue_succ, isJsonSpace]
  | cons m l =>
    obtain ⟨hm, hl⟩ := List.forall_mem_cons.mp hl
    simp only [JsonValue.stringify, List.length_cons] at hn
    obtain ⟨n, rfl⟩ : ∃ k, n = k + 1 := ⟨n - 1, by omega⟩
    have hread := readMembers_membersText (n := n) (r := r) hm hl (by omega)
    have hhead : ∃ t, memberText m = '\"' :: t := ⟨_, by rw [memberText, quoteText, List.cons_append]; rfl⟩
    obtain ⟨t, hhead⟩ := hhead
    rw [hhead] at hread
    simp only [List.cons_append] at hread
    have hopen : isJsonSpace '\x7b' = false := by decide
    have hquote : isJsonSpace '\"' = false := by decide
    simp only [JsonValue.stringify, hhead, List.cons_append, List.append_assoc, readValue_succ,
      List.dropWhile_cons_of_neg (Bool.eq_false_iff.mp hopen),
      List.dropWhile_cons_of_neg (Bool.eq_false_iff.mp hquote)]
    split
    · rename_i heq
      exact absurd (List.cons.inj heq).1 (by decide)
    · rw [hread]
      rfl

/-- Every value is read back from its text. -/
theorem readsBack (v : Json.Tree) : ReadsBack v := by
  induction v using JsonValue.ind with
  | null =>
    intro n r hn hr
    obtain ⟨n, rfl⟩ : ∃ k, n = k + 1 := ⟨n - 1, by simp [JsonValue.stringify] at hn; omega⟩
    exact readValue_literal (by decide) (List.all_eq_true.mp rfl) hr rfl
  | bool b =>
    intro n r hn hr
    cases b with
    | false =>
      obtain ⟨n, rfl⟩ : ∃ k, n = k + 1 := ⟨n - 1, by simp [JsonValue.stringify] at hn; omega⟩
      exact readValue_literal (by decide) (List.all_eq_true.mp rfl) hr rfl
    | true =>
      obtain ⟨n, rfl⟩ : ∃ k, n = k + 1 := ⟨n - 1, by simp [JsonValue.stringify] at hn; omega⟩
      exact readValue_literal (by decide) (List.all_eq_true.mp rfl) hr rfl
  | number w =>
    intro n r hn hr
    obtain ⟨c, t, hhead, -, -⟩ := stringify_head (.number w)
    rw [hhead, List.length_cons] at hn
    obtain ⟨n, rfl⟩ : ∃ k, n = k + 1 := ⟨n - 1, by omega⟩
    exact readValue_number hr w
  | string s =>
    intro n r hn hr
    simp only [JsonValue.stringify, quoteText, List.length_append, List.length_cons] at hn
    obtain ⟨n, rfl⟩ : ∃ k, n = k + 1 := ⟨n - 1, by omega⟩
    exact readValue_quote s r
  | array l ih => exact readsBack_array ih
  | object l ih => exact readsBack_object ih

/-- `JSON.parse` of what `JSON.stringify` has written. -/
theorem parseJson_stringify (v : Json.Tree) : parseJson v.stringify = some v := by
  have hread := readsBack v (3 * v.stringify.length) [] le_rfl (by simp [Stops])
  rw [List.append_nil] at hread
  unfold parseJson
  rw [hread]
  rfl

/-- No two values have one text. -/
theorem stringify_tree_injective {v w : Json.Tree} (h : v.stringify = w.stringify) : v = w := by
  have hread := parseJson_stringify v
  rw [h, parseJson_stringify w] at hread
  exact (Option.some.inj hread).symm

end Licensecc.Codec
