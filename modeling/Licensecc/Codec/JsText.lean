-- The texts of JavaScript: UTF-16 code units, where a surrogate may stand alone. A text
-- is given back by its code points. `TextEncoder` writes each lone surrogate as U+FFFD,
-- and `JSON.stringify` escapes it.
import Licensecc.Codec.Json
import Licensecc.Codec.Utf8
import Mathlib.Data.List.DropRight

namespace Licensecc.Codec

abbrev JsText := List UInt16

instance lawfulBEq_jsText : LawfulBEq JsText := inferInstance

/-- The code unit of a character up to U+FFFF. -/
def unit (c : Char) : UInt16 := UInt16.ofNat c.toNat

/-- The text of some characters up to U+FFFF. -/
def jsText (s : List Char) : JsText := s.map unit

/-! ## Code points -/

def isHigh (u : UInt16) : Bool := 0xd800 ≤ u.toNat && u.toNat < 0xdc00

def isLow (u : UInt16) : Bool := 0xdc00 ≤ u.toNat && u.toNat < 0xe000

/-- A character, or a lone surrogate. -/
inductive CodePoint where
  | char (c : Char)
  | lone (u : UInt16)

/-- The code point of one unit. -/
def single (u : UInt16) : CodePoint :=
  if isHigh u || isLow u then .lone u else .char (Char.ofNat u.toNat)

/-- The character of two surrogates. -/
def pairChar (high low : UInt16) : Char :=
  Char.ofNat (0x10000 + (high.toNat - 0xd800) * 0x400 + (low.toNat - 0xdc00))

def codePoints : JsText → List CodePoint
  | [] => []
  | [u] => [single u]
  | u :: v :: rest =>
    if isHigh u && isLow v then .char (pairChar u v) :: codePoints rest
    else single u :: codePoints (v :: rest)

/-- The units of a code point. -/
def CodePoint.units : CodePoint → JsText
  | .lone u => [u]
  | .char c =>
    if c.toNat < 0x10000 then [unit c]
    else
      [UInt16.ofNat (0xd800 + (c.toNat - 0x10000) / 0x400),
        UInt16.ofNat (0xdc00 + (c.toNat - 0x10000) % 0x400)]

theorem toNat_charOfNat {n : Nat} (h : n.isValidChar) : (Char.ofNat n).toNat = n := by
  unfold Char.ofNat
  rw [dif_pos h]
  rfl

theorem units_single (u : UInt16) : (single u).units = [u] := by
  unfold single
  split
  · rfl
  · rename_i h
    unfold isHigh isLow at h
    simp only [Bool.or_eq_true, Bool.and_eq_true, decide_eq_true_eq] at h
    have hlt := u.toNat_lt
    have hvalid : u.toNat.isValidChar := by
      unfold Nat.isValidChar
      omega
    unfold CodePoint.units
    simp only [toNat_charOfNat hvalid, unit, UInt16.ofNat_toNat]
    rw [if_pos (by omega)]

theorem units_pair {high low : UInt16} (hh : isHigh high = true) (hl : isLow low = true) :
    (CodePoint.char (pairChar high low)).units = [high, low] := by
  unfold isHigh at hh
  unfold isLow at hl
  simp only [Bool.and_eq_true, decide_eq_true_eq] at hh hl
  have hvalid : (0x10000 + (high.toNat - 0xd800) * 0x400 + (low.toNat - 0xdc00)).isValidChar := by
    unfold Nat.isValidChar
    omega
  unfold CodePoint.units pairChar
  simp only [toNat_charOfNat hvalid]
  rw [if_neg (by omega)]
  have h1 : 0xd800 + (0x10000 + (high.toNat - 0xd800) * 0x400 + (low.toNat - 0xdc00) - 0x10000) /
      0x400 = high.toNat := by omega
  have h2 : 0xdc00 + (0x10000 + (high.toNat - 0xd800) * 0x400 + (low.toNat - 0xdc00) - 0x10000) %
      0x400 = low.toNat := by omega
  rw [h1, h2, UInt16.ofNat_toNat, UInt16.ofNat_toNat]

/-- The code points of a text give back its units. -/
theorem units_codePoints (s : JsText) : (codePoints s).flatMap CodePoint.units = s := by
  induction s using codePoints.induct with
  | case1 => rfl
  | case2 u => simp [codePoints, units_single]
  | case3 u v rest h ih =>
    rw [Bool.and_eq_true] at h
    simp [codePoints, h, units_pair, ih]
  | case4 u v rest h ih => simp [codePoints, h, units_single, ih]

theorem codePoints_injective {s t : JsText} (h : codePoints s = codePoints t) : s = t := by
  rw [← units_codePoints s, h, units_codePoints]

/-- A unit that is no high surrogate is a code point of its own. -/
theorem codePoints_cons {u : UInt16} (h : isHigh u = false) (s : JsText) :
    codePoints (u :: s) = single u :: codePoints s := by
  cases s with
  | nil => rfl
  | cons v rest => simp [codePoints, h]

/-! ## Texts of characters -/

/-- A unit that stands for a character of its own. -/
theorem unit_spec {c : Char} (h : c.toNat < 0x10000) :
    (unit c).toNat = c.toNat ∧ isHigh (unit c) = false ∧ isLow (unit c) = false := by
  have hvalid := c.valid
  have hu : (unit c).toNat = c.toNat := by
    unfold unit
    rw [UInt16.toNat_ofNat']
    omega
  have hrange : c.toNat < 0xd800 ∨ 0xdfff < c.toNat := by
    rcases hvalid with hlow | hhigh
    · exact Or.inl hlow
    · exact Or.inr hhigh.1
  refine ⟨hu, ?_, ?_⟩
  · unfold isHigh
    rw [hu]
    simp only [Bool.and_eq_false_iff, decide_eq_false_iff_not]
    omega
  · unfold isLow
    rw [hu]
    simp only [Bool.and_eq_false_iff, decide_eq_false_iff_not]
    omega

/-- The units of a character are read as the character, whatever follows. -/
theorem codePoints_units (c : Char) (s : JsText) :
    codePoints ((CodePoint.char c).units ++ s) = .char c :: codePoints s := by
  unfold CodePoint.units
  dsimp only
  split
  · rename_i h
    obtain ⟨hu, hhigh, hlow⟩ := unit_spec h
    rw [List.singleton_append, codePoints_cons hhigh]
    unfold single
    rw [hhigh, hlow, hu, Char.ofNat_toNat]
    rfl
  · rename_i h
    have hmax : c.toNat < 0x110000 := by
      rcases c.valid with hlow | hhigh
      · exact Nat.lt_trans hlow (by decide)
      · exact hhigh.2
    have h1 : (UInt16.ofNat (0xd800 + (c.toNat - 0x10000) / 0x400)).toNat =
        0xd800 + (c.toNat - 0x10000) / 0x400 := by
      rw [UInt16.toNat_ofNat']
      omega
    have h2 : (UInt16.ofNat (0xdc00 + (c.toNat - 0x10000) % 0x400)).toNat =
        0xdc00 + (c.toNat - 0x10000) % 0x400 := by
      rw [UInt16.toNat_ofNat']
      omega
    have hhigh : isHigh (UInt16.ofNat (0xd800 + (c.toNat - 0x10000) / 0x400)) = true := by
      unfold isHigh
      rw [h1]
      simp only [Bool.and_eq_true, decide_eq_true_eq]
      omega
    have hlow : isLow (UInt16.ofNat (0xdc00 + (c.toNat - 0x10000) % 0x400)) = true := by
      unfold isLow
      rw [h2]
      simp only [Bool.and_eq_true, decide_eq_true_eq]
      omega
    simp only [List.cons_append, List.nil_append, codePoints, hhigh, hlow, Bool.and_self, if_true]
    unfold pairChar
    rw [h1, h2, show 0x10000 + (0xd800 + (c.toNat - 0x10000) / 0x400 - 0xd800) * 0x400 +
      (0xdc00 + (c.toNat - 0x10000) % 0x400 - 0xdc00) = c.toNat by omega, Char.ofNat_toNat]

/-- The text of any characters. -/
def ofChars (s : List Char) : JsText := s.flatMap fun c => (CodePoint.char c).units

theorem codePoints_ofChars (s : List Char) : codePoints (ofChars s) = s.map .char := by
  induction s with
  | nil => rfl
  | cons c s ih =>
    unfold ofChars at ih ⊢
    rw [List.flatMap_cons, codePoints_units, ih, List.map_cons]

/-- The character of a code point, when it is one. -/
def CodePoint.char? : CodePoint → Option Char
  | .char c => some c
  | .lone _ => none

/-- The characters of a text without lone surrogates. -/
def chars? (s : JsText) : Option (List Char) := (codePoints s).mapM CodePoint.char?

/-- A text of characters is given back. -/
theorem chars?_ofChars (s : List Char) : chars? (ofChars s) = some s := by
  unfold chars?
  rw [codePoints_ofChars]
  induction s with
  | nil => rfl
  | cons c s ih => simp [CodePoint.char?, ih]

theorem ofChars_injective {s t : List Char} (h : ofChars s = ofChars t) : s = t := by
  have hsame := congrArg chars? h
  rw [chars?_ofChars, chars?_ofChars] at hsame
  exact Option.some.inj hsame

/-! ## Encoding -/

/-- The character that `TextEncoder` writes. -/
def CodePoint.scalar : CodePoint → Char
  | .char c => c
  | .lone _ => '\uFFFD'

/-- The characters of a text, where a lone surrogate is U+FFFD. -/
def scalars (s : JsText) : List Char := (codePoints s).map CodePoint.scalar

/-- `new TextEncoder().encode(s)` -/
def encode (s : JsText) : Bytes := utf8 (scalars s)

theorem toNat_unit {c : Char} (h : c.toNat < 0xd800) : (unit c).toNat = c.toNat := by
  unfold unit
  rw [UInt16.toNat_ofNat']
  omega

theorem single_unit {c : Char} (h : c.toNat < 0xd800) : single (unit c) = .char c := by
  have hu := toNat_unit h
  unfold single isHigh isLow
  rw [hu, if_neg]
  · rw [Char.ofNat_toNat]
  · simp only [Bool.or_eq_true, Bool.and_eq_true, decide_eq_true_eq]
    omega

theorem not_isHigh_unit {c : Char} (h : c.toNat < 0xd800) : isHigh (unit c) = false := by
  have hu := toNat_unit h
  unfold isHigh
  rw [hu]
  simp only [Bool.and_eq_false_iff, decide_eq_false_iff_not]
  omega

theorem scalars_unit {c : Char} (h : c.toNat < 0xd800) (s : JsText) :
    scalars (unit c :: s) = c :: scalars s := by
  unfold scalars
  rw [codePoints_cons (not_isHigh_unit h), single_unit h]
  rfl

/-- A text that begins with plain characters is encoded from them and the rest. -/
theorem scalars_jsText {s : List Char} (h : Ascii s) (t : JsText) :
    scalars (jsText s ++ t) = s ++ scalars t := by
  induction s with
  | nil => rfl
  | cons c s ih =>
    have hc := h c List.mem_cons_self
    have hrest := ih fun d hd => h d (List.mem_cons_of_mem _ hd)
    simp only [jsText, List.map_cons, List.cons_append] at hrest ⊢
    rw [scalars_unit (by omega), hrest]

theorem unit_injective {c d : Char} (hc : c.toNat < 0xd800) (hd : d.toNat < 0xd800)
    (h : unit c = unit d) : c = d := by
  have := congrArg UInt16.toNat h
  rw [toNat_unit hc, toNat_unit hd] at this
  exact Char.toNat_inj.mp this

theorem jsText_injective {s t : List Char} (hs : Ascii s) (ht : Ascii t) (h : jsText s = jsText t) :
    s = t := by
  have hsame := congrArg (fun l => scalars (l ++ [])) h
  simp only [scalars_jsText hs, scalars_jsText ht] at hsame
  simpa [scalars, codePoints] using hsame

@[simp] theorem jsText_nil : jsText [] = [] := rfl

@[simp] theorem jsText_cons (c : Char) (s : List Char) : jsText (c :: s) = unit c :: jsText s := rfl

@[simp] theorem jsText_append (s t : List Char) : jsText (s ++ t) = jsText s ++ jsText t :=
  List.map_append

theorem mem_jsText {c : Char} {s : List Char} (hc : c.toNat < 0xd800) (hs : Ascii s) :
    unit c ∈ jsText s ↔ c ∈ s := by
  unfold jsText
  rw [List.mem_map]
  constructor
  · rintro ⟨d, hd, heq⟩
    have hlt := hs d hd
    rwa [← unit_injective (by omega) hc heq]
  · intro h
    exact ⟨c, h, rfl⟩

/-! ## White space -/

/-- The code units that `trim` removes. -/
def isSpace (u : UInt16) : Bool :=
  let n := u.toNat
  (9 ≤ n && n ≤ 13) || n = 0x20 || n = 0xa0 || n = 0x1680 || (0x2000 ≤ n && n ≤ 0x200a) ||
    n = 0x2028 || n = 0x2029 || n = 0x202f || n = 0x205f || n = 0x3000 || n = 0xfeff

/-- `s.trim()` -/
def trim (s : JsText) : JsText := (s.dropWhile isSpace).rdropWhile isSpace

/-- A text whose ends are no white space is trimmed. -/
theorem trim_eq_self {s : JsText} (h : ∀ u ∈ s, isSpace u = false) : trim s = s := by
  have hdrop : s.dropWhile isSpace = s := by
    cases s with
    | nil => rfl
    | cons u s => simp [h u List.mem_cons_self]
  unfold trim
  rw [hdrop]
  apply List.rdropWhile_eq_self_iff.mpr
  intro hne
  rw [h _ (List.getLast_mem hne)]
  exact Bool.false_ne_true

end Licensecc.Codec
