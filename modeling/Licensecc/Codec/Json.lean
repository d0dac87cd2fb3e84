-- The laws of the texts that `JSON.stringify` writes for arrays of texts and
-- integers: a quoted text ends where it ends, so no other array has the same text.
import Licensecc.Codec.Decimal

namespace Licensecc.Codec

/-- The values in the arrays. -/
inductive Json where
  | string (s : List Char)
  | integer (n : Nat)

/-! ## Texts -/

def hexDigit (n : Nat) : Char := ['0', '1', '2', '3', '4', '5', '6', '7', '8', '9', 'a', 'b', 'c',
  'd', 'e', 'f'].getD n '0'

def hexValue (c : Char) : Nat := if c.isDigit then c.toNat - 48 else c.toNat - 87

/-- A character in a quoted text. -/
def escapeChar (c : Char) : List Char :=
  if c = '\"' then ['\\', '\"']
  else if c = '\\' then ['\\', '\\']
  else if c = '\x08' then ['\\', 'b']
  else if c = '\t' then ['\\', 't']
  else if c = '\n' then ['\\', 'n']
  else if c = '\x0c' then ['\\', 'f']
  else if c = '\r' then ['\\', 'r']
  else if c.toNat < 32 then
    ['\\', 'u', '0', '0', hexDigit (c.toNat / 16), hexDigit (c.toNat % 16)]
  else [c]

def quote (s : List Char) : List Char := '\"' :: s.flatMap escapeChar ++ ['\"']

/-- The first character of the rest of a quoted text, unless the text ends there. -/
def unescape : List Char → Option (Char × List Char)
  | '\\' :: 'u' :: _ :: _ :: h :: l :: r => some (Char.ofNat (hexValue h * 16 + hexValue l), r)
  | '\\' :: 'b' :: r => some ('\x08', r)
  | '\\' :: 't' :: r => some ('\t', r)
  | '\\' :: 'n' :: r => some ('\n', r)
  | '\\' :: 'f' :: r => some ('\x0c', r)
  | '\\' :: 'r' :: r => some ('\r', r)
  | '\\' :: c :: r => some (c, r)
  | '\"' :: _ => none
  | c :: r => some (c, r)
  | [] => none

theorem hexValue_hexDigit {n : Nat} (h : n < 16) : hexValue (hexDigit n) = n := by
  have hall : ∀ n < 16, hexValue (hexDigit n) = n := by decide
  exact hall n h

theorem unescape_escapeChar (c : Char) (r : List Char) :
    unescape (escapeChar c ++ r) = some (c, r) := by
  unfold escapeChar
  split_ifs with h1 h2 h3 h4 h5 h6 h7 h8
  · subst h1
    rfl
  · subst h2
    rfl
  · subst h3
    rfl
  · subst h4
    rfl
  · subst h5
    rfl
  · subst h6
    rfl
  · subst h7
    rfl
  · simp only [List.cons_append, List.nil_append, unescape]
    rw [hexValue_hexDigit (by omega), hexValue_hexDigit (by omega),
      show c.toNat / 16 * 16 + c.toNat % 16 = c.toNat by omega, Char.ofNat_toNat]
  · simp [unescape, h2]

/-- A quoted text ends where it ends. -/
theorem quote_cancel {s s' r r' : List Char} (h : quote s ++ r = quote s' ++ r') :
    s = s' ∧ r = r' := by
  unfold quote at h
  simp only [List.cons_append, List.append_assoc, List.cons.injEq, List.nil_append, true_and] at h
  induction s generalizing s' with
  | nil =>
    cases s' with
    | nil => simpa using h
    | cons c s' =>
      have hread := congrArg unescape h
      rw [List.flatMap_cons, List.append_assoc, unescape_escapeChar] at hread
      cases hread
  | cons c s ih =>
    cases s' with
    | nil =>
      have hread := congrArg unescape h
      rw [List.flatMap_cons, List.append_assoc, unescape_escapeChar] at hread
      cases hread
    | cons c' s' =>
      have hread := congrArg unescape h
      rw [List.flatMap_cons, List.flatMap_cons, List.append_assoc, List.append_assoc,
        unescape_escapeChar, unescape_escapeChar] at hread
      obtain ⟨rfl, hrest⟩ := Prod.mk.inj (Option.some.inj hread)
      obtain ⟨rfl, hr⟩ := ih hrest
      exact ⟨rfl, hr⟩

/-! ## Arrays -/

def Json.stringify : Json → List Char
  | .string s => quote s
  | .integer n => Nat.toDigits 10 n

/-- `JSON.stringify` of an array. -/
def stringify (l : List Json) : List Char :=
  '[' :: List.intercalate [','] (l.map Json.stringify) ++ [']']

/-- What follows an element of an array. -/
def Follows (r : List Char) : Prop := ∃ c s, r = c :: s ∧ (c = ',' ∨ c = ']')

theorem isDigit_not_follows {r : List Char} (h : Follows r) (ds : List Char)
    (hds : ∀ c ∈ ds, c.isDigit) : (ds ++ r).takeWhile Char.isDigit = ds := by
  obtain ⟨c, s, rfl, hc⟩ := h
  have hnot : c.isDigit = false := by
    rcases hc with rfl | rfl
    · decide
    · decide
  rw [List.takeWhile_append_of_pos hds, List.takeWhile_cons, if_neg (by simp [hnot]),
    List.append_nil]

theorem stringify_cancel {x x' : Json} {r r' : List Char} (hr : Follows r) (hr' : Follows r')
    (h : x.stringify ++ r = x'.stringify ++ r') : x = x' ∧ r = r' := by
  have hdigits : ∀ n, ∀ c ∈ Nat.toDigits 10 n, c.isDigit := fun n c hc =>
    Nat.isDigit_of_mem_toDigits (by omega) (by omega) hc
  have hquote : ∀ s n r r', quote s ++ r ≠ Nat.toDigits 10 n ++ r' := by
    intro s n r r' he
    obtain ⟨d, ds, hd⟩ := List.exists_cons_of_ne_nil (Nat.toDigits_ne_nil (n := n) (b := 10))
    rw [hd] at he
    have hfirst := (List.cons.inj he).1
    have hdigit := hdigits n d (hd ▸ List.mem_cons_self)
    rw [← hfirst] at hdigit
    revert hdigit
    decide
  cases x with
  | string s =>
    cases x' with
    | string s' =>
      obtain ⟨rfl, hrest⟩ := quote_cancel h
      exact ⟨rfl, hrest⟩
    | integer n => exact absurd h (hquote s n r r')
  | integer n =>
    cases x' with
    | string s => exact absurd h.symm (hquote s n r' r)
    | integer m =>
      simp only [Json.stringify] at h
      have hread := congrArg (List.takeWhile Char.isDigit) h
      rw [isDigit_not_follows hr _ (hdigits n), isDigit_not_follows hr' _ (hdigits m)] at hread
      rw [hread] at h
      obtain rfl := toDigits_injective hread
      exact ⟨rfl, List.append_cancel_left h⟩

/-- The rest of an array after an element. -/
def arrayRest (l : List Json) : List Char := l.flatMap (fun x => ',' :: x.stringify) ++ [']']

theorem follows_arrayRest (l : List Json) : Follows (arrayRest l) := by
  cases l with
  | nil => exact ⟨']', [], rfl, .inr rfl⟩
  | cons x l => exact ⟨',', x.stringify ++ arrayRest l, by simp [arrayRest], .inl rfl⟩

theorem stringify_cons (x : Json) (l : List Json) :
    stringify (x :: l) = '[' :: (x.stringify ++ arrayRest l) := by
  unfold stringify
  induction l generalizing x with
  | nil => simp [arrayRest]
  | cons y l ih =>
    have htail := (List.cons.inj ((List.cons_append ..).symm.trans (ih y))).2
    rw [List.map_cons, List.map_cons, List.intercalate_cons_cons, ← List.map_cons, List.cons_append,
      List.append_assoc, List.append_assoc, htail]
    simp [arrayRest]

theorem arrayRest_injective {l l' : List Json} (h : arrayRest l = arrayRest l') : l = l' := by
  induction l generalizing l' with
  | nil =>
    cases l' with
    | nil => rfl
    | cons x l' => simp [arrayRest] at h
  | cons x l ih =>
    cases l' with
    | nil => simp [arrayRest] at h
    | cons x' l' =>
      have hstep : ∀ (y : Json) m, arrayRest (y :: m) = ',' :: (y.stringify ++ arrayRest m) := by
        intro y m
        simp [arrayRest]
      rw [hstep, hstep] at h
      obtain ⟨rfl, hrest⟩ := stringify_cancel (follows_arrayRest l) (follows_arrayRest l')
        (List.cons.inj h).2
      rw [ih hrest]

/-- No other array has the same text. -/
theorem stringify_injective {l l' : List Json} (h : stringify l = stringify l') : l = l' := by
  have hempty : ∀ (x : Json) (l : List Json), stringify [] ≠ stringify (x :: l) := by
    intro x l he
    rw [stringify_cons] at he
    have h1 := (List.cons.inj he).2
    cases x with
    | string s => cases (List.cons.inj h1).1
    | integer n =>
      obtain ⟨d, ds, hd⟩ := List.exists_cons_of_ne_nil (Nat.toDigits_ne_nil (n := n) (b := 10))
      have hdigit := Nat.isDigit_of_mem_toDigits (b := 10) (n := n) (by omega) (by omega)
        (hd ▸ List.mem_cons_self)
      simp only [Json.stringify] at h1
      rw [hd] at h1
      rw [← (List.cons.inj h1).1] at hdigit
      revert hdigit
      decide
  cases l with
  | nil =>
    cases l' with
    | nil => rfl
    | cons x l' => exact absurd h (hempty x l')
  | cons x l =>
    cases l' with
    | nil => exact absurd h.symm (hempty x l)
    | cons x' l' =>
      rw [stringify_cons, stringify_cons] at h
      obtain ⟨rfl, hrest⟩ := stringify_cancel (follows_arrayRest l) (follows_arrayRest l')
        (List.cons.inj h).2
      rw [arrayRest_injective hrest]

/-- A text without quotes, backslashes and control characters is quoted as it is. -/
theorem quote_plain {s : List Char} (h : ∀ c ∈ s, c ≠ '\"' ∧ c ≠ '\\' ∧ 32 ≤ c.toNat) :
    quote s = '\"' :: s ++ ['\"'] := by
  have hchar : ∀ c ∈ s, escapeChar c = [c] := by
    intro c hc
    obtain ⟨h1, h2, h3⟩ := h c hc
    unfold escapeChar
    rw [if_neg h1, if_neg h2]
    split_ifs with h4 h5 h6 h7 h8 h9
    · subst h4
      simp at h3
    · subst h5
      simp at h3
    · subst h6
      simp at h3
    · subst h7
      simp at h3
    · subst h8
      simp at h3
    · omega
    · rfl
  unfold quote
  congr 2
  induction s with
  | nil => rfl
  | cons c s ih =>
    rw [List.flatMap_cons, hchar c List.mem_cons_self, ih]
    · rfl
    · exact fun d hd => h d (List.mem_cons_of_mem _ hd)
    · exact fun d hd => hchar d (List.mem_cons_of_mem _ hd)

end Licensecc.Codec
