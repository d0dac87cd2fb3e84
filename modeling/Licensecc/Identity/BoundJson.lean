-- The parser of server replies in the client. It reads bytes, goes down one call for each
-- object, and takes objects, texts, truth values and unsigned integers only.
import Licensecc.Codec.JsonGrammar
import Licensecc.Codec.JsonShape
import Licensecc.Protocol.Checks

open Licensecc.Codec Licensecc.Protocol

namespace Licensecc.Identity.BoundJson

/-! ## Values -/

inductive Kind where
  | object
  | text
  | number
  | boolean

/-- A value. The entries of its map are in the order they were put in. -/
structure Value where
  type : Kind := .object
  fields : List (Bytes × Value) := []
  text : Bytes := []
  number : Nat := 0
  boolean : Bool := false

/-- `std::map::emplace` -/
def emplace (fields : List (Bytes × Value)) (key : Bytes) (item : Value) :
    Option (List (Bytes × Value)) :=
  if key ∈ fields.map (·.1) then none else some (fields ++ [(key, item)])

/-! ## Strings -/

def isSpaceByte (c : UInt8) : Bool :=
  c = byte ' ' || c = byte '\t' || c = byte '\r' || c = byte '\n'

/-- What is left of the source after white space. -/
def whitespace (s : Bytes) : Bytes := s.dropWhile isSpaceByte

def take (value : Char) (s : Bytes) : Option Bytes :=
  match whitespace s with
  | [] => none
  | c :: r => if c = byte value then some r else none

/-- The value of a hexadecimal digit, and 16 for any other character. -/
def hexValue (c : UInt8) : Nat :=
  if inRange '0' '9' c then c.toNat - 48
  else if inRange 'a' 'f' c then c.toNat - 97 + 10
  else if inRange 'A' 'F' c then c.toNat - 65 + 10
  else 16

def hexLoop : Nat → Nat → Bytes → Option (Nat × Bytes)
  | 0, out, s => some (out, s)
  | _ + 1, _, [] => none
  | i + 1, out, c :: r => if hexValue c = 16 then none else hexLoop i (out * 16 + hexValue c) r

def hex (s : Bytes) : Option (Nat × Bytes) := if s.length < 4 then none else hexLoop 4 0 s

/-- The bytes that are pushed for a code point. -/
def pointBytes (point : Nat) : Bytes :=
  if point < 0x80 then [UInt8.ofNat point]
  else if point < 0x800 then
    [UInt8.ofNat (0xc0 ||| point >>> 6), UInt8.ofNat (0x80 ||| (point &&& 63))]
  else if point < 0x10000 then
    [UInt8.ofNat (0xe0 ||| point >>> 12), UInt8.ofNat (0x80 ||| ((point >>> 6) &&& 63)),
      UInt8.ofNat (0x80 ||| (point &&& 63))]
  else
    [UInt8.ofNat (0xf0 ||| point >>> 18), UInt8.ofNat (0x80 ||| ((point >>> 12) &&& 63)),
      UInt8.ofNat (0x80 ||| ((point >>> 6) &&& 63)), UInt8.ofNat (0x80 ||| (point &&& 63))]

/-- The second half of a surrogate pair. -/
def lowHalf (point : Nat) (s : Bytes) : Option (Nat × Bytes) :=
  if s.length < 6 then none
  else
    match s with
    | b :: u :: r =>
      if b ≠ byte '\\' ∨ u ≠ byte 'u' then none
      else
        match hex r with
        | none => none
        | some (low, r) =>
          if low < 0xdc00 ∨ 0xdfff < low then none
          else some (0x10000 + ((point - 0xd800) <<< 10) + low - 0xdc00, r)
    | _ => none

/-- What an escape of hexadecimal digits pushes, and what follows it. -/
def unicode (s : Bytes) : Option (Bytes × Bytes) :=
  match hex s with
  | none => none
  | some (point, r) =>
    if 0xd800 ≤ point ∧ point ≤ 0xdbff then
      (lowHalf point r).map fun p => (pointBytes p.1, p.2)
    else if 0xdc00 ≤ point ∧ point ≤ 0xdfff then none
    else some (pointBytes point, r)

/-- What the other escapes push. -/
def escapedByte (e : UInt8) : Option UInt8 :=
  if e = byte '\"' then some (byte '\"')
  else if e = byte '\\' then some (byte '\\')
  else if e = byte '/' then some (byte '/')
  else if e = byte 'b' then some (byte '\x08')
  else if e = byte 'f' then some (byte '\x0c')
  else if e = byte 'n' then some (byte '\n')
  else if e = byte 'r' then some (byte '\r')
  else if e = byte 't' then some (byte '\t')
  else none

/-- The loop of `string`: what it pushes, and what follows the quote. Each turn takes a
byte at least. -/
def characters : Nat → Bytes → Option (Bytes × Bytes)
  | 0, _ => none
  | _ + 1, [] => none
  | n + 1, c :: r =>
    if c = byte '\"' then some ([], r)
    else if c.toNat < 32 then none
    else if c ≠ byte '\\' then (characters n r).map fun p => (c :: p.1, p.2)
    else
      match r with
      | [] => none
      | e :: r =>
        if e = byte 'u' then
          match unicode r with
          | none => none
          | some (pushed, r) => (characters n r).map fun p => (pushed ++ p.1, p.2)
        else
          match escapedByte e with
          | none => none
          | some pushed => (characters n r).map fun p => (pushed :: p.1, p.2)

def string (s : Bytes) : Option (Bytes × Bytes) :=
  match take '\"' s with
  | none => none
  | some r => characters r.length r

/-! ## Values and objects -/

def digits (s : Bytes) : Bytes := s.takeWhile (inRange '0' '9')

mutual

/-- One value, and what follows it. The first number bounds the depth of the calls. -/
def value : Nat → Bytes → Nat → Option (Value × Bytes)
  | 0, _, _ => none
  | n + 1, s, depth =>
    match whitespace s with
    | [] => none
    | first :: r =>
      if first = byte '\x7b' then object n (first :: r) depth
      else if first = byte '\"' then
        (string (first :: r)).map fun p => ({ type := .text, text := p.1 }, p.2)
      else if (bytesOf "true".toList).isPrefixOf (first :: r) then
        some ({ type := .boolean, boolean := true }, (first :: r).drop 4)
      else if (bytesOf "false".toList).isPrefixOf (first :: r) then
        some ({ type := .boolean, boolean := false }, (first :: r).drop 5)
      else
        (safe_integer (digits (first :: r))).map fun number =>
          ({ type := .number, number }, (first :: r).dropWhile (inRange '0' '9'))

def object : Nat → Bytes → Nat → Option (Value × Bytes)
  | 0, _, _ => none
  | n + 1, s, depth =>
    if 4 < depth then none
    else
      match take '\x7b' s with
      | none => none
      | some r =>
        match take '\x7d' r with
        | some r => some ({}, r)
        | none => (members n r depth []).map fun p => ({ fields := p.1 }, p.2)

/-- A member: the first half of a turn of the loop of `object`. -/
def member : Nat → Bytes → Nat → Option ((Bytes × Value) × Bytes)
  | 0, _, _ => none
  | n + 1, s, depth =>
    match string s with
    | none => none
    | some (key, r) =>
      if 1024 < key.length then none
      else
        match take ':' r with
        | none => none
        | some r => (value n r (depth + 1)).map fun p => ((key, p.1), p.2)

/-- The loop of `object`, from the fields so far. -/
def members : Nat → Bytes → Nat → List (Bytes × Value) → Option (List (Bytes × Value) × Bytes)
  | 0, _, _, _ => none
  | n + 1, s, depth, fields =>
    match member n s depth with
    | none => none
    | some ((key, item), r) =>
      match emplace fields key item with
      | none => none
      | some fields =>
        if 32 < fields.length then none
        else
          match take '\x7d' r with
          | some r => some (fields, r)
          | none =>
            match take ',' r with
            | none => none
            | some r => members n r depth fields

end

def run (source : Bytes) : Option Value :=
  match object (3 * source.length) source 1 with
  | none => none
  | some (out, r) => if whitespace r = [] then some out else none

/-- `bound_json::parse`: whether it succeeds, and the output. -/
def parse (source : Bytes) (out : Value) : Bool × Value :=
  if !utf8_text source 16384 then (false, out)
  else
    match run source with
    | none => (false, out)
    | some candidate => (true, candidate)

/-! ## Bytes of characters -/

theorem toNat_byte {c : Char} (h : c.toNat < 128) : (byte c).toNat = c.toNat := by
  unfold byte
  rw [UInt8.toNat_ofNat', Nat.mod_eq_of_lt (by omega)]

theorem utf8_plain {c : Char} (h : c.toNat < 128) (s : List Char) :
    utf8 (c :: s) = byte c :: utf8 s := by
  rw [utf8_cons, utf8EncodeChar_ascii h]
  rfl

theorem byte_inj {c d : Char} (hc : c.toNat < 128) (hd : d.toNat < 128) (h : byte c = byte d) :
    c = d := by
  have := congrArg UInt8.toNat h
  rw [toNat_byte hc, toNat_byte hd] at this
  exact Char.toNat_inj.mp this

/-- A text whose first byte is below 128 begins with the character of that byte. -/
theorem utf8_head {cs : List Char} {b : UInt8} {r : Bytes} (h : utf8 cs = b :: r)
    (hb : b.toNat < 128) : ∃ c s, cs = c :: s ∧ c.toNat < 128 ∧ b = byte c ∧ r = utf8 s := by
  cases cs with
  | nil => cases h
  | cons c s =>
    by_cases hc : c.toNat < 128
    · rw [utf8_plain hc] at h
      obtain ⟨rfl, rfl⟩ := List.cons.inj h
      exact ⟨c, s, rfl, hc, rfl, rfl⟩
    · rw [utf8_cons] at h
      obtain ⟨d, l, hl⟩ := List.exists_cons_of_ne_nil (utf8EncodeChar_ne_nil c)
      have hhigh := utf8EncodeChar_high hc d (by rw [hl]; exact List.mem_cons_self)
      rw [hl, List.cons_append] at h
      obtain ⟨rfl, -⟩ := List.cons.inj h
      omega

/-- The first byte of a character from 128 on is not below 128. -/
theorem utf8_high {c : Char} (h : ¬c.toNat < 128) (s : List Char) :
    ∃ b r, utf8 (c :: s) = b :: r ∧ 128 ≤ b.toNat := by
  obtain ⟨b, l, hl⟩ := List.exists_cons_of_ne_nil (utf8EncodeChar_ne_nil c)
  refine ⟨b, l ++ utf8 s, by rw [utf8_cons, hl]; rfl, ?_⟩
  exact utf8EncodeChar_high h b (by rw [hl]; exact List.mem_cons_self)

/-- What is pushed for the code point of a character is its encoding. -/
theorem pointBytes_char (c : Char) : pointBytes c.toNat = String.utf8EncodeChar c := by
  have hmax : c.toNat < 0x110000 := by
    rcases c.valid with hlow | hhigh
    · exact Nat.lt_trans hlow (by decide)
    · exact hhigh.2
  have hc : c.val.toNat = c.toNat := rfl
  have h2 : ∀ n < 32, 0xc0 ||| n = n % 0x20 + 0xc0 := by decide
  have h3 : ∀ n < 16, 0xe0 ||| n = n % 0x10 + 0xe0 := by decide
  have h4 : ∀ n < 5, 0xf0 ||| n = n % 0x08 + 0xf0 := by decide
  have hrest : ∀ n, 0x80 ||| (n &&& 63) = n % 0x40 + 0x80 := by
    intro n
    have hall : ∀ n < 64, 0x80 ||| n = n + 0x80 := by decide
    rw [show (63 : Nat) = 2 ^ 6 - 1 from rfl, Nat.and_two_pow_sub_one_eq_mod]
    exact hall _ (Nat.mod_lt _ (by decide))
  unfold pointBytes String.utf8EncodeChar
  simp only [hc, hrest, Nat.shiftRight_eq_div_pow]
  by_cases h7 : c.toNat < 0x80
  · rw [if_pos h7, if_pos (by omega)]
  by_cases h11 : c.toNat < 0x800
  · rw [if_neg h7, if_pos h11, if_neg (by omega), if_pos (by omega), h2 _ (by omega)]
  by_cases h16 : c.toNat < 0x10000
  · rw [if_neg h7, if_neg h11, if_pos h16, if_neg (by omega), if_neg (by omega),
      if_pos (by omega), h3 _ (by omega)]
  · rw [if_neg h7, if_neg h11, if_neg h16, if_neg (by omega), if_neg (by omega),
      if_neg (by omega), h4 _ (by omega)]

/-! ## Hexadecimal digits -/

theorem hexDigit?_lt {c : Char} {d : Nat} (h : hexDigit? c = some d) : c.toNat < 128 ∧ d < 16 := by
  unfold hexDigit? at h
  split at h
  · rename_i hc
    have := isDigit_toNat hc
    obtain rfl := Option.some.inj h
    omega
  split at h
  · rename_i hc
    have h1 : 97 ≤ c.toNat := hc.1
    have h2 : c.toNat ≤ 102 := hc.2
    obtain rfl := Option.some.inj h
    omega
  split at h
  · rename_i hc
    have h1 : 65 ≤ c.toNat := hc.1
    have h2 : c.toNat ≤ 70 := hc.2
    obtain rfl := Option.some.inj h
    omega
  · cases h

/-- Both readers see the same digits. -/
theorem hexValue_byte : ∀ n < 128,
    hexValue (UInt8.ofNat n) = (hexDigit? (Char.ofNat n)).getD 16 := by decide

theorem hexValue_high {b : UInt8} (h : 128 ≤ b.toNat) : hexValue b = 16 := by
  unfold hexValue inRange
  have h1 : ('9' : Char).toNat = 57 := rfl
  have h2 : ('f' : Char).toNat = 102 := rfl
  have h3 : ('F' : Char).toNat = 70 := rfl
  rw [if_neg (by simp; omega), if_neg (by simp; omega), if_neg (by simp; omega)]

theorem hexLoop_utf8 (i out : Nat) (c : Char) (s : List Char) :
    hexLoop (i + 1) out (utf8 (c :: s)) =
      (hexDigit? c).bind fun d => hexLoop i (out * 16 + d) (utf8 s) := by
  by_cases hc : c.toNat < 128
  · have hvalue := hexValue_byte c.toNat hc
    rw [Char.ofNat_toNat] at hvalue
    rw [utf8_plain hc]
    conv => lhs; unfold hexLoop
    unfold byte
    rw [hvalue]
    cases hd : hexDigit? c with
    | none => rfl
    | some d =>
      have hlt := (hexDigit?_lt hd).2
      rw [Option.getD_some, if_neg (by omega)]
      rfl
  · obtain ⟨b, r, hb, hhigh⟩ := utf8_high hc s
    have hnone : hexDigit? c = none := by
      cases hd : hexDigit? c with
      | none => rfl
      | some d => exact absurd (hexDigit?_lt hd).1 hc
    rw [hb, hnone]
    unfold hexLoop
    rw [if_pos (hexValue_high hhigh)]
    rfl

theorem hexLoop_short {i out : Nat} {s : Bytes} (h : s.length < i) : hexLoop i out s = none := by
  induction i generalizing out s with
  | zero => omega
  | succ i ih =>
    cases s with
    | nil => rfl
    | cons c r =>
      rw [List.length_cons] at h
      unfold hexLoop
      split
      · rfl
      · exact ih (by omega)

theorem hex_eq (s : Bytes) : hex s = hexLoop 4 0 s := by
  unfold hex
  split
  · rename_i h
    rw [hexLoop_short h]
  · rfl

/-- Four digits, as a unit. -/
theorem hex_utf8 (a b c d : Char) (s : List Char) : hex (utf8 (a :: b :: c :: d :: s)) =
    (hexUnit? a b c d).map fun u => (u.toNat, utf8 s) := by
  rw [hex_eq, hexLoop_utf8]
  unfold hexUnit?
  cases ha : hexDigit? a with
  | none => rfl
  | some x =>
    rw [Option.bind_some, hexLoop_utf8]
    cases hb : hexDigit? b with
    | none => rfl
    | some y =>
      rw [Option.bind_some, hexLoop_utf8]
      cases hc : hexDigit? c with
      | none => rfl
      | some z =>
        rw [Option.bind_some, hexLoop_utf8]
        cases hd : hexDigit? d with
        | none => rfl
        | some w =>
          have h1 := (hexDigit?_lt ha).2
          have h2 := (hexDigit?_lt hb).2
          have h3 := (hexDigit?_lt hc).2
          have h4 := (hexDigit?_lt hd).2
          rw [Option.bind_some, Option.map_some, UInt16.toNat_ofNat', Nat.mod_eq_of_lt (by omega)]
          unfold hexLoop
          rw [show (((0 * 16 + x) * 16 + y) * 16 + z) * 16 + w =
            x * 4096 + y * 256 + z * 16 + w by omega]

/-- Fewer characters are no four digits. -/
theorem hex_utf8_short {s : List Char} (h : s.length < 4) : hex (utf8 s) = none := by
  have hloop : ∀ (i out : Nat) (s : List Char), s.length < i → hexLoop i out (utf8 s) = none := by
    intro i
    induction i with
    | zero =>
      intro out s h
      omega
    | succ i ih =>
      intro out s h
      cases s with
      | nil => rfl
      | cons c s =>
        rw [List.length_cons] at h
        rw [hexLoop_utf8]
        cases hexDigit? c with
        | none => rfl
        | some d => exact ih _ s (by omega)
  rw [hex_eq]
  exact hloop 4 0 s h

/-! ## Escapes -/

/-- The unit of an escape of hexadecimal digits that is a low surrogate, and what follows it. -/
def lowUnit? : List Char → Option (UInt16 × List Char)
  | '\\' :: 'u' :: a :: b :: c :: d :: r =>
    (hexUnit? a b c d).bind fun v => if isLow v then some (v, r) else none
  | _ => none

theorem lowUnit?_escape (a b c d : Char) (r : List Char) :
    lowUnit? ('\\' :: 'u' :: a :: b :: c :: d :: r) =
      (hexUnit? a b c d).bind fun v => if isLow v then some (v, r) else none := rfl

/-- A low surrogate that is escaped, for both readers. -/
theorem lowUnit?_some {s s' : List Char} {v : UInt16} (h : lowUnit? s = some (v, s')) :
    isLow v = true ∧ s'.length ≤ s.length ∧ (utf8 s').length ≤ (utf8 s).length ∧
      readString s = (readString s').map fun p => (v :: p.1, p.2) := by
  unfold lowUnit? at h
  split at h
  · rename_i a b c d r
    obtain ⟨w, hw, h⟩ := Option.bind_eq_some_iff.mp h
    split at h
    · rename_i hlow
      obtain ⟨rfl, rfl⟩ := Prod.mk.inj (Option.some.inj h)
      refine ⟨hlow, ?_, ?_, ?_⟩
      · simp only [List.length_cons]
        omega
      · simp only [utf8_cons, List.length_append]
        omega
      · simp only [readString, hw]
    · cases h
  · cases h

theorem isLow_iff {u : UInt16} : isLow u = true ↔ 0xdc00 ≤ u.toNat ∧ u.toNat ≤ 0xdfff := by
  unfold isLow
  rw [Bool.and_eq_true, decide_eq_true_eq, decide_eq_true_eq]
  omega

theorem isHigh_iff {u : UInt16} : isHigh u = true ↔ 0xd800 ≤ u.toNat ∧ u.toNat ≤ 0xdbff := by
  unfold isHigh
  rw [Bool.and_eq_true, decide_eq_true_eq, decide_eq_true_eq]
  omega

/-- Some characters are the start of an escape, or their bytes are not. -/
theorem escape_or_not (s : List Char) : (∃ t, s = '\\' :: 'u' :: t) ∨
    (lowUnit? s = none ∧ ∀ {b u : UInt8} {r : Bytes}, utf8 s = b :: u :: r →
      b ≠ byte '\\' ∨ u ≠ byte 'u') := by
  by_cases h : ∃ t, s = '\\' :: 'u' :: t
  · exact Or.inl h
  right
  constructor
  · unfold lowUnit?
    split
    · exact absurd ⟨_, rfl⟩ h
    · rfl
  · intro b u r heq
    by_contra hboth
    rw [not_or, not_not, not_not] at hboth
    obtain ⟨rfl, rfl⟩ := hboth
    obtain ⟨c, s, rfl, hc, hbyte, hr⟩ := utf8_head heq (by decide)
    obtain ⟨d, t, rfl, hd, hbyte', -⟩ := utf8_head hr.symm (by decide)
    obtain rfl := byte_inj (by decide) hc hbyte
    obtain rfl := byte_inj (by decide) hd hbyte'
    exact h ⟨t, rfl⟩

theorem lowHalf_utf8 (point : Nat) (s : List Char) : lowHalf point (utf8 s) =
    (lowUnit? s).map fun q =>
      (0x10000 + ((point - 0xd800) <<< 10) + q.1.toNat - 0xdc00, utf8 q.2) := by
  rcases escape_or_not s with ⟨t, rfl⟩ | ⟨hnone, hbytes⟩
  · have hutf8 : utf8 ('\\' :: 'u' :: t) = byte '\\' :: byte 'u' :: utf8 t := by
      rw [utf8_plain (by decide), utf8_plain (by decide)]
    have hstep : lowHalf point (utf8 ('\\' :: 'u' :: t)) =
        (hex (utf8 t)).bind fun q => if q.1 < 0xdc00 ∨ 0xdfff < q.1 then none
          else some (0x10000 + ((point - 0xd800) <<< 10) + q.1 - 0xdc00, q.2) := by
      rw [hutf8]
      unfold lowHalf
      by_cases hlen : (utf8 t).length < 4
      · have hnone : hex (utf8 t) = none := if_pos hlen
        rw [if_pos (by simp only [List.length_cons]; omega), hnone]
        rfl
      · rw [if_neg (by simp only [List.length_cons]; omega)]
        dsimp only
        rw [if_neg (by simp)]
        cases hex (utf8 t) with
        | none => rfl
        | some q => rfl
    rw [hstep]
    match t with
    | a :: b :: c :: d :: r =>
      rw [hex_utf8, lowUnit?_escape]
      cases hexUnit? a b c d with
      | none => rfl
      | some v =>
        simp only [Option.map_some, Option.bind_some]
        by_cases hlow : isLow v = true
        · have := isLow_iff.mp hlow
          rw [if_neg (by omega), if_pos hlow]
          rfl
        · have hrange := mt isLow_iff.mpr hlow
          rw [if_pos (by omega), if_neg hlow]
          rfl
    | [] => rw [hex_utf8_short (by simp)]; rfl
    | [a] => rw [hex_utf8_short (by simp)]; rfl
    | [a, b] => rw [hex_utf8_short (by simp)]; rfl
    | [a, b, c] => rw [hex_utf8_short (by simp)]; rfl
  · rw [hnone]
    unfold lowHalf
    split
    · rfl
    split
    · rename_i heq
      rw [if_pos (hbytes heq)]
      rfl
    · rfl

theorem escapedUnit?_ascii {e : Char} {u : UInt16} (h : escapedUnit? e = some u) :
    e.toNat < 128 := by
  unfold escapedUnit? at h
  split at h
  · decide
  · decide
  · decide
  · decide
  · decide
  · decide
  · decide
  · decide
  · cases h

/-- Both readers know the same short escapes. -/
theorem escapedByte_byte : ∀ n < 128, escapedByte (UInt8.ofNat n) =
    (escapedUnit? (Char.ofNat n)).map fun u => UInt8.ofNat u.toNat := by decide

theorem escapedUnit?_small : ∀ n < 128,
    (escapedUnit? (Char.ofNat n)).all (fun u => decide (u.toNat < 128)) = true := by decide

theorem escapedUnit?_lt {e : Char} {u : UInt16} (h : escapedUnit? e = some u) : u.toNat < 128 := by
  have hsmall := escapedUnit?_small e.toNat (escapedUnit?_ascii h)
  rw [Char.ofNat_toNat, h] at hsmall
  exact of_decide_eq_true hsmall

/-- What follows an escape of a high surrogate begins with a low one only when another
escape follows. -/
theorem readString_low {s r : List Char} {v : UInt16} {t : JsText}
    (h : readString s = some (v :: t, r)) (hv : isLow v = true) : ∃ s', lowUnit? s = some (v, s') ∧
      readString s' = some (t, r) := by
  have hrange := isLow_iff.mp hv
  unfold readString at h
  split at h
  · cases h
  · rename_i a b c d s
    split at h
    · rename_i u hu
      obtain ⟨p, hp, heq⟩ := Option.map_eq_some_iff.mp h
      obtain ⟨hcons, rfl⟩ := Prod.mk.inj heq
      obtain ⟨rfl, rfl⟩ := List.cons.inj hcons
      refine ⟨s, ?_, hp⟩
      rw [lowUnit?_escape, hu, Option.bind_some, if_pos hv]
    · cases h
  · split at h
    · rename_i u hu
      obtain ⟨p, hp, heq⟩ := Option.map_eq_some_iff.mp h
      obtain ⟨rfl, -⟩ := List.cons.inj (Prod.mk.inj heq).1
      have := escapedUnit?_lt hu
      omega
    · cases h
  · split at h
    · cases h
    · rename_i c s _ _ _ hc
      obtain ⟨p, hp, heq⟩ := Option.map_eq_some_iff.mp h
      have hunits := (Prod.mk.inj heq).1
      have hpoints := codePoints_units c p.1
      rw [hunits] at hpoints
      have hsingle : isHigh v = false := by
        rw [← Bool.not_eq_true, isHigh_iff]
        omega
      rw [codePoints_cons hsingle] at hpoints
      unfold single at hpoints
      rw [hv, Bool.or_true, if_pos rfl] at hpoints
      cases hpoints
  · cases h

theorem unicode_utf8 {a b c d : Char} {u : UInt16} (h : hexUnit? a b c d = some u)
    (s : List Char) : unicode (utf8 (a :: b :: c :: d :: s)) =
      if isHigh u then
        (lowUnit? s).map fun q => (String.utf8EncodeChar (pairChar u q.1), utf8 q.2)
      else if isLow u then none
      else some (String.utf8EncodeChar (Char.ofNat u.toNat), utf8 s) := by
  unfold unicode
  rw [hex_utf8, h, Option.map_some]
  dsimp only
  by_cases hhigh : isHigh u = true
  · have hu := isHigh_iff.mp hhigh
    rw [if_pos hu, if_pos hhigh, lowHalf_utf8]
    cases hlow : lowUnit? s with
    | none => rfl
    | some q =>
      obtain ⟨v, r⟩ := q
      have hv := isLow_iff.mp (lowUnit?_some hlow).1
      have hvalid : (0x10000 + (u.toNat - 0xd800) * 0x400 + (v.toNat - 0xdc00)).isValidChar := by
        unfold Nat.isValidChar
        omega
      have hpoint : 0x10000 + ((u.toNat - 0xd800) <<< 10) + v.toNat - 0xdc00 =
          (pairChar u v).toNat := by
        unfold pairChar
        rw [toNat_charOfNat hvalid, Nat.shiftLeft_eq]
        omega
      simp only [Option.map_some]
      rw [hpoint, pointBytes_char]
  · have hu := mt isHigh_iff.mpr hhigh
    rw [if_neg hu, if_neg hhigh]
    by_cases hlow : isLow u = true
    · rw [if_pos (isLow_iff.mp hlow), if_pos hlow]
    · have hl := mt isLow_iff.mpr hlow
      have hlt := u.toNat_lt
      have hvalid : u.toNat.isValidChar := by
        unfold Nat.isValidChar
        omega
      rw [if_neg hl, if_neg hlow, ← pointBytes_char, toNat_charOfNat hvalid]

/-! ## Strings of both readers -/

theorem characters_push {l : Bytes} (h : ∀ b ∈ l, 128 ≤ b.toNat) (n : Nat) (s : Bytes) :
    characters (n + l.length) (l ++ s) = (characters n s).map fun p => (l ++ p.1, p.2) := by
  induction l with
  | nil =>
    simp only [List.length_nil, Nat.add_zero, List.nil_append]
    exact Option.map_id'.symm
  | cons b l ih =>
    obtain ⟨hb, hl⟩ := List.forall_mem_cons.mp h
    have hne : ∀ c : Char, c.toNat < 128 → b ≠ byte c := by
      rintro c hc rfl
      rw [toNat_byte hc] at hb
      omega
    rw [List.length_cons, List.cons_append, ← Nat.add_assoc]
    conv => lhs; unfold characters
    rw [if_neg (hne _ (by decide)), if_neg (by omega), if_pos (hne _ (by decide)), ih hl,
      Option.map_map]
    rfl

/-- The characters of a text and what follows it, when no surrogate stands alone. -/
def wholeString (cs : List Char) : Option (Bytes × Bytes) :=
  (readString cs).bind fun p => (chars? p.1).map fun t => (utf8 t, utf8 p.2)

theorem wholeString_map {cs s : List Char} {c : Char} {units : JsText}
    (hread : readString cs = (readString s).map fun p => (units ++ p.1, p.2))
    (hchars : ∀ t, chars? (units ++ t) = (chars? t).map (c :: ·)) :
    wholeString cs =
      (wholeString s).map fun p => (String.utf8EncodeChar c ++ p.1, p.2) := by
  unfold wholeString
  rw [hread]
  cases readString s with
  | none => rfl
  | some p =>
    simp only [Option.map_some, Option.bind_some, hchars]
    cases chars? p.1 with
    | none => rfl
    | some t => rfl

/-- A character that stands for itself, below 128. -/
theorem characters_byte {c : Char} (hc : c.toNat < 128) (hquote : c ≠ '\"') (hback : c ≠ '\\')
    (n : Nat) (r : Bytes) : characters (n + 1) (byte c :: r) = if c.toNat < 32 then none
      else (characters n r).map fun p => (byte c :: p.1, p.2) := by
  conv => lhs; unfold characters
  rw [if_neg fun h => hquote (byte_inj hc (by decide) h), toNat_byte hc,
    if_pos fun h => hback (byte_inj hc (by decide) h)]

/-- An escape of one character. -/
theorem characters_short {e : Char} (hu : e ≠ 'u') (n : Nat) (s : List Char) :
    characters (n + 1) (byte '\\' :: utf8 (e :: s)) = (escapedUnit? e).bind fun u =>
      (characters n (utf8 s)).map fun p => (UInt8.ofNat u.toNat :: p.1, p.2) := by
  conv => lhs; unfold characters
  rw [if_neg (by decide), if_neg (by decide), if_neg (by simp)]
  by_cases he : e.toNat < 128
  · have hescaped := escapedByte_byte e.toNat he
    rw [Char.ofNat_toNat] at hescaped
    rw [utf8_plain he]
    dsimp only
    rw [if_neg fun h => hu (byte_inj he (by decide) h)]
    unfold byte
    rw [hescaped]
    cases escapedUnit? e with
    | none => rfl
    | some u => rfl
  · obtain ⟨b, r, hb, hhigh⟩ := utf8_high he s
    have hne : ∀ c : Char, c.toNat < 128 → b ≠ byte c := by
      rintro c hc rfl
      rw [toNat_byte hc] at hhigh
      omega
    have hnone : escapedUnit? e = none := by
      cases h : escapedUnit? e with
      | none => rfl
      | some u => exact absurd (escapedUnit?_ascii h) he
    have hbyte : escapedByte b = none := by
      unfold escapedByte
      rw [if_neg (hne _ (by decide)), if_neg (hne _ (by decide)), if_neg (hne _ (by decide)),
        if_neg (hne _ (by decide)), if_neg (hne _ (by decide)), if_neg (hne _ (by decide)),
        if_neg (hne _ (by decide)), if_neg (hne _ (by decide))]
    rw [hb, hnone]
    dsimp only
    rw [if_neg (hne _ (by decide)), hbyte]
    rfl

theorem wholeString_short {e : Char} (hu : e ≠ 'u') (s : List Char) :
    wholeString ('\\' :: e :: s) = (escapedUnit? e).bind fun u =>
      (wholeString s).map fun p => (UInt8.ofNat u.toNat :: p.1, p.2) := by
  cases he : escapedUnit? e with
  | none =>
    unfold wholeString
    rw [readString_short hu, he]
    rfl
  | some u =>
    have hlt := escapedUnit?_lt he
    have hhigh : isHigh u = false := by
      rw [← Bool.not_eq_true, isHigh_iff]
      omega
    have hlow : isLow u = false := by
      rw [← Bool.not_eq_true, isLow_iff]
      omega
    have hread : readString ('\\' :: e :: s) = (readString s).map fun p => ([u] ++ p.1, p.2) := by
      rw [readString_short hu, he]
      rfl
    have hchar : (Char.ofNat u.toNat).toNat = u.toNat := toNat_ofNat (by omega)
    rw [wholeString_map hread (chars?_single hhigh hlow), utf8EncodeChar_ascii (by omega), hchar]
    rfl

/-- An escape of hexadecimal digits. -/
theorem characters_unicode (n : Nat) (s : Bytes) :
    characters (n + 1) (byte '\\' :: byte 'u' :: s) = (unicode s).bind fun q =>
      (characters n q.2).map fun p => (q.1 ++ p.1, p.2) := by
  conv => lhs; unfold characters
  rw [if_neg (by decide), if_neg (by decide), if_neg (by simp)]
  dsimp only
  rw [if_pos rfl]
  cases unicode s with
  | none => rfl
  | some q => rfl

theorem wholeString_hex {a b c d : Char} {s : List Char} {u : UInt16}
    (hu : hexUnit? a b c d = some u) : wholeString ('\\' :: 'u' :: a :: b :: c :: d :: s) =
      (readString s).bind fun p => (chars? (u :: p.1)).map fun t => (utf8 t, utf8 p.2) := by
  unfold wholeString
  simp only [readString, hu]
  cases readString s with
  | none => rfl
  | some p => rfl

/-- An escape of a unit: it stands for a character, it is half of a pair, or it is alone. -/
theorem characters_hex {a b c d : Char} {s : List Char} {u : UInt16} {n : Nat}
    (hu : hexUnit? a b c d = some u)
    (ih : ∀ s', s'.length ≤ s.length → (utf8 s').length ≤ (utf8 s).length →
      characters n (utf8 s') = wholeString s') :
    characters (n + 1) (byte '\\' :: byte 'u' :: utf8 (a :: b :: c :: d :: s)) =
      wholeString ('\\' :: 'u' :: a :: b :: c :: d :: s) := by
  rw [characters_unicode, unicode_utf8 hu]
  by_cases hhigh : isHigh u = true
  · rw [if_pos hhigh, wholeString_hex hu]
    cases hlow : lowUnit? s with
    | none =>
      symm
      rw [Option.map_none, Option.bind_none, Option.bind_eq_none_iff]
      rintro ⟨t, r⟩ hread
      rw [chars?_high hhigh]
      · rfl
      · intro v hv
        cases t with
        | nil => cases hv
        | cons w t =>
          obtain rfl := Option.some.inj hv
          by_contra hnot
          rw [Bool.not_eq_false] at hnot
          obtain ⟨s', hs', -⟩ := readString_low hread hnot
          rw [hlow] at hs'
          cases hs'
    | some q =>
      obtain ⟨v, s'⟩ := q
      obtain ⟨hv, hle, hbytes, hread⟩ := lowUnit?_some hlow
      have hpair : ∀ t, chars? ([u, v] ++ t) = (chars? t).map (pairChar u v :: ·) :=
        chars?_pair hhigh hv
      have hunits : readString ('\\' :: 'u' :: a :: b :: c :: d :: s) =
          (readString s').map fun p => ([u, v] ++ p.1, p.2) := by
        simp only [readString, hu, hread, Option.map_map, Function.comp_def, List.cons_append,
          List.nil_append]
      rw [Option.map_some, Option.bind_some, ← wholeString_hex hu, wholeString_map hunits hpair]
      dsimp only
      rw [ih s' hle hbytes]
  rw [if_neg hhigh]
  by_cases hlow : isLow u = true
  · rw [if_pos hlow, wholeString_hex hu]
    symm
    rw [Option.bind_none, Option.bind_eq_none_iff]
    intro p _
    rw [chars?_low hlow]
    rfl
  · have hread : readString ('\\' :: 'u' :: a :: b :: c :: d :: s) =
        (readString s).map fun p => ([u] ++ p.1, p.2) := by
      simp only [readString, hu]
      rfl
    rw [if_neg hlow, Option.bind_some, ih s le_rfl le_rfl]
    exact (wholeString_map hread
      (chars?_single (Bool.not_eq_true _ ▸ hhigh) (Bool.not_eq_true _ ▸ hlow))).symm

theorem characters_none {a b c d : Char} {s : List Char} (hu : hexUnit? a b c d = none) (n : Nat) :
    characters (n + 1) (byte '\\' :: byte 'u' :: utf8 (a :: b :: c :: d :: s)) =
      wholeString ('\\' :: 'u' :: a :: b :: c :: d :: s) := by
  have hunicode : unicode (utf8 (a :: b :: c :: d :: s)) = none := by
    unfold unicode
    rw [hex_utf8, hu]
    rfl
  unfold wholeString
  simp only [readString, hu]
  rw [characters_unicode, hunicode]
  rfl

/-- Too few digits are no escape for either reader. -/
theorem characters_few {s : List Char} (hs : s.length < 4) (n : Nat) :
    characters (n + 1) (byte '\\' :: byte 'u' :: utf8 s) = wholeString ('\\' :: 'u' :: s) := by
  have hread : readString ('\\' :: 'u' :: s) = none := by
    match s with
    | [] => rfl
    | [a] => rfl
    | [a, b] => rfl
    | [a, b, c] => rfl
    | a :: b :: c :: d :: r =>
      simp only [List.length_cons] at hs
      omega
  have hunicode : unicode (utf8 s) = none := by
    unfold unicode
    rw [hex_utf8_short hs]
  unfold wholeString
  rw [characters_unicode, hunicode, hread]
  rfl

/-- A string token is read as its characters are. -/
theorem characters_utf8 {n : Nat} {cs : List Char} (hn : (utf8 cs).length ≤ n) :
    characters n (utf8 cs) = wholeString cs := by
  induction hlen : cs.length using Nat.strong_induction_on generalizing cs n with
  | _ len ih =>
    subst hlen
    cases cs with
    | nil =>
      cases n with
      | zero => rfl
      | succ n => rfl
    | cons c s =>
      by_cases hc : c.toNat < 128
      · rw [utf8_plain hc] at hn ⊢
        rw [List.length_cons] at hn
        obtain ⟨n, rfl⟩ : ∃ k, n = k + 1 := ⟨n - 1, by omega⟩
        by_cases hquote : c = '\"'
        · subst hquote
          rfl
        by_cases hback : c = '\\'
        · subst hback
          cases s with
          | nil => rfl
          | cons e s =>
            by_cases he : e = 'u'
            · subst he
              rw [utf8_plain (by decide)] at hn ⊢
              rw [List.length_cons] at hn
              match s with
              | a :: b :: c :: d :: r =>
                obtain ⟨n, rfl⟩ : ∃ k, n = k + 1 := ⟨n - 1, by omega⟩
                have hlen : (utf8 (a :: b :: c :: d :: r)).length ≤ n := by omega
                cases hu : hexUnit? a b c d with
                | none => exact characters_none hu _
                | some u =>
                  apply characters_hex hu
                  intro s' hle hbytes
                  simp only [utf8_cons, List.length_append] at hlen
                  exact ih s'.length (by simp only [List.length_cons]; omega) (by omega) rfl
              | [] => exact characters_few (by simp) n
              | [a] => exact characters_few (by simp) n
              | [a, b] => exact characters_few (by simp) n
              | [a, b, c] => exact characters_few (by simp) n
            · simp only [utf8_cons, List.length_append] at hn
              rw [characters_short he, ih s.length (by simp only [List.length_cons]; omega) (by omega) rfl,
                wholeString_short he]
        · rw [characters_byte hc hquote hback]
          by_cases hlow : c.toNat < 32
          · unfold wholeString
            rw [if_pos hlow, readString_char hquote hback, if_pos hlow]
            rfl
          · have hread : readString (c :: s) =
                (readString s).map fun p => ((CodePoint.char c).units ++ p.1, p.2) := by
              rw [readString_char hquote hback, if_neg hlow]
            rw [if_neg hlow, wholeString_map hread (chars?_units c), utf8EncodeChar_ascii hc,
              ih s.length (by simp) (by omega) rfl]
            rfl
      · have hquote : c ≠ '\"' := by
          rintro rfl
          exact hc (by decide)
        have hback : c ≠ '\\' := by
          rintro rfl
          exact hc (by decide)
        have hread : readString (c :: s) =
            (readString s).map fun p => ((CodePoint.char c).units ++ p.1, p.2) := by
          rw [readString_char hquote hback, if_neg (by omega)]
        have hpos := c.utf8Size_pos
        rw [utf8_cons, List.length_append, String.length_utf8EncodeChar] at hn
        obtain ⟨m, rfl⟩ : ∃ m, n = m + (String.utf8EncodeChar c).length :=
          ⟨n - c.utf8Size, by rw [String.length_utf8EncodeChar]; omega⟩
        rw [String.length_utf8EncodeChar] at hn
        rw [utf8_cons, characters_push (utf8EncodeChar_high hc),
          ih s.length (by simp) (by omega) rfl, wholeString_map hread (chars?_units c)]

end Licensecc.Identity.BoundJson
