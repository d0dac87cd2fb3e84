-- The parser of request bodies. It reads the text a second time, token by token, beside
-- `JSON.parse`, for what the parsed value no longer shows: names that come twice, numbers
-- that are no unsigned integers, and how deep the text nests. What it takes is exactly a
-- text of an object with none of these.
import Licensecc.Codec.JsonGrammar
import Licensecc.Codec.JsonShape

open Licensecc.Codec

namespace Licensecc.Http

/-- `UnsignedJsonError` -/
structure UnsignedJsonError where
  code : String
  status : Nat

def invalid : UnsignedJsonError := { code := "invalid_request", status := 400 }

def MAX_BODY : Nat := 16384

/-! ## The scan -/

/-- What is open: for an object the names so far, for an array nothing. -/
abbrev Stack := List (Option (List JsText))

/-- The rest of a string token, with its quote, and what follows it. An escape is taken
with the character after it. -/
def takeQuoted : List Char → List Char × List Char
  | '\\' :: c :: r => ('\\' :: c :: (takeQuoted r).1, (takeQuoted r).2)
  | '\"' :: r => (['\"'], r)
  | c :: r => (c :: (takeQuoted r).1, (takeQuoted r).2)
  | [] => ([], [])

def startsNumber (c : Char) : Bool := c = '-' || c.isDigit

/-- The token at some place, and what follows it. -/
def takeToken (first : Char) (r : List Char) : List Char × List Char :=
  if first = '\"' then (first :: (takeQuoted r).1, (takeQuoted r).2)
  else if startsNumber first then (first :: r.takeWhile isNumberUnit, r.dropWhile isNumberUnit)
  else ([first], r)

/-- `utf8.decode(encoder.encode(text)) === text` -/
def survives (text : JsText) : Bool := (decodeUtf8 (encode text)).map ofChars = some text

/-- An unsigned integer that JSON rounding leaves alone. -/
def isSafeNumeral (token : List Char) : Bool :=
  isNumeral token && toDouble (Nat.ofDigitChars 10 token 0) ≤ 9007199254740991

/-- A text is a name when a colon follows it. -/
def checkText (stack : Stack) (text : JsText) (r : List Char) : Option (Stack × List Char) :=
  if survives text then
    match r.dropWhile isJsonSpace with
    | ':' :: r' =>
      match stack with
      | some keys :: rest =>
        if text ∈ keys then none else some (some (text :: keys) :: rest, ':' :: r')
      | _ => none
    | r' => some (stack, r')
  else none

/-- One turn of the loop: what is open after the token, and where the next one begins. -/
def scanToken (stack : Stack) (first : Char) (r : List Char) : Option (Stack × List Char) :=
  let token := (takeToken first r).1
  let rest := (takeToken first r).2
  if token = ['\x7b'] then
    if stack.length + 1 > 8 then none else some (some [] :: stack, rest)
  else if token = ['['] then
    if stack.length + 1 > 8 then none else some (none :: stack, rest)
  else if token = ['\x7d'] ∨ token = [']'] then some (stack.tail, rest)
  else if startsNumber first then
    if isSafeNumeral token then some (stack, rest) else none
  else if first = '\"' then
    match parseJson token with
    | some (.string text) => checkText stack text rest
    | _ => none
  else some (stack, rest)

/-- The loop. Each turn takes a character at least. -/
def scan : Nat → Stack → List Char → Bool
  | _, _, [] => true
  | 0, _, _ :: _ => false
  | n + 1, stack, first :: r =>
    match scanToken stack first r with
    | some (stack', r') => scan n stack' r'
    | none => false

/-- `parseUnsignedJson` -/
def parseUnsignedJson (bytes : Bytes) : Except UnsignedJsonError Json.Tree :=
  if bytes.length > MAX_BODY then .error invalid
  else
    match decodeUtf8 bytes with
    | none => .error invalid
    | some source =>
      match parseJson source with
      | none => .error invalid
      | some value =>
        if scan source.length [] source then
          match value with
          | .object _ => .ok value
          | _ => .error invalid
        else .error invalid

/-- Every refusal is the same one. -/
theorem parseUnsignedJson_error {bytes : Bytes} {e : UnsignedJsonError}
    (h : parseUnsignedJson bytes = .error e) : e = invalid := by
  unfold parseUnsignedJson at h
  split at h
  · exact (Except.error.inj h).symm
  split at h
  · exact (Except.error.inj h).symm
  split at h
  · exact (Except.error.inj h).symm
  split at h
  · split at h
    · cases h
    · exact (Except.error.inj h).symm
  · exact (Except.error.inj h).symm

/-! ## What the parser is for -/

/-- What is asked of each value in a body. -/
def Plain : Json.Tree → Prop
  | .number n => SafeNumeral n.val
  | .string text => Whole text
  | .object members => (members.map (·.1)).Nodup ∧ ∀ m ∈ members, Whole m.1
  | _ => True

/-- The bodies that are taken. -/
structure UnsignedJson (value : Json.Tree) : Prop where
  object : ∃ members, value = .object members
  depth : value.depth ≤ 8
  plain : Everywhere Plain value

/-! ## Texts -/

/-- The encoder gives back the texts where no surrogate stands alone. -/
theorem survives_iff (text : JsText) : survives text = true ↔ Whole text := by
  unfold survives encode
  rw [decodeUtf8_utf8, Option.map_some, decide_eq_true_eq, Option.some.injEq, ofChars_scalars_iff]

theorem isSafeNumeral_iff (token : List Char) : isSafeNumeral token = true ↔ SafeNumeral token := by
  unfold isSafeNumeral SafeNumeral
  rw [Bool.and_eq_true, decide_eq_true_eq]
  apply and_congr_right
  intro _
  by_cases hsmall : Nat.ofDigitChars 10 token 0 < 2 ^ 53
  · rw [toDouble_small hsmall]
    rfl
  · have := le_toDouble (not_lt.mp hsmall)
    constructor
    · intro h
      omega
    · intro h
      omega

/-- A string token ends at its own quote. -/
theorem takeQuoted_of_stringBody {b : List Char} {t : JsText} (h : StringBody b t)
    (r : List Char) : takeQuoted (b ++ '\"' :: r) = (b ++ ['\"'], r) := by
  have hplain : ∀ {c : Char} {s : List Char}, c ≠ '\"' → c ≠ '\\' →
      takeQuoted (c :: s) = (c :: (takeQuoted s).1, (takeQuoted s).2) := by
    intro c s hquote hback
    conv => lhs; unfold takeQuoted
    split
    · rename_i heq
      exact absurd (List.cons.inj heq).1 hback
    · rename_i heq
      exact absurd (List.cons.inj heq).1 hquote
    · rename_i heq
      obtain ⟨rfl, rfl⟩ := List.cons.inj heq
      rfl
    · rename_i heq
      cases heq
  induction h with
  | nil => rfl
  | char hlow hquote hback hs ih =>
    rw [List.cons_append, hplain hquote hback, ih]
    rfl
  | short hu hs ih =>
    simp only [List.cons_append, takeQuoted, ih]
  | hex hu hs ih =>
    have hdigits := hexUnit?_plain hu
    simp only [List.forall_mem_cons] at hdigits
    obtain ⟨ha, hb, hc, hd, -⟩ := hdigits
    simp only [List.cons_append, takeQuoted]
    rw [hplain ha.1 ha.2, hplain hb.1 hb.2, hplain hc.1 hc.2, hplain hd.1 hd.2, ih]

/-! ## One turn -/

theorem takeQuoted_length (r : List Char) : (takeQuoted r).2.length ≤ r.length := by
  fun_induction takeQuoted r with
  | case1 c r ih =>
    simp only [List.length_cons]
    omega
  | case2 r => simp
  | case3 c r hesc hquote ih =>
    simp only [List.length_cons]
    omega
  | case4 => simp

theorem takeToken_length (c : Char) (r : List Char) : (takeToken c r).2.length ≤ r.length := by
  unfold takeToken
  split
  · exact takeQuoted_length r
  split
  · exact List.length_dropWhile_le _ _
  · exact le_rfl

theorem checkText_length {st st' : Stack} {text : JsText} {r r' : List Char}
    (h : checkText st text r = some (st', r')) : r'.length ≤ r.length := by
  have hle := List.length_dropWhile_le isJsonSpace r
  unfold checkText at h
  split at h
  · split at h
    · rename_i hr
      rw [hr] at hle
      split at h
      · split at h
        · cases h
        · obtain ⟨rfl, rfl⟩ := Prod.mk.inj (Option.some.inj h)
          exact hle
      · cases h
    · obtain ⟨rfl, rfl⟩ := Prod.mk.inj (Option.some.inj h)
      exact hle
  · cases h

/-- A turn goes forward. -/
theorem scanToken_length {st st' : Stack} {c : Char} {r r' : List Char}
    (h : scanToken st c r = some (st', r')) : r'.length ≤ r.length := by
  have hle := takeToken_length c r
  unfold scanToken at h
  dsimp only at h
  split at h
  · split at h
    · cases h
    · obtain ⟨rfl, rfl⟩ := Prod.mk.inj (Option.some.inj h)
      exact hle
  split at h
  · split at h
    · cases h
    · obtain ⟨rfl, rfl⟩ := Prod.mk.inj (Option.some.inj h)
      exact hle
  split at h
  · obtain ⟨rfl, rfl⟩ := Prod.mk.inj (Option.some.inj h)
    exact hle
  split at h
  · split at h
    · obtain ⟨rfl, rfl⟩ := Prod.mk.inj (Option.some.inj h)
      exact hle
    · cases h
  split at h
  · split at h
    · exact (checkText_length h).trans hle
    · cases h
  · obtain ⟨rfl, rfl⟩ := Prod.mk.inj (Option.some.inj h)
    exact hle

/-- No text needs more turns than it has characters. -/
theorem scan_enough {n : Nat} {st : Stack} {s : List Char} (hn : s.length ≤ n) :
    scan n st s = scan s.length st s := by
  induction n using Nat.strong_induction_on generalizing st s with
  | _ n ih =>
    cases s with
    | nil => cases n <;> rfl
    | cons c r =>
      rw [List.length_cons] at hn
      obtain ⟨n, rfl⟩ : ∃ k, n = k + 1 := ⟨n - 1, by omega⟩
      rw [List.length_cons]
      unfold scan
      cases htoken : scanToken st c r with
      | none => rfl
      | some p =>
        obtain ⟨st', r'⟩ := p
        have hle := scanToken_length htoken
        dsimp only
        rw [ih n (by omega) (by omega)]
        by_cases hlast : r.length < n + 1
        · exact (ih r.length hlast hle).symm
        · omega

/-- The loop runs through. -/
def Accepts (st : Stack) (s : List Char) : Prop := scan s.length st s = true

variable {st : Stack} {r : List Char}

theorem accepts_nil : Accepts st [] := rfl

theorem accepts_of_token {st' : Stack} {c : Char} {r' : List Char}
    (h : scanToken st c r = some (st', r')) : Accepts st (c :: r) ↔ Accepts st' r' := by
  unfold Accepts
  rw [List.length_cons]
  conv => lhs; unfold scan
  rw [h]
  dsimp only
  rw [scan_enough (scanToken_length h)]

theorem not_accepts_of_token {c : Char} (h : scanToken st c r = none) : ¬Accepts st (c :: r) := by
  unfold Accepts
  rw [List.length_cons]
  unfold scan
  rw [h]
  exact Bool.false_ne_true

/-! ## The tokens -/

/-- A character that is a token of its own and means nothing to the loop. -/
def idle (c : Char) : Bool :=
  !startsNumber c && !(['\"', '\x7b', '[', '\x7d', ']'].contains c)

theorem accepts_idle {c : Char} (h : idle c = true) : Accepts st (c :: r) ↔ Accepts st r := by
  unfold idle at h
  simp only [Bool.and_eq_true, Bool.not_eq_true', List.contains_eq_mem, List.mem_cons,
    List.not_mem_nil, or_false, decide_eq_false_iff_not, not_or] at h
  obtain ⟨hnumber, hquote, hopen, harray, hclose, hend⟩ := h
  apply accepts_of_token
  unfold scanToken takeToken
  simp [hquote, hnumber, hopen, harray, hclose, hend]

theorem accepts_idles {w : List Char} (h : ∀ c ∈ w, idle c = true) :
    Accepts st (w ++ r) ↔ Accepts st r := by
  induction w with
  | nil => rfl
  | cons c w ih =>
    obtain ⟨hc, hw⟩ := List.forall_mem_cons.mp h
    rw [List.cons_append, accepts_idle hc, ih hw]

theorem idle_of_isJsonSpace {c : Char} (h : isJsonSpace c = true) : idle c = true := by
  unfold isJsonSpace at h
  simp only [Bool.or_eq_true, decide_eq_true_eq] at h
  rcases h with ((rfl | rfl) | rfl) | rfl
  · decide
  · decide
  · decide
  · decide

theorem accepts_blank {w : List Char} (h : Blank w) : Accepts st (w ++ r) ↔ Accepts st r :=
  accepts_idles fun c hc => idle_of_isJsonSpace (List.all_eq_true.mp h c hc)

/-- The loop passes over white space. -/
theorem accepts_space : Accepts st (r.dropWhile isJsonSpace) ↔ Accepts st r := by
  conv => rhs; rw [space_append r]
  exact (accepts_blank (blank_takeWhile r)).symm

theorem accepts_open {c : Char} {top : Option (List JsText)}
    (hc : (c = '\x7b' ∧ top = some []) ∨ (c = '[' ∧ top = none)) :
    Accepts st (c :: r) ↔ st.length + 1 ≤ 8 ∧ Accepts (top :: st) r := by
  have htoken : scanToken st c r = if st.length + 1 > 8 then none else some (top :: st, r) := by
    rcases hc with ⟨rfl, rfl⟩ | ⟨rfl, rfl⟩
    · simp [scanToken, takeToken, startsNumber]
    · simp [scanToken, takeToken, startsNumber]
  by_cases hdeep : st.length + 1 > 8
  · rw [if_pos hdeep] at htoken
    constructor
    · intro h
      exact absurd h (not_accepts_of_token htoken)
    · rintro ⟨h, -⟩
      omega
  · rw [if_neg hdeep] at htoken
    rw [accepts_of_token htoken]
    constructor
    · intro h
      exact ⟨by omega, h⟩
    · rintro ⟨-, h⟩
      exact h

theorem accepts_close {c : Char} {top : Option (List JsText)} (hc : c = '\x7d' ∨ c = ']') :
    Accepts (top :: st) (c :: r) ↔ Accepts st r := by
  apply accepts_of_token
  rcases hc with rfl | rfl
  · simp [scanToken, takeToken, startsNumber]
  · simp [scanToken, takeToken, startsNumber]

/-- What can follow a value: nothing that belongs to a number, and no colon. -/
def Ends (r : List Char) : Prop :=
  (∀ c ∈ r.head?, isNumberUnit c = false) ∧ ∀ c ∈ (r.dropWhile isJsonSpace).head?, c ≠ ':'

theorem ends_nil : Ends [] := ⟨by simp, by simp⟩

theorem ends_cons {c : Char} (h : [',', ']', '\x7d'].contains c = true) : Ends (c :: r) := by
  simp only [List.contains_eq_mem, List.mem_cons, List.not_mem_nil, or_false,
    decide_eq_true_eq] at h
  unfold Ends
  rcases h with rfl | rfl | rfl
  · simp [isJsonSpace, isNumberUnit]
  · simp [isJsonSpace, isNumberUnit]
  · simp [isJsonSpace, isNumberUnit]

theorem ends_blank {w : List Char} (hw : Blank w) (hr : Ends r) : Ends (w ++ r) := by
  refine ⟨?_, ?_⟩
  · cases w with
    | nil => exact hr.1
    | cons c w =>
      intro d hd
      obtain rfl := Option.some.inj hd
      have hspace := List.all_eq_true.mp hw c List.mem_cons_self
      unfold isJsonSpace at hspace
      simp only [Bool.or_eq_true, decide_eq_true_eq] at hspace
      rcases hspace with ((rfl | rfl) | rfl) | rfl
      · decide
      · decide
      · decide
      · decide
  · rw [dropWhile_blank hw]
    exact hr.2

theorem accepts_number {n : NumberToken} (hr : Ends r) :
    Accepts st (n.val ++ r) ↔ SafeNumeral n.val ∧ Accepts st r := by
  obtain ⟨c, t, hn, hc⟩ := isNumberToken_head n.property
  have hunits := isNumberToken_units n.property
  rw [hn] at hunits
  rw [hn, ← isSafeNumeral_iff, List.cons_append]
  have hstart : startsNumber c = true := by
    unfold startsNumber
    simpa using hc
  have hquote : c ≠ '\"' := by
    rintro rfl
    exact absurd hstart (by decide)
  have htail := (List.forall_mem_cons.mp hunits).2
  have htake : (t ++ r).takeWhile isNumberUnit = t ∧ (t ++ r).dropWhile isNumberUnit = r := by
    rw [List.takeWhile_append_of_pos htail, List.dropWhile_append_of_pos htail]
    cases r with
    | nil => simp
    | cons d r =>
      have hd := hr.1 d rfl
      simp [hd]
  have hfirst : takeToken c (t ++ r) = (c :: t, r) := by
    unfold takeToken
    rw [if_neg hquote, if_pos hstart, htake.1, htake.2]
  have hne : ∀ d, startsNumber d = false → c :: t ≠ [d] := by
    intro d hd heq
    obtain ⟨rfl, -⟩ := List.cons.inj heq
    rw [hstart] at hd
    cases hd
  have htoken : scanToken st c (t ++ r) = if isSafeNumeral (c :: t) then some (st, r) else none := by
    unfold scanToken
    rw [hfirst]
    dsimp only
    rw [if_neg (hne _ (by decide)), if_neg (hne _ (by decide)),
      if_neg (not_or.mpr ⟨hne _ (by decide), hne _ (by decide)⟩), if_pos hstart]
  cases hsafe : isSafeNumeral (c :: t) with
  | false =>
    rw [hsafe] at htoken
    constructor
    · intro h
      exact absurd h (not_accepts_of_token htoken)
    · rintro ⟨h, -⟩
      cases h
  | true =>
    rw [hsafe] at htoken
    rw [accepts_of_token htoken]
    simp

/-- A string token is checked as the text that it stands for. -/
theorem scanToken_string {b : List Char} {t : JsText} (h : StringBody b t) :
    scanToken st '\"' (b ++ '\"' :: r) = checkText st t r := by
  have hfirst : takeToken '\"' (b ++ '\"' :: r) = ('\"' :: (b ++ ['\"']), r) := by
    unfold takeToken
    rw [if_pos rfl, takeQuoted_of_stringBody h]
  have hparse : parseJson ('\"' :: (b ++ ['\"'])) = some (.string t) := by
    have hread := readString_of_stringBody h []
    unfold parseJson
    rw [List.length_cons, Nat.mul_add]
    unfold readValue
    simp [isJsonSpace, hread]
  unfold scanToken
  rw [hfirst]
  dsimp only
  rw [if_neg (by simp), if_neg (by simp), if_neg (by simp), if_neg (by decide), if_pos rfl, hparse]

theorem accepts_string {b : List Char} {t : JsText} (h : StringBody b t) (hr : Ends r) :
    Accepts st ('\"' :: (b ++ '\"' :: r)) ↔ Whole t ∧ Accepts st r := by
  have htoken := @scanToken_string st r _ _ h
  unfold checkText at htoken
  rw [← survives_iff]
  cases hwhole : survives t with
  | false =>
    rw [hwhole] at htoken
    constructor
    · intro h
      exact absurd h (not_accepts_of_token htoken)
    · rintro ⟨h, -⟩
      cases h
  | true =>
    rw [hwhole, if_pos rfl] at htoken
    split at htoken
    · rename_i heq
      exact absurd rfl (hr.2 ':' (by rw [heq]; rfl))
    · rw [accepts_of_token htoken, accepts_space]
      simp

theorem accepts_name {b w : List Char} {t : JsText} {keys : List JsText} (h : StringBody b t)
    (hw : Blank w) : Accepts (some keys :: st) ('\"' :: (b ++ '\"' :: (w ++ ':' :: r))) ↔
      (Whole t ∧ t ∉ keys) ∧ Accepts (some (t :: keys) :: st) r := by
  have htoken := @scanToken_string (some keys :: st) (w ++ ':' :: r) _ _ h
  have hcolon : (w ++ ':' :: r).dropWhile isJsonSpace = ':' :: r := by
    rw [dropWhile_blank hw]
    rfl
  unfold checkText at htoken
  rw [hcolon] at htoken
  rw [← survives_iff]
  cases hwhole : survives t with
  | false =>
    rw [hwhole] at htoken
    constructor
    · intro h
      exact absurd h (not_accepts_of_token htoken)
    · rintro ⟨⟨h, -⟩, -⟩
      cases h
  | true =>
    rw [hwhole, if_pos rfl] at htoken
    replace htoken : scanToken (some keys :: st) '\"' (b ++ '\"' :: (w ++ ':' :: r)) =
        if t ∈ keys then none else some (some (t :: keys) :: st, ':' :: r) := htoken
    by_cases hmem : t ∈ keys
    · rw [if_pos hmem] at htoken
      constructor
      · intro h
        exact absurd h (not_accepts_of_token htoken)
      · rintro ⟨⟨-, h⟩, -⟩
        exact absurd hmem h
    · rw [if_neg hmem] at htoken
      rw [accepts_of_token htoken, accepts_idle (by decide)]
      simp [hmem]

/-! ## The parts of a text -/

/-- A value is shallow enough where it stands, and each value in it is plain. -/
def Fits (d : Nat) (v : Json.Tree) : Prop := d + v.depth ≤ 8 ∧ Everywhere Plain v

theorem fits_array {d : Nat} {l : List Json.Tree} :
    Fits d (.array l) ↔ d + 1 ≤ 8 ∧ ∀ x ∈ l, Fits (d + 1) x := by
  unfold Fits
  rw [depth_array, everywhere_array]
  constructor
  · rintro ⟨⟨hd, hdepth⟩, -, hplain⟩
    exact ⟨hd, fun x hx => ⟨hdepth x hx, hplain x hx⟩⟩
  · rintro ⟨hd, h⟩
    exact ⟨⟨hd, fun x hx => (h x hx).1⟩, trivial, fun x hx => (h x hx).2⟩

theorem fits_object {d : Nat} {l : List (JsText × Json.Tree)} :
    Fits d (.object l) ↔
      d + 1 ≤ 8 ∧ (l.map (·.1)).Nodup ∧ ∀ m ∈ l, Whole m.1 ∧ Fits (d + 1) m.2 := by
  unfold Fits
  rw [depth_object, everywhere_object]
  constructor
  · rintro ⟨⟨hd, hdepth⟩, ⟨hnodup, hwhole⟩, hplain⟩
    exact ⟨hd, hnodup, fun m hm => ⟨hwhole m hm, hdepth m hm, hplain m hm⟩⟩
  · rintro ⟨hd, hnodup, h⟩
    exact ⟨⟨hd, fun m hm => (h m hm).2.1⟩, ⟨hnodup, fun m hm => (h m hm).1⟩,
      fun m hm => (h m hm).2.2⟩

/-- How the loop runs over a part, and what it has open then. -/
def Scanned (s : List Char) : Part → Prop
  | .value v => ∀ st r, st.length ≤ 8 → Ends r →
      (Accepts st (s ++ r) ↔ Fits st.length v ∧ Accepts st r)
  | .element v => ∀ st r, st.length ≤ 8 → Ends r →
      (Accepts st (s ++ r) ↔ Fits st.length v ∧ Accepts st r)
  | .items l => ∀ st r, st.length ≤ 8 → Ends r →
      (Accepts st (s ++ r) ↔ (∀ x ∈ l, Fits st.length x) ∧ Accepts st r)
  | .member m => ∀ keys st r, st.length + 1 ≤ 8 → Ends r →
      (Accepts (some keys :: st) (s ++ r) ↔
        (Whole m.1 ∧ m.1 ∉ keys ∧ Fits (st.length + 1) m.2) ∧
          Accepts (some (m.1 :: keys) :: st) r)
  | .members l => ∀ keys st r, st.length + 1 ≤ 8 →
      (Accepts (some keys :: st) (s ++ '\x7d' :: r) ↔
        ((l.map (·.1)).Nodup ∧ ∀ m ∈ l, Whole m.1 ∧ m.1 ∉ keys ∧ Fits (st.length + 1) m.2) ∧
          Accepts st r)

theorem scanned_literal {w : List Char} {v : Json.Tree} (hw : ∀ c ∈ w, idle c = true)
    (hv : Fits 0 v) (hdepth : v.depth = 0) : Scanned w (.value v) := by
  intro st r hst _
  have hfits : Fits st.length v := ⟨by omega, hv.2⟩
  rw [accepts_idles hw]
  simp [hfits]

theorem scanned_number (n : NumberToken) : Scanned n.val (.value (.number n)) := by
  intro st r hst hr
  rw [accepts_number hr]
  unfold Fits
  rw [everywhere_number]
  simp [Plain, JsonValue.depth, hst]

theorem scanned_string {b : List Char} {t : JsText} (h : StringBody b t) :
    Scanned ('\"' :: (b ++ ['\"'])) (.value (.string t)) := by
  intro st r hst hr
  simp only [List.cons_append, List.append_assoc, List.nil_append]
  rw [accepts_string h hr]
  unfold Fits
  rw [everywhere_string]
  simp [Plain, JsonValue.depth, hst]

theorem scanned_emptyArray {w : List Char} (hw : Blank w) :
    Scanned ('[' :: (w ++ [']'])) (.value (.array [])) := by
  intro st r _ _
  simp only [List.cons_append, List.append_assoc, List.nil_append]
  rw [accepts_open (Or.inr ⟨rfl, rfl⟩), accepts_blank hw, accepts_close (Or.inr rfl), fits_array]
  simp

theorem scanned_array {s : List Char} {l : List Json.Tree} (ih : Scanned s (.items l)) :
    Scanned ('[' :: (s ++ [']'])) (.value (.array l)) := by
  intro st r _ _
  simp only [List.cons_append, List.append_assoc, List.nil_append]
  rw [accepts_open (Or.inr ⟨rfl, rfl⟩), fits_array, and_assoc]
  apply and_congr_right
  intro hdeep
  rw [ih (none :: st) _ hdeep (ends_cons (by decide)), accepts_close (Or.inr rfl)]
  rfl

theorem scanned_emptyObject {w : List Char} (hw : Blank w) :
    Scanned ('\x7b' :: (w ++ ['\x7d'])) (.value (.object [])) := by
  intro st r _ _
  simp only [List.cons_append, List.append_assoc, List.nil_append]
  rw [accepts_open (Or.inl ⟨rfl, rfl⟩), accepts_blank hw, accepts_close (Or.inl rfl), fits_object]
  simp

theorem scanned_object {s : List Char} {l : List (JsText × Json.Tree)}
    (ih : Scanned s (.members l)) : Scanned ('\x7b' :: (s ++ ['\x7d'])) (.value (.object l)) := by
  intro st r _ _
  simp only [List.cons_append, List.append_assoc, List.nil_append]
  rw [accepts_open (Or.inl ⟨rfl, rfl⟩), fits_object, and_assoc]
  apply and_congr_right
  intro hdeep
  rw [ih [] st r hdeep]
  simp

theorem scanned_element {w s w' : List Char} {v : Json.Tree} (hw : Blank w) (hw' : Blank w')
    (ih : Scanned s (.value v)) : Scanned (w ++ (s ++ w')) (.element v) := by
  intro st r hst hr
  simp only [List.append_assoc]
  rw [accepts_blank hw, ih st _ hst (ends_blank hw' hr), accepts_blank hw']

theorem scanned_items {s r : List Char} {v : Json.Tree} {l : List Json.Tree}
    (ihv : Scanned s (.element v)) (ihl : Scanned r (.items l)) :
    Scanned (s ++ ',' :: r) (.items (v :: l)) := by
  intro st r' hst hr'
  simp only [List.append_assoc, List.cons_append]
  rw [ihv st _ hst (ends_cons (by decide)), accepts_idle (by decide), ihl st r' hst hr',
    List.forall_mem_cons, and_assoc]

theorem scanned_named {w n w' s : List Char} {name : JsText} {v : Json.Tree} (hw : Blank w)
    (hn : StringBody n name) (hw' : Blank w') (ih : Scanned s (.element v)) :
    Scanned (w ++ '\"' :: (n ++ '\"' :: (w' ++ ':' :: s))) (.member (name, v)) := by
  intro keys st r hst hr
  simp only [List.append_assoc, List.cons_append]
  rw [accepts_blank hw, accepts_name hn hw', ih (some (name :: keys) :: st) r hst hr]
  simp only [List.length_cons, and_assoc]

/-- The names of an object are kept until it ends. -/
theorem scanned_members {s r : List Char} {m : JsText × Json.Tree}
    {l : List (JsText × Json.Tree)} (ihm : Scanned s (.member m)) (ihl : Scanned r (.members l)) :
    Scanned (s ++ ',' :: r) (.members (m :: l)) := by
  intro keys st r' hst
  simp only [List.append_assoc, List.cons_append]
  rw [ihm keys st _ hst (ends_cons (by decide)), accepts_idle (by decide),
    ihl (m.1 :: keys) st r' hst, ← and_assoc]
  apply and_congr_left
  intro _
  rw [List.map_cons, List.nodup_cons, List.forall_mem_cons]
  constructor
  · rintro ⟨hm, hnodup, hl⟩
    refine ⟨⟨?_, hnodup⟩, hm, fun x hx => ?_⟩
    · intro hmem
      obtain ⟨x, hx, hname⟩ := List.mem_map.mp hmem
      exact (hl x hx).2.1 (List.mem_cons.mpr (Or.inl hname))
    · obtain ⟨hwhole, hnew, hfits⟩ := hl x hx
      exact ⟨hwhole, fun h => hnew (List.mem_cons_of_mem _ h), hfits⟩
  · rintro ⟨⟨hnew, hnodup⟩, hm, hl⟩
    refine ⟨hm, hnodup, fun x hx => ?_⟩
    obtain ⟨hwhole, hkeys, hfits⟩ := hl x hx
    refine ⟨hwhole, ?_, hfits⟩
    intro h
    rcases List.mem_cons.mp h with hname | h
    · exact hnew (List.mem_map.mpr ⟨x, hx, hname⟩)
    · exact hkeys h

/-- The loop and the grammar stay in step on every part of every text. -/
theorem scanned_of_spells {s : List Char} {p : Part} (h : Spells s p) : Scanned s p := by
  induction h with
  | null => exact scanned_literal (List.all_eq_true.mp rfl) ⟨by decide, everywhere_null.mpr trivial⟩ rfl
  | true => exact scanned_literal (List.all_eq_true.mp rfl) ⟨by decide, everywhere_bool.mpr trivial⟩ rfl
  | false => exact scanned_literal (List.all_eq_true.mp rfl) ⟨by decide, everywhere_bool.mpr trivial⟩ rfl
  | number n => exact scanned_number n
  | string hb => exact scanned_string hb
  | emptyArray hw => exact scanned_emptyArray hw
  | array _ ih => exact scanned_array ih
  | emptyObject hw => exact scanned_emptyObject hw
  | object _ ih => exact scanned_object ih
  | element hw hw' _ ih => exact scanned_element hw hw' ih
  | item _ ih =>
    intro st r hst hr
    rw [ih st r hst hr]
    simp
  | items _ _ ihv ihl => exact scanned_items ihv ihl
  | named hw hn hw' _ ih => exact scanned_named hw hn hw' ih
  | member _ ih =>
    intro keys st r hst
    rw [ih keys st _ hst (ends_cons (by decide)), accepts_close (Or.inl rfl)]
    simp
  | members _ _ ihm ihl => exact scanned_members ihm ihl

/-! ## The parser -/

/-- On a text of a value the loop runs through when the value is shallow and plain. -/
theorem scan_iff {source : List Char} {value : Json.Tree} (h : parseJson source = some value) :
    scan source.length [] source = true ↔ value.depth ≤ 8 ∧ Everywhere Plain value := by
  have hscan := scanned_of_spells (spells_of_parseJson h) [] [] (by decide) ends_nil
  rw [List.append_nil] at hscan
  have hfits : Fits 0 value ↔ value.depth ≤ 8 ∧ Everywhere Plain value := by
    unfold Fits
    rw [Nat.zero_add]
  rw [← hfits]
  exact hscan.trans (and_iff_left accepts_nil)

/-- The parser takes the bodies of at most 16384 bytes that are the text of an object with
nesting depth at most 8, where no object has a name twice, every number is an unsigned
integer in its one spelling up to 2^53 - 1, and no surrogate stands alone. It gives the
parsed value. -/
theorem exactly_the_plain_objects_are_taken (bytes : Bytes) (value : Json.Tree) :
    parseUnsignedJson bytes = .ok value ↔ bytes.length ≤ 16384 ∧
      ∃ source, bytes = utf8 source ∧ parseJson source = some value ∧ UnsignedJson value := by
  unfold parseUnsignedJson
  by_cases hlen : bytes.length > MAX_BODY
  · rw [if_pos hlen]
    constructor
    · intro h
      cases h
    · rintro ⟨h, -⟩
      exact absurd h (Nat.not_le.mpr hlen)
  rw [if_neg hlen]
  cases hdecode : decodeUtf8 bytes with
  | none =>
    constructor
    · intro h
      cases h
    · rintro ⟨-, source, rfl, -⟩
      rw [decodeUtf8_utf8] at hdecode
      cases hdecode
  | some source =>
    obtain rfl := decodeUtf8_eq_some.mp hdecode
    have hunique : (∃ source', utf8 source = utf8 source' ∧ parseJson source' = some value ∧
        UnsignedJson value) ↔ parseJson source = some value ∧ UnsignedJson value := by
      constructor
      · rintro ⟨source', heq, h⟩
        rw [utf8_injective heq]
        exact h
      · intro h
        exact ⟨source, rfl, h⟩
    have hshort : (utf8 source).length ≤ 16384 := Nat.not_lt.mp hlen
    rw [hunique, and_iff_right hshort]
    dsimp only
    cases hparse : parseJson source with
    | none => simp
    | some v =>
      dsimp only
      rw [Option.some.injEq]
      cases hscan : scan source.length [] source with
      | false =>
        constructor
        · intro h
          cases h
        · rintro ⟨rfl, h⟩
          rw [(scan_iff hparse).mpr ⟨h.depth, h.plain⟩] at hscan
          cases hscan
      | true =>
        obtain ⟨hdepth, hplain⟩ := (scan_iff hparse).mp hscan
        rw [if_pos rfl]
        cases v with
        | object members =>
          constructor
          · intro h
            obtain rfl := Except.ok.inj h
            exact ⟨rfl, ⟨members, rfl⟩, hdepth, hplain⟩
          · rintro ⟨rfl, -⟩
            rfl
        | _ =>
          constructor
          · intro h
            cases h
          · rintro ⟨rfl, h⟩
            obtain ⟨_, hobject⟩ := h.object
            cases hobject

end Licensecc.Http
