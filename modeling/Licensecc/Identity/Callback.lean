-- The request that a browser sends back to the client. One request of a fixed
-- form is complete, no part of it is, and nothing may follow it, so the reads
-- that it arrives in do not matter.
import Licensecc.Codec.Find
import Licensecc.Protocol.Native

open Licensecc.Codec Licensecc.Protocol

namespace Licensecc.Identity

/-! ## The redirect URI -/

def uri_path (path : Bytes) : Bool :=
  if path.head? ≠ some (byte '/') ∨ 1024 < path.length then false
  else
    path.all (fun c => inRange 'a' 'z' c || inRange 'A' 'Z' c || inRange '0' '9' c || c = byte '/' ||
      c = byte '-' || c = byte '_' || c = byte '.' || c = byte '~') &&
    (path.tail.splitOn (byte '/')).all fun part =>
      part ≠ bytesOf ".".toList && part ≠ bytesOf "..".toList

/-- Where the port of a loopback URI starts. -/
def portStart (uri : Bytes) : Option Nat :=
  if (bytesOf "http://127.0.0.1:".toList).isPrefixOf uri then some 17
  else if (bytesOf "http://[::1]:".toList).isPrefixOf uri then some 13
  else none

def loopback_uri (uri : Bytes) : Bool :=
  if 1024 < uri.length then false
  else
    match portStart uri with
    | none => false
    | some start =>
      match takeLine (byte '/') (uri.drop start) with
      | none => false
      | some (port, path) =>
        match safe_integer port with
        | none => false
        | some port => port ≠ 0 && port ≠ 80 && port ≤ 65535 && uri_path (byte '/' :: path)

/-! ## Headers -/

def crlf : Bytes := [byte '\r', byte '\n']

def crlfcrlf : Bytes := [byte '\r', byte '\n', byte '\r', byte '\n']

def lowerByte (c : UInt8) : UInt8 := if inRange 'A' 'Z' c then c + 32 else c

def equal_header (left right : Bytes) : Bool := left.map lowerByte = right

def headerMarks : Bytes := bytesOf "!#$%&'*+-.^_`|~".toList

def header_name (name : Bytes) : Bool :=
  name ≠ [] && name.all fun c =>
    inRange 'a' 'z' c || inRange 'A' 'Z' c || inRange '0' '9' c || headerMarks.contains c

/-- A character of the value of a header. -/
def valueByte (c : UInt8) : Bool := !((c < 32 && c ≠ byte '\t') || 126 < c)

def isBlank (c : UInt8) : Bool := c = byte ' ' || c = byte '\t'

/-- The value of a header without the blanks around it. -/
def trimBlanks (value : Bytes) : Bytes := (value.dropWhile isBlank).rdropWhile isBlank

/-- `host` and `length` -/
structure HeaderState where
  host : Bool
  length : Bool
  deriving DecidableEq

/-- A header line, after those that made the state. -/
def headerLine (authority : Bytes) (s : HeaderState) (header : Bytes) : Option HeaderState :=
  match takeLine (byte ':') header with
  | none => none
  | some (name, value) =>
    if ¬ header_name name then none
    else if ¬ value.all valueByte then none
    else
      let value := trimBlanks value
      if equal_header name (bytesOf "host".toList) then
        if s.host ∨ value ≠ authority then none else some { s with host := true }
      else if equal_header name (bytesOf "content-length".toList) then
        if s.length ∨ value ≠ bytesOf "0".toList then none else some { s with length := true }
      else if equal_header name (bytesOf "transfer-encoding".toList) ∨
          equal_header name (bytesOf "expect".toList) then none
      else some s

/-- The loop over the header lines, with `fields` of them behind and `rest` from
`offset` on. The block ends four bytes before the request does. -/
def headerLoop (authority : Bytes) : Nat → Nat → HeaderState → Bytes → Option HeaderState
  | 0, _, _, _ => none
  | n + 1, fields, s, rest =>
    if rest.length ≤ 4 then some s
    else
      match cutAt crlf rest with
      | none => none
      | some (header, rest) =>
        if 64 < fields + 1 then none
        else do
          let s ← headerLine authority s header
          headerLoop authority n (fields + 1) s rest

/-! ## The request -/

inductive BoundCallbackParse where
  | incomplete
  | invalid
  | complete (target : Bytes)
  deriving DecidableEq

/-- A character of a target. -/
def targetByte (c : UInt8) : Bool :=
  !(c < 33 || 126 < c || c = byte '#' || c = byte '\\' || c = byte '%')

/-- The target in the first line of a request. -/
def requestTarget (path line : Bytes) : Option Bytes :=
  if line.length < 14 ∨ line.take 4 ≠ bytesOf "GET ".toList ∨
      line.drop (line.length - 9) ≠ bytesOf " HTTP/1.1".toList then none
  else
    let candidate := (line.drop 4).take (line.length - 13)
    if 2048 < candidate.length ∨ candidate.length ≤ path.length ∨
        candidate.take path.length ≠ path ∨ candidate.getD path.length 0 ≠ byte '?' then none
    else if ¬ candidate.all targetByte then none
    else some candidate

def parse_bound_callback_http (request uri : Bytes) : BoundCallbackParse :=
  if 8192 < request.length ∨ ¬ loopback_uri uri then .invalid
  else
    match cutAt crlfcrlf request with
    | none => if request.length = 8192 then .invalid else .incomplete
    | some (_, after) =>
      if after ≠ [] then .invalid
      else
        match cutAt crlf request, takeLine (byte '/') (uri.drop 7) with
        | some (line, rest), some (authority, path) =>
          match requestTarget (byte '/' :: path) line with
          | none => .invalid
          | some candidate =>
            match headerLoop authority (rest.length + 1) 0 ⟨false, false⟩ rest with
            | none => .invalid
            | some s => if s.host then .complete candidate else .invalid
        | _, _ => .invalid

/-- The reads of a connection, each of which is parsed with those before it, until
the request is complete or invalid. -/
def readCallback (uri : Bytes) : Bytes → List Bytes → BoundCallbackParse
  | _, [] => .incomplete
  | used, count :: reads =>
    match parse_bound_callback_http (used ++ count) uri with
    | .incomplete => readCallback uri (used ++ count) reads
    | parsed => parsed

/-! ## The form of a request -/

/-- A header line, cut at its colon. -/
structure Header where
  name : Bytes
  value : Bytes

def Header.text (h : Header) : Bytes := h.name ++ byte ':' :: h.value

/-- A name of the marks of names, and a value of visible characters and blanks. -/
def Header.WellFormed (h : Header) : Prop :=
  header_name h.name = true ∧ h.value.all valueByte = true

/-- The values under a name, which is written in small letters. -/
def values (name : String) (headers : List Header) : List Bytes :=
  (headers.filter fun h => h.name.map lowerByte = bytesOf name.toList).map fun h => trimBlanks h.value

def headersText (headers : List Header) : Bytes := headers.flatMap fun h => h.text ++ crlf

/-- A request for a target under the path, to the authority, without a body. -/
structure CallbackRequest (authority path request target : Bytes) (headers : List Header) :
    Prop where
  size : request.length ≤ 8192
  text : request = bytesOf "GET ".toList ++ target ++ bytesOf " HTTP/1.1".toList ++ crlf ++
    headersText headers ++ crlf
  target : ∃ query, target = path ++ byte '?' :: query
  fields : headers.length ≤ 64
  wellFormed : ∀ h ∈ headers, h.WellFormed
  host : values "host" headers = [authority]
  no_body : ∀ v ∈ values "content-length" headers, v = bytesOf "0".toList
  no_coding : values "transfer-encoding" headers = []

/-- What is asked of such a request besides. -/
structure Admitted (target : Bytes) (headers : List Header) : Prop where
  short : target.length ≤ 2048
  plain : target.all targetByte = true
  one_length : (values "content-length" headers).length ≤ 1
  no_expect : values "expect" headers = []

/-! ## The lines of a request -/

theorem uri_authority {uri : Bytes} (h : loopback_uri uri = true) :
    ∃ authority path, takeLine (byte '/') (uri.drop 7) = some (authority, path) := by
  -- the part between the scheme and the port has no slash
  have hdrop : ∀ (pre : Bytes) (start : Nat), pre.isPrefixOf uri = true → pre.length = start →
      7 ≤ start → byte '/' ∉ pre.drop 7 →
      ∀ port path, takeLine (byte '/') (uri.drop start) = some (port, path) →
        takeLine (byte '/') (uri.drop 7) = some (pre.drop 7 ++ port, path) := by
    intro pre start hprefix hlen hle hfree port path htake
    obtain ⟨t, rfl⟩ := List.isPrefixOf_iff_prefix.mp hprefix
    rw [List.drop_left' hlen] at htake
    obtain ⟨hport, rfl⟩ := takeLine_eq_some.mp htake
    refine takeLine_eq_some.mpr ⟨?_, ?_⟩
    · rw [List.mem_append, not_or]
      exact ⟨hfree, hport⟩
    · rw [List.drop_append_of_le_length (by omega), List.append_assoc]
  unfold loopback_uri at h
  split at h
  · cases h
  split at h
  · cases h
  rename_i start hstart
  split at h
  · cases h
  rename_i port path htake
  unfold portStart at hstart
  split at hstart
  · rename_i hprefix
    obtain rfl := Option.some.inj hstart
    exact ⟨_, _, hdrop _ _ hprefix rfl (by decide) (by decide) _ _ htake⟩
  split at hstart
  · rename_i hprefix
    obtain rfl := Option.some.inj hstart
    exact ⟨_, _, hdrop _ _ hprefix rfl (by decide) (by decide) _ _ htake⟩
  · cases hstart

theorem requestTarget_iff {path line target : Bytes} : requestTarget path line = some target ↔
    line = bytesOf "GET ".toList ++ target ++ bytesOf " HTTP/1.1".toList ∧
      (∃ query, target = path ++ byte '?' :: query) ∧ target.length ≤ 2048 ∧
      target.all targetByte = true := by
  have hget : (bytesOf "GET ".toList).length = 4 := rfl
  have hhttp : (bytesOf " HTTP/1.1".toList).length = 9 := rfl
  unfold requestTarget
  constructor
  · intro h
    split at h
    · cases h
    rename_i hline
    simp only [not_or, Nat.not_lt, not_not] at hline
    obtain ⟨hlen, hstart, hend⟩ := hline
    dsimp only at h
    split at h
    · cases h
    rename_i hpath
    split at h
    · cases h
    rename_i hplain
    obtain rfl := Option.some.inj h
    simp only [not_or, Nat.not_lt, not_not, Nat.not_le] at hpath
    obtain ⟨hshort, hlong, hprefix, hmark⟩ := hpath
    refine ⟨?_, ⟨((line.drop 4).take (line.length - 13)).drop (path.length + 1), ?_⟩, hshort,
      not_not.mp hplain⟩
    · have hlast : line.drop 4 = (line.drop 4).take (line.length - 13) ++ line.drop (line.length - 9) := by
        conv => lhs; rw [← List.take_append_drop (line.length - 13) (line.drop 4)]
        rw [List.drop_drop]
        congr 2
        omega
      conv => lhs; rw [← List.take_append_drop 4 line, hlast, hstart, hend]
      rw [List.append_assoc]
    · generalize (line.drop 4).take (line.length - 13) = candidate at hlong hprefix hmark ⊢
      conv => lhs; rw [← List.take_append_drop path.length candidate, hprefix]
      rw [List.getD_eq_getElem _ _ hlong] at hmark
      rw [List.drop_eq_getElem_cons hlong, hmark]
  · rintro ⟨rfl, ⟨query, rfl⟩, hshort, hplain⟩
    generalize htarget : path ++ byte '?' :: query = target at hshort hplain ⊢
    have hlen : (bytesOf "GET ".toList ++ target ++ bytesOf " HTTP/1.1".toList).length =
        target.length + 13 := by
      simp only [List.length_append, hget, hhttp]
      omega
    have htlen : target.length = path.length + 1 + query.length := by
      rw [← htarget, List.length_append, List.length_cons]
      omega
    have hcut : ((bytesOf "GET ".toList ++ target ++ bytesOf " HTTP/1.1".toList).drop 4).take
        (target.length + 13 - 13) = target := by
      rw [List.append_assoc, List.drop_left' hget, Nat.add_sub_cancel, List.take_left' rfl]
    rw [hlen, hcut, if_neg, if_neg, if_neg (not_not.mpr hplain)]
    · rw [← htarget, List.take_left' rfl, List.getD_append_right _ _ _ _ (le_refl _), Nat.sub_self]
      rw [htarget]
      simp only [List.getD_cons_zero, ne_eq, not_true_eq_false, or_false]
      omega
    · rw [List.append_assoc, List.take_left' hget, ← List.append_assoc, List.drop_left']
      · simp
        omega
      · rw [List.length_append, hget]
        omega

/-! ## Header lines -/

set_option maxRecDepth 20000 in
theorem header_name_byte : ∀ n < 256,
    (inRange 'a' 'z' (UInt8.ofNat n) || inRange 'A' 'Z' (UInt8.ofNat n) ||
      inRange '0' '9' (UInt8.ofNat n) || headerMarks.contains (UInt8.ofNat n)) = true →
    UInt8.ofNat n ≠ byte ':' ∧ UInt8.ofNat n ≠ byte '\r' := by decide +kernel

theorem Header.WellFormed.name_free {h : Header} (hw : h.WellFormed) :
    h.name ≠ [] ∧ byte ':' ∉ h.name ∧ byte '\r' ∉ h.name := by
  have hname := hw.1
  unfold header_name at hname
  rw [Bool.and_eq_true, decide_eq_true_eq, List.all_eq_true] at hname
  have hbyte : ∀ c ∈ h.name, c ≠ byte ':' ∧ c ≠ byte '\r' := by
    intro c hc
    have hfree := header_name_byte c.toNat c.toNat_lt
    rw [UInt8.ofNat_toNat] at hfree
    exact hfree (hname.2 c hc)
  exact ⟨hname.1, fun hm => (hbyte _ hm).1 rfl, fun hm => (hbyte _ hm).2 rfl⟩

/-- A header line holds no end of a line. -/
theorem Header.WellFormed.not_mem {h : Header} (hw : h.WellFormed) : byte '\r' ∉ h.text := by
  have hvalue : byte '\r' ∉ h.value := fun hm =>
    absurd (List.all_eq_true.mp hw.2 _ hm) (by decide)
  unfold Header.text
  rw [List.mem_append, List.mem_cons, not_or, not_or]
  exact ⟨hw.name_free.2.2, by decide, hvalue⟩

/-- What a header does to the state. -/
def Takes (authority : Bytes) (s : HeaderState) (h : Header) (s' : HeaderState) : Prop :=
  if h.name.map lowerByte = bytesOf "host".toList then
    s.host = false ∧ trimBlanks h.value = authority ∧ s' = { s with host := true }
  else if h.name.map lowerByte = bytesOf "content-length".toList then
    s.length = false ∧ trimBlanks h.value = bytesOf "0".toList ∧ s' = { s with length := true }
  else h.name.map lowerByte ≠ bytesOf "transfer-encoding".toList ∧
    h.name.map lowerByte ≠ bytesOf "expect".toList ∧ s' = s

theorem headerLine_iff {authority header : Bytes} {s s' : HeaderState} :
    headerLine authority s header = some s' ↔
      ∃ h : Header, header = h.text ∧ h.WellFormed ∧ Takes authority s h s' := by
  have hline : ∀ h : Header, h.WellFormed → (headerLine authority s h.text = some s' ↔
      Takes authority s h s') := by
    intro h hw
    have htake : takeLine (byte ':') h.text = some (h.name, h.value) :=
      takeLine_eq_some.mpr ⟨hw.name_free.2.1, rfl⟩
    unfold headerLine Takes equal_header
    rw [htake]
    dsimp only
    rw [if_neg (not_not.mpr hw.1), if_neg (not_not.mpr hw.2)]
    simp only [decide_eq_true_eq]
    by_cases hhost : h.name.map lowerByte = bytesOf "host".toList
    · rw [if_pos hhost, if_pos hhost]
      by_cases hs : s.host = true ∨ trimBlanks h.value ≠ authority
      · rw [if_pos hs]
        refine ⟨(fun h => nomatch h), fun ⟨h1, h2, _⟩ => ?_⟩
        rcases hs with hs | hs
        · rw [h1] at hs
          cases hs
        · exact absurd h2 hs
      · rw [if_neg hs]
        rw [not_or, Bool.not_eq_true, not_not] at hs
        rw [Option.some.injEq]
        exact ⟨fun h => ⟨hs.1, hs.2, h.symm⟩, fun h => h.2.2.symm⟩
    rw [if_neg hhost, if_neg hhost]
    by_cases hlength : h.name.map lowerByte = bytesOf "content-length".toList
    · rw [if_pos hlength, if_pos hlength]
      by_cases hs : s.length = true ∨ trimBlanks h.value ≠ bytesOf "0".toList
      · rw [if_pos hs]
        refine ⟨(fun h => nomatch h), fun ⟨h1, h2, _⟩ => ?_⟩
        rcases hs with hs | hs
        · rw [h1] at hs
          cases hs
        · exact absurd h2 hs
      · rw [if_neg hs]
        rw [not_or, Bool.not_eq_true, not_not] at hs
        rw [Option.some.injEq]
        exact ⟨fun h => ⟨hs.1, hs.2, h.symm⟩, fun h => h.2.2.symm⟩
    rw [if_neg hlength, if_neg hlength]
    by_cases hother : h.name.map lowerByte = bytesOf "transfer-encoding".toList ∨
        h.name.map lowerByte = bytesOf "expect".toList
    · rw [if_pos hother]
      refine ⟨(fun h => nomatch h), fun ⟨h1, h2, _⟩ => ?_⟩
      rcases hother with ho | ho
      · exact absurd ho h1
      · exact absurd ho h2
    · rw [if_neg hother, Option.some.injEq]
      rw [not_or] at hother
      exact ⟨fun h => ⟨hother.1, hother.2, h.symm⟩, fun h => h.2.2.symm⟩
  constructor
  · intro h
    have hparts := h
    unfold headerLine at hparts
    split at hparts
    · cases hparts
    rename_i name value htake
    split at hparts
    · cases hparts
    rename_i hname
    split at hparts
    · cases hparts
    rename_i hvalue
    obtain ⟨-, rfl⟩ := takeLine_eq_some.mp htake
    have hw : Header.WellFormed ⟨name, value⟩ := ⟨not_not.mp hname, not_not.mp hvalue⟩
    exact ⟨⟨name, value⟩, rfl, hw, (hline _ hw).mp h⟩
  · rintro ⟨h, rfl, hw, ht⟩
    exact (hline h hw).mpr ht

/-- The headers that take one state to another. -/
inductive TakesAll (authority : Bytes) : HeaderState → List Header → HeaderState → Prop
  | nil {s : HeaderState} : TakesAll authority s [] s
  | cons {s t u : HeaderState} {h : Header} {hs : List Header} :
      h.WellFormed → Takes authority s h t → TakesAll authority t hs u →
      TakesAll authority s (h :: hs) u

theorem values_cons (name : String) (h : Header) (hs : List Header) : values name (h :: hs) =
    if h.name.map lowerByte = bytesOf name.toList then trimBlanks h.value :: values name hs
    else values name hs := by
  unfold values
  rw [List.filter_cons]
  by_cases hh : h.name.map lowerByte = bytesOf name.toList
  · rw [if_pos (decide_eq_true hh), if_pos hh, List.map_cons]
  · rw [if_neg (by simpa using hh), if_neg hh]

/-- The values under a name that may stand once, and whether it stood before. -/
def Once (before : Bool) (value : Bytes) (vs : List Bytes) (after : Bool) : Prop :=
  (vs = [] ∧ after = before) ∨ (before = false ∧ vs = [value] ∧ after = true)

theorem once_cons {before after : Bool} {value v : Bytes} {vs : List Bytes} :
    Once before value (v :: vs) after ↔ before = false ∧ v = value ∧ Once true value vs after := by
  unfold Once
  cases before
  · simp [and_assoc]
  · simp

/-- What a whole run over the headers asks of them. -/
theorem takesAll_iff {authority : Bytes} {s t : HeaderState} {hs : List Header} :
    TakesAll authority s hs t ↔ (∀ h ∈ hs, h.WellFormed) ∧
      Once s.host authority (values "host" hs) t.host ∧
      Once s.length (bytesOf "0".toList) (values "content-length" hs) t.length ∧
      values "transfer-encoding" hs = [] ∧ values "expect" hs = [] := by
  have hlabels : bytesOf "host".toList ≠ bytesOf "content-length".toList ∧
      bytesOf "host".toList ≠ bytesOf "transfer-encoding".toList ∧
      bytesOf "host".toList ≠ bytesOf "expect".toList ∧
      bytesOf "content-length".toList ≠ bytesOf "transfer-encoding".toList ∧
      bytesOf "content-length".toList ≠ bytesOf "expect".toList := by decide
  induction hs generalizing s with
  | nil =>
    constructor
    · rintro ⟨⟩
      exact ⟨by simp, .inl ⟨rfl, rfl⟩, .inl ⟨rfl, rfl⟩, rfl, rfl⟩
    · rintro ⟨-, hhost, hlength, -, -⟩
      obtain ⟨host, length⟩ := t
      have h1 : host = s.host := by simpa [Once, values] using hhost
      have h2 : length = s.length := by simpa [Once, values] using hlength
      subst h1 h2
      exact .nil
  | cons h hs ih =>
    have hcons : TakesAll authority s (h :: hs) t ↔
        h.WellFormed ∧ ∃ u, Takes authority s h u ∧ TakesAll authority u hs t := by
      constructor
      · rintro ⟨⟩
        exact ⟨‹_›, _, ‹_›, ‹_›⟩
      · rintro ⟨hw, u, hu, hrest⟩
        exact .cons hw hu hrest
    rw [hcons, List.forall_mem_cons]
    simp only [ih, values_cons, Takes]
    generalize h.name.map lowerByte = label
    by_cases hhost : label = bytesOf "host".toList
    · subst hhost
      simp only [hlabels.1, hlabels.2.1, hlabels.2.2.1, if_true, if_false, once_cons]
      constructor
      · rintro ⟨hw, u, ⟨h1, h2, rfl⟩, h3, h4, h5, h6⟩
        exact ⟨⟨hw, h3⟩, ⟨h1, h2, h4⟩, h5, h6⟩
      · rintro ⟨⟨hw, h3⟩, ⟨h1, h2, h4⟩, h5, h6⟩
        exact ⟨hw, _, ⟨h1, h2, rfl⟩, h3, h4, h5, h6⟩
    by_cases hlength : label = bytesOf "content-length".toList
    · subst hlength
      simp only [hlabels.1.symm, hlabels.2.2.2.1, hlabels.2.2.2.2, if_true, if_false, once_cons]
      constructor
      · rintro ⟨hw, u, ⟨h1, h2, rfl⟩, h3, h4, h5, h6⟩
        exact ⟨⟨hw, h3⟩, h4, ⟨h1, h2, h5⟩, h6⟩
      · rintro ⟨⟨hw, h3⟩, h4, ⟨h1, h2, h5⟩, h6⟩
        exact ⟨hw, _, ⟨h1, h2, rfl⟩, h3, h4, h5, h6⟩
    simp only [hhost, hlength, if_false]
    constructor
    · rintro ⟨hw, u, ⟨h1, h2, rfl⟩, h3, h4, h5, h6, h7⟩
      rw [if_neg h1, if_neg h2]
      exact ⟨⟨hw, h3⟩, h4, h5, h6, h7⟩
    · rintro ⟨⟨hw, h3⟩, h4, h5, h6, h7⟩
      by_cases h1 : label = bytesOf "transfer-encoding".toList
      · rw [if_pos h1] at h6
        cases h6
      by_cases h2 : label = bytesOf "expect".toList
      · rw [if_pos h2] at h7
        cases h7
      rw [if_neg h1] at h6
      rw [if_neg h2] at h7
      exact ⟨hw, _, ⟨h1, h2, rfl⟩, h3, h4, h5, h6, h7⟩

/-! ## The loop over the header lines -/

/-- The rest of a request from a line on: with the end of the line before it, it
has the empty line at its end and nowhere else. -/
def Block (rest : Bytes) : Prop :=
  (∃ x, crlf ++ rest = x ++ crlfcrlf) ∧ ∀ x y, crlf ++ rest = x ++ (crlfcrlf ++ y) → y = []

theorem crlfcrlf_eq : crlfcrlf = crlf ++ crlf := rfl

/-- At the end of the headers the empty line is left. -/
theorem Block.end {rest : Bytes} (h : Block rest) (hlen : rest.length ≤ 4) : rest = crlf := by
  obtain ⟨⟨x, hx⟩, hlast⟩ := h
  have hsum := congrArg List.length hx
  have hcrlf : crlf.length = 2 := rfl
  have hcrlfcrlf : crlfcrlf.length = 4 := rfl
  rw [List.length_append, List.length_append, hcrlf, hcrlfcrlf] at hsum
  match x, hx with
  | [], hx => exact List.append_cancel_left (hx.trans crlfcrlf_eq)
  | [a], hx =>
    have := (List.cons.inj (List.cons.inj hx).2).1
    exact absurd this (by decide)
  | [a, b], hx =>
    have hrest : rest = crlfcrlf := (List.cons.inj (List.cons.inj hx).2).2
    have := hlast [] crlf (by rw [hrest]; rfl)
    exact absurd this (by decide)
  | a :: b :: c :: x, _ =>
    simp only [List.length_cons] at hsum
    omega

/-- Before that, there is a line and a rest like it. -/
theorem Block.next {rest : Bytes} (h : Block rest) (hlen : 4 < rest.length) :
    ∃ line after, cutAt crlf rest = some (line, after) ∧ Block after ∧ after.length < rest.length := by
  obtain ⟨⟨x, hx⟩, hlast⟩ := h
  have hcrlf : crlf.length = 2 := rfl
  have hcrlfcrlf : crlfcrlf.length = 4 := rfl
  have hsum := congrArg List.length hx
  rw [List.length_append, List.length_append, hcrlf, hcrlfcrlf] at hsum
  have hbody : rest = x.drop 2 ++ (crlf ++ crlf) := by
    have hdrop := congrArg (List.drop 2) hx
    rw [List.drop_left' hcrlf, List.drop_append_of_le_length (by omega), crlfcrlf_eq] at hdrop
    exact hdrop
  obtain ⟨⟨line, after⟩, hcut⟩ := @cutAt_isSome _ _ crlf (x.drop 2) crlf
  rw [← hbody] at hcut
  have hfirst := cutAt_first hcut hbody
  have hparts := cutAt_eq hcut
  have hlines := congrArg List.length hparts
  simp only [List.length_append, List.length_drop, hcrlf] at hlines hfirst
  refine ⟨line, after, hcut, ⟨?_, ?_⟩, by omega⟩
  · -- what follows the line still ends with the empty line
    have hend := congrArg (List.drop (2 + line.length)) hx
    rw [hparts, ← List.append_assoc, List.drop_left' (by rw [List.length_append, hcrlf]),
      List.drop_append_of_le_length (by omega)] at hend
    exact ⟨_, hend⟩
  · intro u v huv
    refine hlast (crlf ++ line ++ u) v ?_
    rw [hparts, List.append_assoc, List.append_assoc, ← huv]

/-- The loop ends well only after header lines that lead to its state. -/
theorem headerLoop_sound {authority : Bytes} {n fields : Nat} {s t : HeaderState} {rest : Bytes}
    (h : headerLoop authority n fields s rest = some t) (hblock : Block rest) (hle : fields ≤ 64) :
    ∃ hs, rest = headersText hs ++ crlf ∧ fields + hs.length ≤ 64 ∧ TakesAll authority s hs t := by
  induction n generalizing fields s rest with
  | zero => cases h
  | succ n ih =>
    unfold headerLoop at h
    split at h
    · rename_i hlen
      obtain rfl := Option.some.inj h
      exact ⟨[], hblock.end hlen, hle, .nil⟩
    · rename_i hlen
      obtain ⟨line, after, hcut, hafter, -⟩ := hblock.next (by omega)
      rw [hcut] at h
      dsimp only at h
      split at h
      · cases h
      rename_i hfields
      obtain ⟨u, hline, hrest⟩ := Option.bind_eq_some_iff.mp h
      obtain ⟨hs, htext, hcount, htakes⟩ := ih hrest hafter (by omega)
      obtain ⟨header, rfl, hw, hu⟩ := headerLine_iff.mp hline
      refine ⟨header :: hs, ?_, ?_, .cons hw hu htakes⟩
      · rw [cutAt_eq hcut, htext]
        simp only [headersText, List.flatMap_cons, List.append_assoc]
      · rw [List.length_cons]
        omega

theorem Header.text_length {h : Header} : 0 < h.text.length := by
  unfold Header.text
  rw [List.length_append, List.length_cons]
  omega

/-- The loop takes header lines one after the other. -/
theorem headerLoop_complete {authority : Bytes} {n fields : Nat} {s t : HeaderState}
    {hs : List Header} (h : TakesAll authority s hs t) (hcount : fields + hs.length ≤ 64)
    (hn : (headersText hs ++ crlf).length < n) :
    headerLoop authority n fields s (headersText hs ++ crlf) = some t := by
  induction h generalizing n fields with
  | nil =>
    cases n with
    | zero => omega
    | succ n => exact if_pos (by decide)
  | @cons s t u h hs hw ht hrest ih =>
    cases n with
    | zero => omega
    | succ n =>
      have htext : headersText (h :: hs) ++ crlf = h.text ++ (crlf ++ (headersText hs ++ crlf)) := by
        simp only [headersText, List.flatMap_cons, List.append_assoc]
      have hcrlf : crlf.length = 2 := rfl
      have hpos := @Header.text_length h
      rw [htext] at hn ⊢
      simp only [List.length_append, hcrlf] at hn
      have hcut : cutAt crlf (h.text ++ (crlf ++ (headersText hs ++ crlf))) =
          some (h.text, headersText hs ++ crlf) := by
        have hhere := @cutAt_here _ _ crlf (headersText hs ++ crlf) (by decide)
        have happend := @cutAt_append _ _ [byte '\n'] _ _ (crlf ++ (headersText hs ++ crlf))
          hw.not_mem
        rw [show crlf = byte '\r' :: [byte '\n'] from rfl] at hhere ⊢
        rw [show crlf = byte '\r' :: [byte '\n'] from rfl] at happend
        rw [happend, hhere, Option.map_some, List.append_nil]
      unfold headerLoop
      rw [if_neg, hcut]
      · dsimp only
        rw [List.length_cons] at hcount
        rw [if_neg (by omega), headerLine_iff.mpr ⟨h, rfl, hw, ht⟩]
        exact ih (by omega) (by simp only [List.length_append, hcrlf]; omega)
      · simp only [List.length_append, hcrlf]
        omega

/-! ## Complete requests -/

/-- Lines that are not empty and hold no end of a line have the empty line after them only. -/
theorem cutAt_lines {hs : List Header} (hw : ∀ h ∈ hs, h.WellFormed) :
    ∃ x, cutAt crlfcrlf (crlf ++ (headersText hs ++ crlf)) = some (x, []) := by
  induction hs with
  | nil => exact ⟨[], by decide⟩
  | cons h hs ih =>
    obtain ⟨x, hx⟩ := ih fun k hk => hw k (List.mem_cons_of_mem h hk)
    have hfree := (hw h List.mem_cons_self).not_mem
    have htext : headersText (h :: hs) ++ crlf = h.text ++ (crlf ++ (headersText hs ++ crlf)) := by
      simp only [headersText, List.flatMap_cons, List.append_assoc]
    have happend := @cutAt_append _ _ [byte '\n', byte '\r', byte '\n'] _ _
      (crlf ++ (headersText hs ++ crlf)) hfree
    have hline : cutAt crlfcrlf (h.text ++ (crlf ++ (headersText hs ++ crlf))) =
        some (h.text ++ x, []) := by
      unfold crlfcrlf at hx ⊢
      rw [happend, hx]
      rfl
    rw [htext]
    cases hh : h.text with
    | nil =>
      have hpos := @Header.text_length h
      rw [hh] at hpos
      exact absurd hpos (by decide)
    | cons c text =>
      rw [hh] at hline hfree
      have hc : byte '\r' ≠ c := fun hc => hfree (hc ▸ List.mem_cons_self)
      refine ⟨crlf ++ (c :: text ++ x), ?_⟩
      have hnl : byte '\r' ≠ byte '\n' := by decide
      unfold crlf crlfcrlf at *
      simp only [List.cons_append, List.nil_append] at hline ⊢
      rw [cutAt, if_neg (by simp [List.isPrefixOf, hc]), cutAt,
        if_neg (by simp [List.isPrefixOf, hnl]), hline]
      rfl

/-- The first line of a request ends where its text says so. -/
theorem requestLine_free {target : Bytes} (h : target.all targetByte = true) :
    byte '\r' ∉ bytesOf "GET ".toList ++ target ++ bytesOf " HTTP/1.1".toList := by
  have htarget : byte '\r' ∉ target := fun hm =>
    absurd (List.all_eq_true.mp h _ hm) (by decide)
  rw [List.mem_append, List.mem_append, not_or, not_or]
  exact ⟨⟨by decide, htarget⟩, by decide⟩

/-- The authority and the path of a redirect URI. -/
def authorityOf (uri : Bytes) : Bytes := ((uri.drop 7).takeWhile (· ≠ byte '/'))

def pathOf (uri : Bytes) : Bytes := (uri.drop 7).dropWhile (· ≠ byte '/')

theorem takeLine_uri {uri authority path : Bytes}
    (h : takeLine (byte '/') (uri.drop 7) = some (authority, path)) :
    authorityOf uri = authority ∧ pathOf uri = byte '/' :: path := by
  obtain ⟨hfree, heq⟩ := takeLine_eq_some.mp h
  have hall : ∀ c ∈ authority, decide (c ≠ byte '/') = true := by
    intro c hc
    rw [decide_eq_true_eq]
    rintro rfl
    exact hfree hc
  unfold authorityOf pathOf
  rw [heq, List.takeWhile_append_of_pos hall, List.dropWhile_append_of_pos hall]
  simp

/-- After its first line, a request that ends with its first empty line is a block. -/
theorem block_of_request {request block line rest : Bytes}
    (hend : cutAt crlfcrlf request = some (block, [])) (hline : cutAt crlf request = some (line, rest)) :
    Block rest := by
  have hrequest := cutAt_eq hline
  have hblock := cutAt_eq hend
  rw [List.append_nil] at hblock
  have hfirst : line.length ≤ block.length := cutAt_first hline (by rw [hblock, crlfcrlf_eq])
  constructor
  · have hdrop := congrArg (List.drop line.length) hblock
    rw [hrequest, List.drop_left' rfl, List.drop_append_of_le_length hfirst] at hdrop
    exact ⟨_, hdrop⟩
  · intro x y hxy
    have hle : block.length ≤ (line ++ x).length := by
      refine cutAt_first hend (y := y) ?_
      rw [hrequest, hxy, List.append_assoc]
    have hlen := congrArg List.length hxy
    have htotal := congrArg List.length hblock
    rw [hrequest] at htotal
    simp only [List.length_append] at hle hlen htotal
    exact List.eq_nil_of_length_eq_zero (by omega)

theorem Once.first {value : Bytes} {vs : List Bytes} {after : Bool} (h : Once false value vs after) :
    (∀ v ∈ vs, v = value) ∧ vs.length ≤ 1 ∧ (after = true → vs = [value]) := by
  rcases h with ⟨rfl, rfl⟩ | ⟨-, rfl, rfl⟩
  · simp
  · simp

theorem once_of_few {value : Bytes} {vs : List Bytes} (h : ∀ v ∈ vs, v = value)
    (hlen : vs.length ≤ 1) : ∃ after, Once false value vs after := by
  match vs, hlen with
  | [], _ => exact ⟨false, .inl ⟨rfl, rfl⟩⟩
  | [v], _ =>
    obtain rfl := h v List.mem_cons_self
    exact ⟨true, .inr ⟨rfl, rfl, rfl⟩⟩

/-- A request is complete exactly when it has the form, and what is asked besides. -/
theorem parse_complete_iff {uri request target : Bytes} :
    parse_bound_callback_http request uri = .complete target ↔
      loopback_uri uri = true ∧ ∃ headers,
        CallbackRequest (authorityOf uri) (pathOf uri) request target headers ∧
          Admitted target headers := by
  constructor
  · intro h
    unfold parse_bound_callback_http at h
    split at h
    · cases h
    rename_i hsize
    rw [not_or, Nat.not_lt, not_not] at hsize
    split at h
    · split at h
      · cases h
      · cases h
    rename_i block after hend
    split at h
    · cases h
    rename_i hafter
    rw [not_not] at hafter
    subst hafter
    split at h
    · rename_i line rest authority path hline huri
      split at h
      · cases h
      rename_i candidate htarget
      split at h
      · cases h
      rename_i s hloop
      split at h
      · rename_i hhost
        obtain rfl := BoundCallbackParse.complete.inj h
        obtain ⟨hauthority, hpath⟩ := takeLine_uri huri
        obtain ⟨rfl, hquery, hshort, hplain⟩ := requestTarget_iff.mp htarget
        have hrequest := cutAt_eq hline
        have hblock := block_of_request hend hline
        obtain ⟨headers, rfl, hcount, htakes⟩ := headerLoop_sound hloop hblock (Nat.zero_le _)
        obtain ⟨hw, hhosts, hlengths, hcoding, hexpect⟩ := takesAll_iff.mp htakes
        refine ⟨hsize.2, headers, ⟨hsize.1, ?_, ?_, by omega, hw, ?_, hlengths.first.1, hcoding⟩,
          hshort, hplain, hlengths.first.2.1, hexpect⟩
        · rw [hrequest]
          simp only [List.append_assoc]
        · rw [hpath]
          exact hquery
        · rw [hauthority]
          exact hhosts.first.2.2 hhost
      · cases h
    · cases h
  · rintro ⟨huri, headers, hform, hadmitted⟩
    obtain ⟨authority, path, htake⟩ := uri_authority huri
    obtain ⟨hauthority, hpath⟩ := takeLine_uri htake
    have htarget := hform.target
    rw [hpath] at htarget
    have hhost := hform.host
    rw [hauthority] at hhost
    obtain ⟨sent, hlength⟩ := once_of_few hform.no_body hadmitted.one_length
    have htakes : TakesAll authority ⟨false, false⟩ headers ⟨true, sent⟩ := takesAll_iff.mpr
      ⟨hform.wellFormed, .inr ⟨rfl, hhost, rfl⟩, hlength, hform.no_coding, hadmitted.no_expect⟩
    have hcount : 0 + headers.length ≤ 64 := by
      rw [Nat.zero_add]
      exact hform.fields
    have hloop := headerLoop_complete htakes hcount (Nat.lt_succ_self _)
    have hfree := requestLine_free hadmitted.plain
    have hline := requestTarget_iff.mpr ⟨rfl, htarget, hadmitted.short, hadmitted.plain⟩
    have hrequest := hform.text
    generalize bytesOf "GET ".toList ++ target ++ bytesOf " HTTP/1.1".toList = line
      at hfree hline hrequest
    rw [List.append_assoc, List.append_assoc] at hrequest
    obtain ⟨x, hlines⟩ := cutAt_lines hform.wellFormed
    have hend : cutAt crlfcrlf request = some (line ++ x, []) := by
      have happend := @cutAt_append _ _ [byte '\n', byte '\r', byte '\n'] _ _
        (crlf ++ (headersText headers ++ crlf)) hfree
      unfold crlfcrlf at hlines ⊢
      rw [hrequest, happend, hlines]
      rfl
    have hcut : cutAt crlf request = some (line, headersText headers ++ crlf) := by
      have hhere := @cutAt_here _ _ crlf (headersText headers ++ crlf) (by decide)
      have happend := @cutAt_append _ _ [byte '\n'] _ _ (crlf ++ (headersText headers ++ crlf)) hfree
      rw [← hrequest] at happend
      have hcrlf : byte '\r' :: [byte '\n'] = crlf := rfl
      rw [hcrlf, hhere, Option.map_some, List.append_nil] at happend
      exact happend
    unfold parse_bound_callback_http
    rw [if_neg (by have := hform.size; rw [huri]; simp; omega), hend, hcut, htake]
    simp only [ne_eq, not_true_eq_false, if_false, hline, hloop, if_true]

/-! ## Parts of a request -/

/-- A complete request ends with its first empty line. -/
theorem ends_of_complete {uri request target : Bytes}
    (h : parse_bound_callback_http request uri = .complete target) :
    request.length ≤ 8192 ∧ loopback_uri uri = true ∧
      ∃ block, cutAt crlfcrlf request = some (block, []) := by
  unfold parse_bound_callback_http at h
  split at h
  · cases h
  rename_i hsize
  rw [not_or, Nat.not_lt, not_not] at hsize
  split at h
  · split at h
    · cases h
    · cases h
  rename_i block after hend
  split at h
  · cases h
  rename_i hafter
  rw [not_not] at hafter
  subst hafter
  exact ⟨hsize.1, hsize.2, block, hend⟩

/-- No part of a complete request is complete or invalid. -/
theorem parse_of_part {uri request target part rest : Bytes}
    (h : parse_bound_callback_http request uri = .complete target)
    (hpart : request = part ++ rest) (hrest : rest ≠ []) :
    parse_bound_callback_http part uri = .incomplete := by
  obtain ⟨hsize, huri, block, hend⟩ := ends_of_complete h
  have hpos := List.length_pos_iff.mpr hrest
  have hlen := congrArg List.length hpart
  rw [List.length_append] at hlen
  have htotal := congrArg List.length (cutAt_eq hend)
  rw [List.append_nil, List.length_append] at htotal
  have hnone : cutAt crlfcrlf part = none := by
    rw [cutAt_eq_none]
    intro x y hxy
    have hle : block.length ≤ x.length := by
      refine cutAt_first hend (y := y ++ rest) ?_
      rw [hpart, hxy, List.append_assoc, List.append_assoc]
    have hplace := congrArg List.length hxy
    simp only [List.length_append] at hplace
    omega
  unfold parse_bound_callback_http
  rw [if_neg (by rw [huri]; simp; omega), hnone]
  exact if_neg (by omega)

/-- Nothing may follow a complete request. -/
theorem parse_of_extension {uri request target rest : Bytes}
    (h : parse_bound_callback_http request uri = .complete target) (hrest : rest ≠ []) :
    parse_bound_callback_http (request ++ rest) uri = .invalid := by
  obtain ⟨-, -, block, hend⟩ := ends_of_complete h
  have hrequest := cutAt_eq hend
  rw [List.append_nil] at hrequest
  have hlonger : request ++ rest = block ++ (crlfcrlf ++ rest) := by
    rw [hrequest, List.append_assoc]
  obtain ⟨⟨before, after⟩, hcut⟩ := @cutAt_isSome _ _ crlfcrlf block rest
  have hfirst := cutAt_first hcut rfl
  have hafter : after ≠ [] := by
    intro hnil
    have hpos := List.length_pos_iff.mpr hrest
    have hlen := congrArg List.length (cutAt_eq hcut)
    rw [hnil] at hlen
    simp only [List.length_append, List.length_nil] at hlen
    omega
  unfold parse_bound_callback_http
  split
  · rfl
  rw [hlonger, hcut]
  exact if_pos hafter

/-- A connection that is not finished by the reads before has a part of the request. -/
theorem readCallback_complete {uri request target : Bytes} {reads : List Bytes} {used : Bytes}
    (h : parse_bound_callback_http request uri = .complete target)
    (hreads : request = used ++ reads.flatten) (hused : used ≠ request) :
    readCallback uri used reads = .complete target := by
  induction reads generalizing used with
  | nil =>
    rw [List.flatten_nil, List.append_nil] at hreads
    exact absurd hreads.symm hused
  | cons count reads ih =>
    have happend : request = (used ++ count) ++ reads.flatten := by
      rw [hreads, List.flatten_cons, List.append_assoc]
    unfold readCallback
    by_cases hwhole : used ++ count = request
    · rw [hwhole, h]
    · have hrest : reads.flatten ≠ [] := by
        intro hnil
        rw [hnil, List.append_nil] at happend
        exact hwhole happend.symm
      rw [parse_of_part h happend hrest]
      exact ih happend hwhole

/-- What a connection accepts is a complete request at the start of its bytes. -/
theorem complete_of_readCallback {uri target : Bytes} {reads : List Bytes} {used : Bytes}
    (h : readCallback uri used reads = .complete target) :
    ∃ request rest, used ++ reads.flatten = request ++ rest ∧
      parse_bound_callback_http request uri = .complete target := by
  induction reads generalizing used with
  | nil => cases h
  | cons count reads ih =>
    unfold readCallback at h
    split at h
    · obtain ⟨request, rest, hbytes, hcomplete⟩ := ih h
      refine ⟨request, rest, ?_, hcomplete⟩
      rw [← hbytes, List.flatten_cons, List.append_assoc]
    · refine ⟨used ++ count, reads.flatten, ?_, h⟩
      rw [List.flatten_cons, List.append_assoc]

/-- Two complete requests at the start of the same bytes are one. -/
theorem complete_unique {uri request request' target target' rest rest' : Bytes}
    (h : parse_bound_callback_http request uri = .complete target)
    (h' : parse_bound_callback_http request' uri = .complete target')
    (hbytes : request ++ rest = request' ++ rest') : target = target' := by
  rcases List.append_eq_append_iff.mp hbytes with ⟨more, rfl, -⟩ | ⟨more, rfl, -⟩
  · by_cases hmore : more = []
    · rw [hmore, List.append_nil, h] at h'
      exact BoundCallbackParse.complete.inj h'
    · rw [parse_of_part h' rfl hmore] at h
      cases h
  · by_cases hmore : more = []
    · rw [hmore, List.append_nil, h'] at h
      exact (BoundCallbackParse.complete.inj h).symm
    · rw [parse_of_part h rfl hmore] at h'
      cases h'

/-- A request is complete exactly in the form of a callback without a body and
with what is asked besides. Each part of it is incomplete and nothing may follow
it, so the reads of a connection give its target however it is cut, and no two
ways to cut the same bytes give two targets. -/
theorem callbacks_are_framed (uri : Bytes) :
    (∀ request target : Bytes, parse_bound_callback_http request uri = .complete target ↔
      loopback_uri uri = true ∧ ∃ headers,
        CallbackRequest (authorityOf uri) (pathOf uri) request target headers ∧
          Admitted target headers) ∧
    (∀ request target : Bytes, parse_bound_callback_http request uri = .complete target →
      (∀ part rest, request = part ++ rest → rest ≠ [] →
        parse_bound_callback_http part uri = .incomplete) ∧
      (∀ rest, rest ≠ [] → parse_bound_callback_http (request ++ rest) uri = .invalid) ∧
      ∀ reads : List Bytes, reads.flatten = request →
        readCallback uri [] reads = .complete target) ∧
    ∀ (reads reads' : List Bytes) (target target' : Bytes), reads.flatten = reads'.flatten →
      readCallback uri [] reads = .complete target →
      readCallback uri [] reads' = .complete target' → target = target' := by
  refine ⟨fun request target => parse_complete_iff, fun request target h =>
    ⟨fun part rest hpart hrest => parse_of_part h hpart hrest,
      fun rest hrest => parse_of_extension h hrest, fun reads hreads => ?_⟩, ?_⟩
  · refine readCallback_complete h (by rw [List.nil_append, hreads]) ?_
    rintro rfl
    obtain ⟨-, -, block, hend⟩ := ends_of_complete h
    cases hend
  · intro reads reads' target target' hsame h h'
    obtain ⟨request, rest, hbytes, hcomplete⟩ := complete_of_readCallback h
    obtain ⟨request', rest', hbytes', hcomplete'⟩ := complete_of_readCallback h'
    have hstart : request ++ rest = request' ++ rest' := by
      rw [← hbytes, ← hbytes', hsame]
    exact complete_unique hcomplete hcomplete' hstart

/-- A redirect URI. -/
def callbackUri : Bytes := bytesOf "http://127.0.0.1:49152/callback".toList

def callbackTarget : Bytes := bytesOf "/callback?code=a".toList

def callbackHost : Header := ⟨bytesOf "Host".toList, bytesOf " 127.0.0.1:49152".toList⟩

def callbackExpect : Header := ⟨bytesOf "Expect".toList, bytesOf " 100-continue".toList⟩

def callbackText (headers : List Header) : Bytes :=
  bytesOf "GET ".toList ++ callbackTarget ++ bytesOf " HTTP/1.1".toList ++ crlf ++
    headersText headers ++ crlf

/-- A callback that arrives in two reads. -/
theorem a_callback_in_two_reads :
    parse_bound_callback_http (callbackText [callbackHost]) callbackUri = .complete callbackTarget ∧
      readCallback callbackUri [] [(callbackText [callbackHost]).take 39,
        (callbackText [callbackHost]).drop 39] = .complete callbackTarget := by
  have hcomplete : parse_bound_callback_http (callbackText [callbackHost]) callbackUri =
      .complete callbackTarget := by decide
  obtain ⟨-, hrequest, -⟩ := callbacks_are_framed callbackUri
  refine ⟨hcomplete, (hrequest _ _ hcomplete).2.2 _ ?_⟩
  simp

/-- A request of the form that expects an answer before its body, of which there
is none, is invalid. -/
theorem a_callback_that_expects_an_answer_is_invalid :
    loopback_uri callbackUri = true ∧
      CallbackRequest (authorityOf callbackUri) (pathOf callbackUri)
        (callbackText [callbackHost, callbackExpect]) callbackTarget
        [callbackHost, callbackExpect] ∧
      parse_bound_callback_http (callbackText [callbackHost, callbackExpect]) callbackUri =
        .invalid := by
  refine ⟨by decide, ⟨by decide, rfl, ⟨bytesOf "code=a".toList, by decide⟩,
    by decide, ?_, by decide, ?_, by decide⟩, by decide⟩
  · intro h hh
    rcases List.mem_pair.mp hh with rfl | rfl
    · exact ⟨by decide, by decide⟩
    · exact ⟨by decide, by decide⟩
  · have hnone : values "content-length" [callbackHost, callbackExpect] = [] := by decide
    rw [hnone]
    simp

end Licensecc.Identity
