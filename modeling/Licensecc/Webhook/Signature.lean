-- The law of webhook signatures. The receiver reads back what the signer wrote when the
-- key id has no comma and no white space at its ends, and it takes no other time and no
-- other body under the same signature.
import Licensecc.Codec.JsNumber
import Licensecc.Codec.Lines
import Licensecc.Codec.JsonValue
import Mathlib.Data.Rat.Floor
import Mathlib.Tactic.Linarith

open Licensecc.Codec

namespace Licensecc.Webhook

variable {ν : Type}

/-! ## Secrets -/

/-- The secrets by their key ids. -/
abbrev SecretMap := List (JsText × Bytes)

def MIN_SECRET_BYTES : Nat := 32

/-- The secret of one member of the configuration. -/
def loadSecret (atob : JsText → Option Bytes) (member : JsText × JsonValue ν) :
    Option (JsText × Bytes) :=
  match member.2 with
  | .string value =>
    if value = [] then none
    else (atob value).bind fun secretBytes =>
      if secretBytes.length < MIN_SECRET_BYTES then none else some (member.1, secretBytes)
  | _ => none

/-- `loadSecretMap` of what `JSON.parse` makes of the configuration. -/
def loadSecretMap (atob : JsText → Option Bytes) (parsed : Option (JsonValue ν)) : Option SecretMap :=
  match parsed with
  | some (.object members) => (members.mapM (loadSecret atob)).filter (· ≠ [])
  | _ => none

def lookupSecret (map : SecretMap) (keyId : JsText) : Option Bytes :=
  (map.find? (·.1 = keyId)).map (·.2)

/-- HMAC-SHA256 of a key and a message. -/
structure Hmac where
  sign : Bytes → Bytes → Bytes
  length_sign : ∀ key message, (sign key message).length = 32

/-! ## Hexadecimal -/

def bytesToHex (bytes : Bytes) : JsText :=
  jsText (bytes.flatMap fun b => [Codec.hexDigit (b.toNat / 16), Codec.hexDigit (b.toNat % 16)])

/-- The value of a unit that is `[0-9a-fA-F]`. -/
def hexUnit (u : UInt16) : Option Nat :=
  let n := u.toNat
  if 48 ≤ n ∧ n ≤ 57 then some (n - 48)
  else if 97 ≤ n ∧ n ≤ 102 then some (n - 87)
  else if 65 ≤ n ∧ n ≤ 70 then some (n - 55)
  else none

def hexPairs : JsText → Option Bytes
  | [] => some []
  | [_] => none
  | a :: b :: rest =>
    (hexUnit a).bind fun high => (hexUnit b).bind fun low =>
      (hexPairs rest).map (UInt8.ofNat (16 * high + low) :: ·)

def hexToBytes (hex : JsText) : Option Bytes := if hex = [] then none else hexPairs hex

/-! ## Signing -/

def WEBHOOK_REPLAY_WINDOW_SECONDS : Int := 300

def canonicalSignedText (t rawBody : JsText) : JsText := t ++ unit '.' :: rawBody

/-- The text of the time of a signature. -/
def timeText (now : ℚ) : JsText := jsText (numberText ⌊now⌋)

/-- The HMAC that a signature carries. -/
def signature (H : Hmac) (secretBytes : Bytes) (body : JsText) (now : ℚ) : Bytes :=
  H.sign secretBytes (encode (canonicalSignedText (timeText now) body))

/-- The header of a time, a key id and an HMAC. -/
def headerText (t keyId v1 : JsText) : JsText :=
  (jsText "t=".toList ++ t) ++ unit ',' :: ((jsText "keyid=".toList ++ keyId) ++
    unit ',' :: (jsText "v1=".toList ++ v1))

/-- `signWebhookBody`, which throws when there is no key to import. -/
def signWebhookBody (H : Hmac) (secretsMap : SecretMap) (keyId body : JsText) (now : ℚ) :
    Option JsText :=
  match lookupSecret secretsMap keyId with
  | none => none
  | some secretBytes =>
    if secretBytes = [] then none
    else some (headerText (timeText now) keyId (bytesToHex (signature H secretBytes body now)))

/-! ## Verifying -/

/-- The parts of a header, and those that no segment has set. -/
structure HeaderParts where
  t : Option JsText := none
  keyid : Option JsText := none
  v1 : Option JsText := none

/-- The part that a segment sets. -/
def readSegment (segment : JsText) : HeaderParts :=
  if unit '=' ∉ segment ∨ segment.head? = some (unit '=') then {}
  else
    let k := trim (segment.takeWhile (· ≠ unit '='))
    let v := trim (segment.dropWhile (· ≠ unit '=')).tail
    if k = jsText "t".toList then { t := some v }
    else if k = jsText "keyid".toList then { keyid := some v }
    else if k = jsText "v1".toList then { v1 := some v }
    else {}

/-- Later parts take the place of earlier ones. -/
def HeaderParts.set (p q : HeaderParts) : HeaderParts :=
  ⟨q.t.or p.t, q.keyid.or p.keyid, q.v1.or p.v1⟩

def readSegments (segments : List JsText) : HeaderParts :=
  segments.foldl (fun parts segment => parts.set (readSegment segment)) {}

/-- `parseSignatureHeader`: the time, the key id and the HMAC. -/
def parseSignatureHeader (header : JsText) : Option (JsText × JsText × JsText) :=
  if header = [] then none
  else
    match readSegments (header.splitOn (unit ',')) with
    | ⟨some t, some keyid, some v1⟩ => some (t, keyid, v1)
    | _ => none

/-- The integer `Number(t)`, where `String` gives the text back. -/
def readTime (text : JsText) : Option Int :=
  let t : Int := toDouble (Nat.ofDigitChars 10 (scalars text) 0)
  if text.length ≤ 21 ∧ jsText (numberText t) = text then some t else none

def replaySkew (skewSec : Int) : Int :=
  if skewSec ≥ 0 then skewSec else WEBHOOK_REPLAY_WINDOW_SECONDS

def verifyWebhookSignature (H : Hmac) (rawBody header : JsText) (secretsMap : SecretMap) (now : ℚ)
    (skewSec : Int := WEBHOOK_REPLAY_WINDOW_SECONDS) : Bool :=
  match parseSignatureHeader header with
  | none => false
  | some (t, keyid, v1) =>
    match readTime t with
    | none => false
    | some time =>
      if |⌊now⌋ - time| > replaySkew skewSec then false
      else
        match lookupSecret secretsMap keyid, hexToBytes v1 with
        | some secretBytes, some sigBytes =>
          secretBytes ≠ [] && sigBytes = H.sign secretBytes (encode (canonicalSignedText t rawBody))
        | _, _ => false

/-! ## What is read back -/

theorem hexUnit_hexDigit : ∀ n < 16, hexUnit (unit (Codec.hexDigit n)) = some n := by decide

theorem hexPairs_bytesToHex (bytes : Bytes) : hexPairs (bytesToHex bytes) = some bytes := by
  induction bytes with
  | nil => rfl
  | cons b bytes ih =>
    have hlt := b.toNat_lt
    have hbyte : UInt8.ofNat (16 * (b.toNat / 16) + b.toNat % 16) = b := by
      rw [Nat.div_add_mod, UInt8.ofNat_toNat]
    unfold bytesToHex at ih ⊢
    simp only [List.flatMap_cons, List.cons_append, List.nil_append, jsText_cons, hexPairs,
      hexUnit_hexDigit _ (show b.toNat / 16 < 16 by omega),
      hexUnit_hexDigit _ (show b.toNat % 16 < 16 by omega), Option.bind_some, ih, Option.map_some,
      hbyte]

theorem hexToBytes_bytesToHex {bytes : Bytes} (h : bytes ≠ []) :
    hexToBytes (bytesToHex bytes) = some bytes := by
  unfold hexToBytes
  rw [if_neg, hexPairs_bytesToHex]
  cases bytes with
  | nil => exact absurd rfl h
  | cons b bytes => simp [bytesToHex]

/-- A character that stands in a header as it is. -/
def plainChar (c : Char) : Bool := c.isDigit || ('a' ≤ c && c ≤ 'z') || c = '-'

theorem plainChar_toNat {c : Char} (h : plainChar c = true) :
    45 ≤ c.toNat ∧ c.toNat ≤ 122 ∧ c.toNat ≠ 61 := by
  unfold plainChar at h
  simp only [Bool.or_eq_true, Bool.and_eq_true, decide_eq_true_eq] at h
  rcases h with (h | ⟨h1, h2⟩) | rfl
  · have := isDigit_toNat h
    omega
  · have h1 : 97 ≤ c.toNat := h1
    have h2 : c.toNat ≤ 122 := h2
    omega
  · decide

theorem ascii_plain {s : List Char} (h : ∀ c ∈ s, plainChar c = true) : Ascii s := by
  intro c hc
  have := plainChar_toNat (h c hc)
  omega

/-- A plain text has no comma and no white space. -/
theorem plain_text {s : List Char} (h : ∀ c ∈ s, plainChar c = true) :
    unit ',' ∉ jsText s ∧ trim (jsText s) = jsText s := by
  constructor
  · rw [mem_jsText (by decide) (ascii_plain h)]
    intro hc
    exact absurd (h _ hc) (by decide)
  · apply trim_eq_self
    intro u hu
    obtain ⟨c, hc, rfl⟩ := List.mem_map.mp hu
    have hn := plainChar_toNat (h c hc)
    have htoNat := toNat_unit (c := c) (by omega)
    unfold isSpace
    simp only [htoNat, Bool.or_eq_false_iff, Bool.and_eq_false_iff, decide_eq_false_iff_not]
    omega

theorem hexDigit_plain : ∀ n < 16, plainChar (Codec.hexDigit n) = true := by decide

theorem plain_hex (bytes : Bytes) : ∃ s, bytesToHex bytes = jsText s ∧ ∀ c ∈ s, plainChar c = true := by
  refine ⟨_, rfl, fun c hc => ?_⟩
  obtain ⟨b, -, hcb⟩ := List.mem_flatMap.mp hc
  have hlt := b.toNat_lt
  simp only [List.mem_cons, List.not_mem_nil, or_false] at hcb
  rcases hcb with rfl | rfl
  · exact hexDigit_plain _ (by omega)
  · exact hexDigit_plain _ (by omega)

theorem plain_number (n : Int) : ∀ c ∈ numberText n, plainChar c = true := by
  intro c hc
  have := numberText_chars n c hc
  unfold isNumberChar at this
  unfold plainChar
  simp only [Bool.or_eq_true, beq_iff_eq] at this
  rcases this with h | rfl
  · simp [h]
  · decide

/-- A segment whose key is one of the three. -/
theorem readSegment_key {key : List Char} (v : JsText) (h : ∀ c ∈ key, plainChar c = true)
    (hne : key ≠ []) :
    readSegment (jsText key ++ unit '=' :: v) =
      if jsText key = jsText "t".toList then { t := some (trim v) }
      else if jsText key = jsText "keyid".toList then { keyid := some (trim v) }
      else if jsText key = jsText "v1".toList then { v1 := some (trim v) }
      else {} := by
  have heq : ∀ u ∈ jsText key, u ≠ unit '=' := by
    intro u hu he
    subst he
    have hc := (mem_jsText (by decide) (ascii_plain h)).mp hu
    exact absurd (h _ hc) (by decide)
  have htake : (jsText key ++ unit '=' :: v).takeWhile (· ≠ unit '=') = jsText key := by
    rw [List.takeWhile_append_of_pos (by simpa using heq)]
    simp
  have hdrop : (jsText key ++ unit '=' :: v).dropWhile (· ≠ unit '=') = unit '=' :: v := by
    rw [List.dropWhile_append_of_pos (by simpa using heq)]
    simp
  have hhead : (jsText key ++ unit '=' :: v).head? ≠ some (unit '=') := by
    cases key with
    | nil => exact absurd rfl hne
    | cons c key =>
      intro hsome
      exact heq (unit c) List.mem_cons_self (Option.some.inj hsome)
  unfold readSegment
  rw [if_neg (not_or.mpr ⟨not_not.mpr (by simp), hhead⟩), htake, hdrop, (plain_text h).2]
  rfl

/-! ## The parts of a header -/

theorem HeaderParts.set_assoc (p q r : HeaderParts) : (p.set q).set r = p.set (q.set r) := by
  unfold HeaderParts.set
  simp only [Option.or_assoc]

theorem HeaderParts.empty_set (p : HeaderParts) : HeaderParts.set {} p = p := by
  unfold HeaderParts.set
  simp

theorem HeaderParts.set_empty (p : HeaderParts) : p.set {} = p := by
  unfold HeaderParts.set
  simp

theorem foldl_set (segments : List JsText) (p : HeaderParts) :
    segments.foldl (fun parts segment => parts.set (readSegment segment)) p =
      p.set (readSegments segments) := by
  unfold readSegments
  induction segments generalizing p with
  | nil => exact (HeaderParts.set_empty p).symm
  | cons segment segments ih =>
    rw [List.foldl_cons, List.foldl_cons, ih, ih (HeaderParts.set {} _), HeaderParts.empty_set,
      HeaderParts.set_assoc]

theorem readSegments_append (l l' : List JsText) :
    readSegments (l ++ l') = (readSegments l).set (readSegments l') := by
  conv => lhs; unfold readSegments
  rw [List.foldl_append, foldl_set]
  rfl

theorem readSegments_singleton (segment : JsText) : readSegments [segment] = readSegment segment :=
  HeaderParts.empty_set _

/-- What the parser reads of a key id. -/
def keyIdParts (keyId : JsText) : HeaderParts :=
  readSegments ((jsText "keyid=".toList ++ keyId).splitOn (unit ','))

/-- The parts of a header: those of its key id between its time and its HMAC. -/
theorem readSegments_headerText {t v1 : List Char} (keyId : JsText)
    (ht : ∀ c ∈ t, plainChar c = true) (hv : ∀ c ∈ v1, plainChar c = true) :
    readSegments ((headerText (jsText t) keyId (jsText v1)).splitOn (unit ',')) =
      ⟨(keyIdParts keyId).t.or (some (jsText t)), (keyIdParts keyId).keyid, some (jsText v1)⟩ := by
  have htime : readSegments ((jsText "t=".toList ++ jsText t).splitOn (unit ',')) =
      { t := some (jsText t) } := by
    have hcomma : unit ',' ∉ jsText "t=".toList ++ jsText t := by
      rw [List.mem_append]
      rintro (h | h)
      · exact absurd h (by decide)
      · exact (plain_text ht).1 h
    have hread := @readSegment_key ['t'] (jsText t) (List.all_eq_true.mp rfl) (by decide)
    rw [if_pos (by decide), (plain_text ht).2] at hread
    rw [List.splitOn_eq_singleton hcomma, readSegments_singleton]
    exact hread
  have hmac : readSegments ((jsText "v1=".toList ++ jsText v1).splitOn (unit ',')) =
      { v1 := some (jsText v1) } := by
    have hcomma : unit ',' ∉ jsText "v1=".toList ++ jsText v1 := by
      rw [List.mem_append]
      rintro (h | h)
      · exact absurd h (by decide)
      · exact (plain_text hv).1 h
    have hread := @readSegment_key ['v', '1'] (jsText v1) (List.all_eq_true.mp rfl) (by decide)
    rw [if_neg (by decide), if_neg (by decide), if_pos (by decide), (plain_text hv).2] at hread
    rw [List.splitOn_eq_singleton hcomma, readSegments_singleton]
    exact hread
  unfold headerText
  rw [List.splitOn_append_cons_self, List.splitOn_append_cons_self, readSegments_append,
    readSegments_append, htime, hmac]
  unfold keyIdParts HeaderParts.set
  simp

/-- A key id that the parser reads as it is. -/
theorem keyIdParts_plain {keyId : JsText} (hcomma : unit ',' ∉ keyId) (htrim : trim keyId = keyId) :
    keyIdParts keyId = { keyid := some keyId } := by
  have hno : unit ',' ∉ jsText "keyid=".toList ++ keyId := by
    rw [List.mem_append]
    rintro (h | h)
    · exact absurd h (by decide)
    · exact hcomma h
  have hread := @readSegment_key ['k', 'e', 'y', 'i', 'd'] keyId (List.all_eq_true.mp rfl) (by decide)
  rw [if_neg (by decide), if_pos (by decide), htrim] at hread
  unfold keyIdParts
  rw [List.splitOn_eq_singleton hno, readSegments_singleton]
  exact hread

/-! ## Times -/

theorem shortest_small {n : Nat} (h : n < 2 ^ 53) : shortest n = n := by
  have hread := toDouble_shortest n
  rw [toDouble_small h] at hread
  by_cases hs : shortest n < 2 ^ 53
  · rwa [toDouble_small hs] at hread
  · have := le_toDouble (not_lt.mp hs)
    omega

theorem numberText_small {n : Nat} (h : n < 2 ^ 53) : numberText n = Nat.toDigits 10 n := by
  show Nat.toDigits 10 (shortest n) = _
  rw [shortest_small h]

/-- The time of a signature is read back. -/
theorem readTime_numberText {n : Nat} (h : n < 2 ^ 53) :
    readTime (jsText (numberText n)) = some (n : Int) := by
  have hplain := ascii_plain (plain_number n)
  have hscalars : scalars (jsText (numberText n)) = numberText n := by
    have := scalars_jsText hplain []
    simpa [scalars, codePoints] using this
  have hlength : (numberText n).length ≤ 21 := by
    rw [numberText_small h]
    exact (Nat.length_toDigits_le_iff (by omega) (by omega)).mpr (by omega)
  unfold readTime
  rw [hscalars, numberText_small h, Nat.ofDigitChars_ten_toDigits, toDouble_small h]
  rw [numberText_small h] at hlength
  simp [numberText_small h, jsText, hlength]

/-- The whole seconds of a time. -/
theorem floor_small {now : ℚ} (hlo : 0 ≤ now) (hhi : now < 2 ^ 53) :
    ∃ n : Nat, ⌊now⌋ = n ∧ n < 2 ^ 53 := by
  have hfloor : 0 ≤ ⌊now⌋ := Int.floor_nonneg.mpr hlo
  obtain ⟨n, hn⟩ := Int.eq_ofNat_of_zero_le hfloor
  refine ⟨n, hn, ?_⟩
  have hle : ((⌊now⌋ : Int) : ℚ) ≤ now := Int.floor_le now
  rw [hn] at hle
  have : (n : ℚ) < 2 ^ 53 := lt_of_le_of_lt (by exact_mod_cast hle) hhi
  exact_mod_cast this

/-! ## The law -/

theorem loadSecret_length {atob : JsText → Option Bytes} {member : JsText × JsonValue ν}
    {entry : JsText × Bytes} (h : loadSecret atob member = some entry) :
    MIN_SECRET_BYTES ≤ entry.2.length := by
  unfold loadSecret at h
  split at h
  · split at h
    · cases h
    · obtain ⟨bytes, -, hbytes⟩ := Option.bind_eq_some_iff.mp h
      split at hbytes
      · cases hbytes
      · rename_i hlen
        obtain rfl := Option.some.inj hbytes
        exact not_lt.mp hlen
  · cases h

theorem mem_mapM {α β : Type} {f : α → Option β} {l : List α} {l' : List β} (h : l.mapM f = some l')
    {b : β} (hb : b ∈ l') : ∃ a ∈ l, f a = some b := by
  induction l generalizing l' with
  | nil =>
    obtain rfl : [] = l' := by simpa using h
    cases hb
  | cons a l ih =>
    simp only [List.mapM_cons, Option.bind_eq_bind, Option.bind_eq_some_iff, Option.pure_def,
      Option.some.injEq] at h
    obtain ⟨b', hb', bs, hbs, rfl⟩ := h
    rcases List.mem_cons.mp hb with rfl | hb
    · exact ⟨a, List.mem_cons_self, hb'⟩
    · obtain ⟨a', ha', hf⟩ := ih hbs hb
      exact ⟨a', List.mem_cons_of_mem _ ha', hf⟩

/-- Every secret of a loaded map is long enough. -/
theorem loadSecretMap_length {atob : JsText → Option Bytes} {parsed : Option (JsonValue ν)}
    {map : SecretMap} (h : loadSecretMap atob parsed = some map) :
    ∀ entry ∈ map, MIN_SECRET_BYTES ≤ entry.2.length := by
  unfold loadSecretMap at h
  split at h
  · rename_i members
    have hmap := (Option.filter_eq_some_iff.mp h).1
    intro entry hentry
    obtain ⟨member, -, hmember⟩ := mem_mapM hmap hentry
    exact loadSecret_length hmember
  · cases h

theorem lookupSecret_mem {map : SecretMap} {keyId : JsText} {secretBytes : Bytes}
    (h : lookupSecret map keyId = some secretBytes) : (keyId, secretBytes) ∈ map := by
  unfold lookupSecret at h
  obtain ⟨entry, hentry, rfl⟩ := Option.map_eq_some_iff.mp h
  have hkey := List.find?_some hentry
  rw [decide_eq_true_eq] at hkey
  rw [← hkey]
  exact List.mem_of_find?_eq_some hentry

section
variable (H : Hmac) (map : SecretMap) (keyId : JsText) (secretBytes : Bytes)

/-- The receiver reads the time of the signer, and a key with the HMACs of the signer's. -/
def ReadsBack : Prop :=
  (keyIdParts keyId).t = none ∧
    ∃ secret', ((keyIdParts keyId).keyid.bind (lookupSecret map)) = some secret' ∧
      ∀ (now : ℚ) (body : JsText), 0 ≤ now → now < 2 ^ 53 →
        signature H secret' body now = signature H secretBytes body now

/-- A signature verifies exactly within the skew. -/
def RoundTrips : Prop :=
  ∀ (body : JsText) (now now' : ℚ) (skewSec : Int), 0 ≤ now → now < 2 ^ 53 → 0 ≤ now' →
    now' < 2 ^ 53 → ∃ header, signWebhookBody H map keyId body now = some header ∧
      (verifyWebhookSignature H body header map now' skewSec = true ↔
        |⌊now'⌋ - ⌊now⌋| ≤ replaySkew skewSec)

/-- What verifies under the HMAC of a signature has its time and its body. -/
def Binds : Prop :=
  ∀ (body body' : JsText) (now now' : ℚ) (skewSec : Int) (header t keyid : JsText),
    parseSignatureHeader header =
        some (t, keyid, bytesToHex (signature H secretBytes body now)) →
      -- the HMACs of the two messages differ when the messages do
      (∀ secret', H.sign secret' (encode (canonicalSignedText t body')) =
          signature H secretBytes body now →
        encode (canonicalSignedText t body') = encode (canonicalSignedText (timeText now) body)) →
      verifyWebhookSignature H body' header map now' skewSec = true →
        t = timeText now ∧ encode body' = encode body

variable {H map keyId secretBytes}

theorem signature_ne_nil {body : JsText} {now : ℚ} : signature H secretBytes body now ≠ [] := by
  intro h
  have := H.length_sign secretBytes (encode (canonicalSignedText (timeText now) body))
  unfold signature at h
  rw [h] at this
  cases this

theorem signWebhookBody_eq (hkey : lookupSecret map keyId = some secretBytes)
    (hne : secretBytes ≠ []) {body : JsText} {now : ℚ} :
    signWebhookBody H map keyId body now =
      some (headerText (timeText now) keyId (bytesToHex (signature H secretBytes body now))) := by
  unfold signWebhookBody
  rw [hkey]
  simp [hne]

/-- What the verifier makes of the header of a signer. -/
theorem verify_headerText {body body' : JsText} {now now' : ℚ} {skewSec : Int} :
    verifyWebhookSignature H body'
        (headerText (timeText now) keyId (bytesToHex (signature H secretBytes body now))) map now'
        skewSec = true ↔
      ∃ keyid secret' time, (keyIdParts keyId).keyid = some keyid ∧
        lookupSecret map keyid = some secret' ∧ secret' ≠ [] ∧
        readTime ((keyIdParts keyId).t.getD (timeText now)) = some time ∧
        |⌊now'⌋ - time| ≤ replaySkew skewSec ∧
        signature H secretBytes body now =
          H.sign secret' (encode (canonicalSignedText ((keyIdParts keyId).t.getD (timeText now)) body')) := by
  obtain ⟨hex, hhex, hplain⟩ := plain_hex (signature H secretBytes body now)
  have hparts := readSegments_headerText keyId (plain_number ⌊now⌋) hplain
  rw [← hhex] at hparts
  have hheader : headerText (timeText now) keyId (bytesToHex (signature H secretBytes body now)) ≠ [] := by
    unfold headerText
    simp [jsText]
  unfold verifyWebhookSignature parseSignatureHeader
  rw [if_neg hheader]
  unfold timeText
  rw [hparts]
  have hor : (keyIdParts keyId).t.or (some (jsText (numberText ⌊now⌋))) =
      some ((keyIdParts keyId).t.getD (jsText (numberText ⌊now⌋))) := by
    cases (keyIdParts keyId).t with
    | none => rfl
    | some t => rfl
  rw [hor]
  cases hk : (keyIdParts keyId).keyid with
  | none => simp
  | some keyid =>
    simp only [Option.some.injEq, exists_and_left, exists_eq_left']
    cases htime : readTime ((keyIdParts keyId).t.getD (jsText (numberText ⌊now⌋))) with
    | none => simp
    | some time =>
      simp only [Option.some.injEq, exists_eq_left']
      by_cases hskew : |⌊now'⌋ - time| ≤ replaySkew skewSec
      · rw [if_neg (not_lt.mpr hskew), hexToBytes_bytesToHex signature_ne_nil]
        cases lookupSecret map keyid with
        | none => simp
        | some secret' => simp [hskew]
      · rw [if_pos (not_le.mp hskew)]
        simp [hskew]

theorem readTime_timeText {now : ℚ} (hlo : 0 ≤ now) (hhi : now < 2 ^ 53) :
    readTime (timeText now) = some ⌊now⌋ := by
  obtain ⟨n, hn, hlt⟩ := floor_small hlo hhi
  unfold timeText
  rw [hn]
  exact readTime_numberText hlt

theorem lookupSecret_ne_nil {atob : JsText → Option Bytes} {parsed : Option (JsonValue ν)}
    (hmap : loadSecretMap atob parsed = some map) (hkey : lookupSecret map keyId = some secretBytes) :
    secretBytes ≠ [] := by
  intro hnil
  have hlen := loadSecretMap_length hmap _ (lookupSecret_mem hkey)
  rw [hnil] at hlen
  cases hlen

theorem replaySkew_nonneg (skewSec : Int) : 0 ≤ replaySkew skewSec := by
  unfold replaySkew
  split
  · assumption
  · decide

/-- Where every signature verifies, the receiver reads back what was signed. -/
theorem readsBack_of_roundTrips (hkey : lookupSecret map keyId = some secretBytes)
    (hne : secretBytes ≠ []) (h : RoundTrips H map keyId) : ReadsBack H map keyId secretBytes := by
  have hverify : ∀ (now : ℚ) (body : JsText), 0 ≤ now → now < 2 ^ 53 →
      verifyWebhookSignature H body
        (headerText (timeText now) keyId (bytesToHex (signature H secretBytes body now))) map now 0 =
          true := by
    intro now body hlo hhi
    obtain ⟨header, hsign, hiff⟩ := h body now now 0 hlo hhi hlo hhi
    rw [signWebhookBody_eq hkey hne] at hsign
    obtain rfl := Option.some.inj hsign
    apply hiff.mpr
    rw [sub_self, abs_zero]
    exact replaySkew_nonneg 0
  have hnone : (keyIdParts keyId).t = none := by
    by_contra hsome
    obtain ⟨t, ht⟩ := Option.ne_none_iff_exists'.mp hsome
    -- the time that the key id sets would be the time of every signature
    have htime : ∀ now : ℚ, 0 ≤ now → now < 2 ^ 53 → readTime t = some ⌊now⌋ := by
      intro now hlo hhi
      obtain ⟨_, _, time, -, -, -, hread, hskew, -⟩ :=
        verify_headerText.mp (hverify now [] hlo hhi)
      rw [ht, Option.getD_some] at hread
      have hzero : ⌊now⌋ - time = 0 := abs_nonpos_iff.mp hskew
      rw [hread, sub_eq_zero.mp hzero]
    have h0 := htime 0 (by norm_num) (by norm_num)
    rw [htime 1 (by norm_num) (by norm_num)] at h0
    norm_num at h0
  refine ⟨hnone, ?_⟩
  obtain ⟨keyid, secret', -, hkeyid, hlookup, -⟩ :=
    verify_headerText.mp (hverify 0 [] (by norm_num) (by norm_num))
  refine ⟨secret', ?_, fun now body hlo hhi => ?_⟩
  · rw [hkeyid, Option.bind_some, hlookup]
  · obtain ⟨keyid', secret'', -, hkeyid', hlookup', -, -, -, hsig⟩ :=
      verify_headerText.mp (hverify now body hlo hhi)
    rw [hkeyid] at hkeyid'
    obtain rfl := Option.some.inj hkeyid'
    rw [hlookup] at hlookup'
    obtain rfl := Option.some.inj hlookup'
    rw [hnone, Option.getD_none] at hsig
    exact hsig.symm

theorem roundTrips_of_readsBack {atob : JsText → Option Bytes} {parsed : Option (JsonValue ν)}
    (hmap : loadSecretMap atob parsed = some map) (hkey : lookupSecret map keyId = some secretBytes)
    (h : ReadsBack H map keyId secretBytes) : RoundTrips H map keyId := by
  obtain ⟨hnone, secret', hread, hsame⟩ := h
  obtain ⟨keyid, hkeyid, hlookup⟩ := Option.bind_eq_some_iff.mp hread
  intro body now now' skewSec hlo hhi _ _
  refine ⟨_, signWebhookBody_eq hkey (lookupSecret_ne_nil hmap hkey), ?_⟩
  rw [verify_headerText, hnone, Option.getD_none]
  constructor
  · rintro ⟨_, _, time, -, -, -, htime, hskew, -⟩
    rw [readTime_timeText hlo hhi] at htime
    rwa [← Option.some.inj htime] at hskew
  · intro hskew
    exact ⟨keyid, secret', ⌊now⌋, hkeyid, hlookup, lookupSecret_ne_nil hmap hlookup,
      readTime_timeText hlo hhi, hskew, (hsame now body hlo hhi).symm⟩

/-- A text that is a time is the text of a number. -/
theorem eq_of_readTime {t : JsText} {time : Int} (h : readTime t = some time) :
    ∃ n, t = jsText (numberText n) := by
  unfold readTime at h
  dsimp only at h
  split at h
  · rename_i hcond
    exact ⟨_, hcond.2.symm⟩
  · cases h

/-- The message of a signature has one time and one body. -/
theorem encode_canonicalSignedText {m n : Int} {body body' : JsText}
    (h : encode (canonicalSignedText (jsText (numberText m)) body') =
      encode (canonicalSignedText (jsText (numberText n)) body)) :
    jsText (numberText m) = jsText (numberText n) ∧ encode body' = encode body := by
  have hdot : ∀ k : Int, '.' ∉ numberText k := by
    intro k hk
    exact absurd (numberText_chars k _ hk) (by decide)
  unfold encode canonicalSignedText at h
  have hscalars := utf8_injective h
  rw [scalars_jsText (ascii_plain (plain_number m)), scalars_jsText (ascii_plain (plain_number n)),
    scalars_unit (by decide), scalars_unit (by decide)] at hscalars
  have hm := takeLine_eq_some (r := scalars body') |>.mpr ⟨hdot m, rfl⟩
  have hn := takeLine_eq_some.mpr ⟨hdot n, hscalars⟩
  obtain ⟨htime, hbody⟩ := Prod.mk.inj (Option.some.inj (hm.symm.trans hn))
  exact ⟨congrArg jsText htime, congrArg utf8 hbody⟩

theorem binds : Binds H map secretBytes := by
  intro body body' now now' skewSec header t keyid hparse hcollision hverify
  unfold verifyWebhookSignature at hverify
  rw [hparse] at hverify
  dsimp only at hverify
  cases htime : readTime t with
  | none =>
    rw [htime] at hverify
    cases hverify
  | some time =>
    rw [htime] at hverify
    dsimp only at hverify
    split at hverify
    · cases hverify
    · rw [hexToBytes_bytesToHex signature_ne_nil] at hverify
      cases hlookup : lookupSecret map keyid with
      | none =>
        rw [hlookup] at hverify
        cases hverify
      | some secret' =>
        rw [hlookup] at hverify
        simp only [Bool.and_eq_true, decide_eq_true_eq] at hverify
        have hmessage := hcollision secret' hverify.2.symm
        obtain ⟨n, rfl⟩ := eq_of_readTime htime
        exact encode_canonicalSignedText hmessage

/-- A signature verifies exactly within the skew when the receiver reads back what was
signed, and under its HMAC no other time and no other body verifies. -/
theorem signatures_verify_iff {atob : JsText → Option Bytes} {parsed : Option (JsonValue ν)}
    (hmap : loadSecretMap atob parsed = some map)
    (hkey : lookupSecret map keyId = some secretBytes) :
    (RoundTrips H map keyId ↔ ReadsBack H map keyId secretBytes) ∧ Binds H map secretBytes :=
  ⟨⟨readsBack_of_roundTrips hkey (lookupSecret_ne_nil hmap hkey), roundTrips_of_readsBack hmap hkey⟩,
    binds⟩

/-- A key id without a comma and without white space at its ends is read back. -/
theorem readsBack_of_plain (hkey : lookupSecret map keyId = some secretBytes)
    (hcomma : unit ',' ∉ keyId) (htrim : trim keyId = keyId) : ReadsBack H map keyId secretBytes := by
  unfold ReadsBack
  rw [keyIdParts_plain hcomma htrim]
  exact ⟨rfl, secretBytes, hkey, fun _ _ _ _ => rfl⟩

end

/-! ## Two key ids -/

/-- A configuration with one secret of 32 bytes. -/
def exampleSecrets (keyId : String) : JsonValue Int :=
  .object [(jsText keyId.toList,
    .string (jsText "a2tra2tra2tra2tra2tra2tra2tra2tra2tra2tra2s=".toList))]

def exampleAtob (s : JsText) : Option Bytes :=
  if s = jsText "a2tra2tra2tra2tra2tra2tra2tra2tra2tra2tra2s=".toList then
    some (List.replicate 32 107)
  else none

/-- The HMAC of one message under that secret, and zeros for every other. -/
def exampleHmac : Hmac where
  sign key message :=
    if key = List.replicate 32 107 ∧ message = utf8 "0.\x7b\x7d".toList then
      [177, 231, 249, 162, 128, 216, 40, 141, 161, 50, 201, 155, 10, 227, 101, 197, 207, 83, 191,
        227, 211, 240, 116, 81, 117, 201, 226, 97, 23, 242, 52, 94]
    else List.replicate 32 0
  length_sign key message := by
    split
    · rfl
    · rfl

/-- A plain key id signs a body that its receiver takes. -/
theorem plain_key_id_verifies :
    ∃ map header, loadSecretMap exampleAtob (some (exampleSecrets "k1")) = some map ∧
      signWebhookBody exampleHmac map (jsText "k1".toList) (jsText "\x7b\x7d".toList) 0 = some header ∧
      verifyWebhookSignature exampleHmac (jsText "\x7b\x7d".toList) header map 0 = true := by
  obtain ⟨map, hmap, hkey⟩ : ∃ map, loadSecretMap exampleAtob (some (exampleSecrets "k1")) = some map ∧
      lookupSecret map (jsText "k1".toList) = some (List.replicate 32 107) :=
    ⟨[(jsText "k1".toList, List.replicate 32 107)], by decide, by decide⟩
  have hread := readsBack_of_plain (H := exampleHmac) hkey (by decide) (by decide)
  obtain ⟨header, hsign, hverify⟩ := (signatures_verify_iff hmap hkey).1.mpr hread
    (jsText "\x7b\x7d".toList) 0 0 WEBHOOK_REPLAY_WINDOW_SECONDS (by norm_num) (by norm_num)
    (by norm_num) (by norm_num)
  exact ⟨map, header, hmap, hsign, hverify.mpr (by decide)⟩

/-- A key id with a comma signs a body that its receiver refuses at the same time. -/
theorem comma_key_id_does_not_verify :
    ∃ map header, loadSecretMap exampleAtob (some (exampleSecrets "k,1")) = some map ∧
      signWebhookBody exampleHmac map (jsText "k,1".toList) (jsText "\x7b\x7d".toList) 0 = some header ∧
      verifyWebhookSignature exampleHmac (jsText "\x7b\x7d".toList) header map 0 = false := by
  refine ⟨[(jsText "k,1".toList, List.replicate 32 107)], _, by decide, rfl, ?_⟩
  decide

end Licensecc.Webhook
