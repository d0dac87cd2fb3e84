-- The codecs of base64, two of the library, one of the device identities and
-- one of the services. A line length never changes what a text decodes to, and
-- no two spellings of one value are accepted by any of them.
import Licensecc.Token.Base64

open Licensecc.Codec Licensecc.Protocol

namespace Licensecc.Token

/-! ## Encoding in lines -/

def add_CR_if_needed (encodeBuffer : Bytes) (lineLenght : Int) : Bytes :=
  if 0 < lineLenght ∧ ((encodeBuffer.length + 1 : Nat) : Int) % lineLenght = 0 then
    encodeBuffer ++ [byte '\n']
  else encodeBuffer

/-- One character of the encoding, after the line end that it may need. -/
def putDigit (lineLenght : Int) (encodeBuffer : Bytes) (digit : UInt8) : Bytes :=
  add_CR_if_needed encodeBuffer lineLenght ++ [digit]

/-- The loop of `base64` over the groups of three bytes, and the group that is left. -/
def base64Loop (lineLenght : Int) (encodeBuffer : Bytes) : Bytes → Bytes
  | [] => encodeBuffer
  | [a] =>
    let encodeBuffer := putDigit lineLenght encodeBuffer (b64 (a.toNat >>> 2))
    let encodeBuffer := putDigit lineLenght encodeBuffer (b64 ((0x3 &&& a.toNat) <<< 4))
    let encodeBuffer := putDigit lineLenght encodeBuffer (byte '=')
    putDigit lineLenght encodeBuffer (byte '=')
  | [a, b] =>
    let encodeBuffer := putDigit lineLenght encodeBuffer (b64 (a.toNat >>> 2))
    let encodeBuffer :=
      putDigit lineLenght encodeBuffer (b64 ((0x3 &&& a.toNat) <<< 4 + b.toNat >>> 4))
    let encodeBuffer := putDigit lineLenght encodeBuffer (b64 ((0x0f &&& b.toNat) <<< 2))
    putDigit lineLenght encodeBuffer (byte '=')
  | a :: b :: c :: rest =>
    let encodeBuffer := putDigit lineLenght encodeBuffer (b64 (a.toNat >>> 2))
    let encodeBuffer :=
      putDigit lineLenght encodeBuffer (b64 ((0x3 &&& a.toNat) <<< 4 + b.toNat >>> 4))
    let encodeBuffer :=
      putDigit lineLenght encodeBuffer (b64 ((0x0f &&& b.toNat) <<< 2 + c.toNat >>> 6))
    let encodeBuffer := putDigit lineLenght encodeBuffer (b64 (0x3f &&& c.toNat))
    base64Loop lineLenght encodeBuffer rest

/-- `base64` of the library, for every `lineLenght`. -/
def base64_lines (binaryData : Bytes) (lineLenght : Int) : Bytes :=
  let encodeBuffer := base64Loop lineLenght [] binaryData
  if lineLenght ≠ 0 ∧ encodeBuffer ≠ [] ∧ encodeBuffer.getLastD 0 ≠ byte '\n' then
    encodeBuffer ++ [byte '\n']
  else encodeBuffer

/-! ## The lines hold the encoding -/

theorem base64Loop_eq (lineLenght : Int) (encodeBuffer bs : Bytes) :
    base64Loop lineLenght encodeBuffer bs = (base64 bs).foldl (putDigit lineLenght) encodeBuffer := by
  induction bs using by_threes generalizing encodeBuffer with
  | nil => rfl
  | one a => rfl
  | two a b => rfl
  | three a b c rest ih =>
    unfold base64Loop base64
    simp only [List.foldl_cons, ih]

theorem add_CR_if_needed_zero (encodeBuffer : Bytes) :
    add_CR_if_needed encodeBuffer 0 = encodeBuffer := by
  simp [add_CR_if_needed]

theorem base64Loop_zero (bs : Bytes) : base64Loop 0 [] bs = base64 bs := by
  have hfold : ∀ cs encodeBuffer : Bytes,
      cs.foldl (putDigit 0) encodeBuffer = encodeBuffer ++ cs := by
    intro cs
    induction cs with
    | nil => simp
    | cons c cs ih =>
      intro encodeBuffer
      simp [ih, putDigit, add_CR_if_needed_zero]
  rw [base64Loop_eq, hfold, List.nil_append]

/-- Without a line length the encoding is one line with no end. -/
theorem base64_lines_zero (bs : Bytes) : base64_lines bs 0 = base64 bs := by
  simp [base64_lines, base64Loop_zero]

theorem remove_line_breaks_append (s t : Bytes) :
    remove_line_breaks (s ++ t) = remove_line_breaks s ++ remove_line_breaks t :=
  List.filter_append ..

theorem remove_line_breaks_newline : remove_line_breaks [byte '\n'] = [] := by
  simp [remove_line_breaks]

theorem remove_line_breaks_put (lineLenght : Int) (encodeBuffer : Bytes) (digit : UInt8) :
    remove_line_breaks (putDigit lineLenght encodeBuffer digit) =
      remove_line_breaks encodeBuffer ++ remove_line_breaks [digit] := by
  unfold putDigit add_CR_if_needed
  rw [remove_line_breaks_append]
  split
  · rw [remove_line_breaks_append, remove_line_breaks_newline, List.append_nil]
  · rfl

theorem remove_line_breaks_loop (lineLenght : Int) (cs encodeBuffer : Bytes) :
    remove_line_breaks (cs.foldl (putDigit lineLenght) encodeBuffer) =
      remove_line_breaks encodeBuffer ++ remove_line_breaks cs := by
  induction cs generalizing encodeBuffer with
  | nil => simp [remove_line_breaks]
  | cons c cs ih =>
    have hcons : remove_line_breaks (c :: cs) = remove_line_breaks [c] ++ remove_line_breaks cs :=
      remove_line_breaks_append [c] cs
    rw [List.foldl_cons, ih, remove_line_breaks_put, hcons, List.append_assoc]

/-- The line ends stand between the characters of the encoding and nowhere else. -/
theorem remove_line_breaks_lines (bs : Bytes) (lineLenght : Int) :
    remove_line_breaks (base64_lines bs lineLenght) = base64 bs := by
  have hloop : remove_line_breaks (base64Loop lineLenght [] bs) = base64 bs := by
    rw [base64Loop_eq, remove_line_breaks_loop, remove_line_breaks_base64]
    rfl
  unfold base64_lines
  dsimp only
  split
  · rw [remove_line_breaks_append, hloop, remove_line_breaks_newline, List.append_nil]
  · exact hloop

theorem unbase64_eq_of_remove {s t : Bytes} (h : remove_line_breaks s = remove_line_breaks t) :
    unbase64 s = unbase64 t := by
  unfold unbase64
  rw [h]

theorem unbase64_lines {bs : Bytes} (h : bs ≠ []) (lineLenght : Int) :
    unbase64 (base64_lines bs lineLenght) = bs := by
  have hremove : remove_line_breaks (base64_lines bs lineLenght) =
      remove_line_breaks (base64 bs) := by
    rw [remove_line_breaks_lines, remove_line_breaks_base64]
  rw [unbase64_eq_of_remove hremove, unbase64_base64 h]

/-! ## One notion of a canonical text -/

theorem base64_eq_encode (bs : Bytes) : base64 bs = encode_canonical_base64 bs := by
  rw [base64_eq, encode_canonical_base64_eq]

theorem base64_ne_nil {bs : Bytes} (h : bs ≠ []) : base64 bs ≠ [] := by
  intro hnil
  have hlen := length_base64 bs
  have hpos := List.length_pos_iff.mpr h
  rw [hnil, List.length_nil] at hlen
  omega

theorem decode_canonical_base64_iff {s bs : Bytes} :
    decode_canonical_base64 s = some bs ↔ bs ≠ [] ∧ s = base64 bs := by
  rw [decode_canonical_base64_ok, ← base64_eq_encode]
  constructor
  · rintro ⟨rfl, hne⟩
    refine ⟨?_, rfl⟩
    rintro rfl
    exact hne rfl
  · rintro ⟨hbs, rfl⟩
    exact ⟨rfl, base64_ne_nil hbs⟩

theorem is_canonical_base64_decodes {s : Bytes} :
    is_canonical_base64 s false = true ↔ decode_canonical_base64 s = some (unbase64 s) := by
  rw [is_canonical_base64_iff, decode_canonical_base64_iff]
  constructor
  · rintro ⟨bs, hbs, rfl⟩
    rw [unbase64_base64 hbs]
    exact ⟨hbs, rfl⟩
  · rintro ⟨hbs, hs⟩
    exact ⟨_, hbs, hs⟩

/-! ## One base64url in two languages -/

theorem utf8_encodeBase64url (bytes : Bytes) :
    utf8 (encodeBase64url bytes) = bytesOf (encodeBase64url bytes) := by
  apply utf8_ascii
  intro c hc
  rw [encodeBase64url_eq] at hc
  exact ascii_of_all (show urlAlphabet.all (fun c => c.toNat < 128) = true by decide) c
    (mem_of_encode64 rfl hc)

theorem decode_base64url_iff {value : List Char} {bytes : Bytes} {maximum_bytes : Nat}
    (hm : maximum_bytes ≤ 8192) :
    decode_base64url (utf8 value) maximum_bytes = some bytes ↔
      decodeBase64url value maximum_bytes = .ok bytes := by
  rw [decode_base64url_ok hm, decodeBase64url_ok, ← utf8_encodeBase64url]
  constructor
  · rintro ⟨henc, hlen⟩
    exact ⟨utf8_injective henc, hlen⟩
  · rintro ⟨rfl, hlen⟩
    exact ⟨rfl, hlen⟩

theorem decode_base64url_spelling {s bytes : Bytes} {maximum_bytes : Nat}
    (hm : maximum_bytes ≤ 8192) (h : decode_base64url s maximum_bytes = some bytes) :
    base64url bytes = s ∧ s = utf8 (encodeBase64url bytes) := by
  obtain ⟨henc, -⟩ := (decode_base64url_ok hm).mp h
  rw [base64url_eq, utf8_encodeBase64url]
  exact ⟨henc, henc.symm⟩

/-! ## The codecs agree -/

/-- The decoders of the library and of the device identities take the encodings
of the library and nothing else, whatever lines an encoding came in. Those of
base64url take the same values in both languages, and give each back. -/
theorem base64_codecs_agree :
    (∀ bs : Bytes, bs ≠ [] → ∀ lineLenght : Int, unbase64 (base64_lines bs lineLenght) = bs) ∧
    (∀ s : Bytes,
      (is_canonical_base64 s false = true ↔ ∃ bs, bs ≠ [] ∧ s = base64_lines bs 0) ∧
      (is_canonical_base64 s false = true ↔ ∃ bs, decode_canonical_base64 s = some bs) ∧
      ∀ bs, bs ≠ [] → s = base64_lines bs 0 →
        unbase64 s = bs ∧ decode_canonical_base64 s = some bs) ∧
    (∀ maximum_bytes : Nat, maximum_bytes ≤ 8192 →
      (∀ (value : List Char) (bytes : Bytes),
        (decode_base64url (utf8 value) maximum_bytes = some bytes ↔
          decodeBase64url value maximum_bytes = .ok bytes) ∧
        (decodeBase64url value maximum_bytes = .ok bytes → encodeBase64url bytes = value)) ∧
      ∀ s bytes : Bytes, decode_base64url s maximum_bytes = some bytes →
        base64url bytes = s ∧ s = utf8 (encodeBase64url bytes)) := by
  refine ⟨fun bs hbs lineLenght => unbase64_lines hbs lineLenght, fun s => ⟨?_, ?_, ?_⟩,
    fun maximum_bytes hm => ⟨fun value bytes => ⟨decode_base64url_iff hm, fun h =>
      (decodeBase64url_ok.mp h).1⟩, fun s bytes h => decode_base64url_spelling hm h⟩⟩
  · simp only [is_canonical_base64_iff, base64_lines_zero]
  · simp only [is_canonical_base64_iff, decode_canonical_base64_iff]
  · intro bs hbs hs
    rw [base64_lines_zero] at hs
    subst hs
    exact ⟨unbase64_base64 hbs, decode_canonical_base64_iff.mpr ⟨hbs, rfl⟩⟩

/-- Two bytes in lines of three characters, and the same bytes in base64url. -/
theorem two_bytes_in_short_lines :
    base64_lines [0xfb, 0xff] 3 = bytesOf "+/\n8=\n".toList ∧
      unbase64 (base64_lines [0xfb, 0xff] 3) = [0xfb, 0xff] ∧
      unbase64 (base64_lines [0xfb, 0xff] 0) = [0xfb, 0xff] ∧
      decode_canonical_base64 (base64_lines [0xfb, 0xff] 0) = some [0xfb, 0xff] ∧
      (decode_base64url (utf8 "-_8".toList) 2 = some [0xfb, 0xff] ↔
        decodeBase64url "-_8".toList 2 = .ok [0xfb, 0xff]) := by
  obtain ⟨hlines, hcanonical, hurl⟩ := base64_codecs_agree
  obtain ⟨hun, hdec⟩ := (hcanonical _).2.2 [0xfb, 0xff] (by decide) rfl
  exact ⟨by decide, hlines _ (by decide) 3, hun, hdec,
    ((hurl 2 (by decide)).1 "-_8".toList [0xfb, 0xff]).1⟩

end Licensecc.Token
