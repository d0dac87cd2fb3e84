-- The two verifiers of config tokens. The Python SDK takes a token exactly when
-- the library takes it, the payload is a text and the key ring is one that the
-- library takes, and both give the same claims.
import Licensecc.Codec.Texts
import Licensecc.Token.Canonical
import Licensecc.Token.Keys

open Licensecc.Codec Licensecc.Protocol

namespace Licensecc.Token

/-! ## base64 -/

theorem ascii_standard : Ascii standardAlphabet := ascii_of_all (by decide)

theorem mem_btoa {bs : Bytes} {c : Char} (h : c ∈ btoa bs) : c = '=' ∨ c ∈ standardAlphabet := by
  unfold btoa at h
  rcases List.mem_append.mp h with h | h
  · exact .inr (mem_of_encode64 rfl h)
  · exact .inl (List.eq_of_mem_replicate h)

theorem ascii_btoa (bs : Bytes) : Ascii (btoa bs) := by
  intro c hc
  rcases mem_btoa hc with rfl | hc
  · decide
  · exact ascii_standard c hc

theorem not_mem_btoa {c : Char} (hpad : c ≠ '=') (hc : c ∉ standardAlphabet) (bs : Bytes) :
    c ∉ btoa bs := by
  intro h
  rcases mem_btoa h with h | h
  · exact hpad h
  · exact hc h

theorem utf8_btoa (bs : Bytes) : utf8 (btoa bs) = base64 bs := by
  rw [utf8_ascii (ascii_btoa bs), base64_eq]

theorem bodyOf_append {body : List Char} (h : '=' ∉ body) {k : Nat} (hk : k ≤ 2) :
    Sdk.bodyOf (body ++ List.replicate k '=') = body := by
  have hlast : ∀ {c}, body.getLast? = some c → c ≠ '=' := by
    rintro c hc rfl
    exact h (List.mem_of_getLast? hc)
  have hhead : ∀ {c t}, body.reverse = c :: t → c ≠ '=' := by
    intro c t hc he
    apply h
    rw [← List.mem_reverse, hc, he]
    exact List.mem_cons_self
  unfold Sdk.bodyOf
  obtain rfl | rfl | rfl : k = 0 ∨ k = 1 ∨ k = 2 := by omega
  · rw [List.replicate_zero, List.append_nil]
    have h2 : body.reverse.take 2 ≠ ['=', '='] := by
      intro h2
      cases hr : body.reverse with
      | nil => simp [hr] at h2
      | cons c t =>
        rw [hr] at h2
        exact hhead hr (List.cons.inj h2).1
    rw [if_neg h2, if_neg (fun h1 => hlast h1 rfl)]
  · have h2 : (body ++ ['=']).reverse.take 2 ≠ ['=', '='] := by
      intro h2
      rw [List.reverse_append] at h2
      cases hr : body.reverse with
      | nil => simp [hr] at h2
      | cons c t =>
        simp only [hr, List.reverse_singleton, List.singleton_append, List.take_succ_cons,
          List.take_zero, List.cons.injEq, true_and, and_true] at h2
        exact hhead hr h2
    rw [List.replicate_one, if_neg h2, if_pos (by simp)]
    simp
  · have h2 : (body ++ ['=', '=']).reverse.take 2 = ['=', '='] := by simp
    rw [show List.replicate 2 '=' = ['=', '='] from rfl, if_pos h2]
    simp

theorem b64decode_btoa (bs : Bytes) : Sdk.b64decode (btoa bs) = some bs := by
  have hpad : '=' ∉ encode64 standardAlphabet bs := fun h =>
    absurd (mem_of_encode64 rfl h) (by decide)
  unfold Sdk.b64decode btoa
  rw [rdropWhile_pad hpad, digits64_encode64 standardAlphabet_nodup rfl, Option.bind_some,
    octets_sextets]

theorem length_btoa (bs : Bytes) : (btoa bs).length = (bs.length + 2) / 3 * 4 := by
  rw [← length_base64, base64_eq, length_bytesOf]

/-- The SDK decodes the canonical texts of some bytes. -/
theorem decode_std_canonical_eq {text : List Char} {bs : Bytes} :
    Sdk.decode_std_canonical text = some bs ↔ bs ≠ [] ∧ text = btoa bs := by
  unfold Sdk.decode_std_canonical
  constructor
  · intro h
    split at h
    · cases h
    rename_i hcanonical
    split at h
    · cases h
    rename_i decoded hdecoded
    split at h
    · cases h
    rename_i hne
    obtain rfl := Option.some.inj h
    refine ⟨hne, ?_⟩
    rw [Bool.not_eq_false] at hcanonical
    unfold Sdk.is_canonical_standard_b64 at hcanonical
    split at hcanonical
    · cases hcanonical
    split at hcanonical
    · cases hcanonical
    simp only [hdecoded, Bool.and_eq_true, decide_eq_true_eq] at hcanonical
    exact hcanonical.2.symm
  · rintro ⟨hne, rfl⟩
    have hpos := List.length_pos_iff.mpr hne
    have hlen := length_btoa bs
    have hnl : '\n' ∉ btoa bs := not_mem_btoa (by decide) (by decide) bs
    have hcr : '\r' ∉ btoa bs := not_mem_btoa (by decide) (by decide) bs
    have hbody : Sdk.bodyOf (btoa bs) = encode64 standardAlphabet bs := by
      unfold btoa
      exact bodyOf_append (fun h => absurd (mem_of_encode64 rfl h) (by decide)) (by omega)
    have hpad : '=' ∉ encode64 standardAlphabet bs := fun h =>
      absurd (mem_of_encode64 rfl h) (by decide)
    have halpha : (encode64 standardAlphabet bs).all standardAlphabet.contains = true := by
      rw [List.all_eq_true]
      intro c hc
      simpa using @mem_of_encode64 standardAlphabet rfl _ _ hc
    have hcanonical : Sdk.is_canonical_standard_b64 (btoa bs) = true := by
      unfold Sdk.is_canonical_standard_b64
      have hne' : btoa bs ≠ [] := by
        intro h0
        rw [h0] at hlen
        simp only [List.length_nil] at hlen
        omega
      rw [if_neg (by simp [hne', hnl, hcr]; omega), hbody, if_neg (by simp [hpad, halpha]),
        b64decode_btoa]
      simp [Sdk.encode_std, hne]
    rw [if_neg (by simp [hcanonical]), b64decode_btoa]
    simp [hne]

/-! ## Envelopes -/

/-- The text of a token. -/
def tokenText (payload signature : Bytes) : List Char :=
  kEnvelopePrefix.toList ++ '.' :: btoa payload ++ '.' :: btoa signature

theorem ascii_tokenText (payload signature : Bytes) : Ascii (tokenText payload signature) := by
  have hprefix : Ascii kEnvelopePrefix.toList := ascii_of_all (by decide)
  unfold tokenText
  intro c hc
  simp only [List.mem_append, List.mem_cons] at hc
  rcases hc with (hc | rfl | hc) | rfl | hc
  · exact hprefix c hc
  · decide
  · exact ascii_btoa payload c hc
  · decide
  · exact ascii_btoa signature c hc

theorem utf8_tokenText (payload signature : Bytes) :
    utf8 (tokenText payload signature) = build_config_envelope payload (base64 signature) := by
  rw [utf8_ascii (ascii_tokenText payload signature)]
  unfold tokenText build_config_envelope build_envelope
  rw [base64_eq, base64_eq]
  simp [bytesOf, byte]

/-- The library splits the envelopes of some payload and some signature. -/
theorem split_envelope_ok {token p64 s64 : Bytes} {noun : String} :
    split_envelope token kEnvelopePrefix noun = .ok (p64, s64) ↔
      ∃ payload signature, payload ≠ [] ∧ signature ≠ [] ∧ p64 = base64 payload ∧
        s64 = base64 signature ∧ token = build_config_envelope payload (base64 signature) := by
  constructor
  · intro h
    unfold split_envelope at h
    split at h
    · cases h
    rename_i head rest hhead
    split at h
    · cases h
    rename_i p64' s64' hrest
    simp only [ite_error_eq_ok, not_or, not_not, Except.ok.injEq, Prod.mk.injEq] at h
    obtain ⟨-, hprefix, ⟨hp, hs⟩, rfl, rfl⟩ := h
    obtain ⟨payload, hpayload, rfl⟩ := is_canonical_base64_iff.mp hp
    obtain ⟨signature, hsignature, rfl⟩ := is_canonical_base64_iff.mp hs
    obtain ⟨-, rfl⟩ := takeLine_eq_some.mp hhead
    obtain ⟨-, rfl⟩ := takeLine_eq_some.mp hrest
    refine ⟨payload, signature, hpayload, hsignature, rfl, rfl, ?_⟩
    unfold build_config_envelope build_envelope
    rw [ hprefix, List.append_assoc, List.cons_append]
  · rintro ⟨payload, signature, hpayload, hsignature, rfl, rfl, rfl⟩
    exact split_build_envelope hpayload hsignature noun

/-- The SDK splits the same envelopes, when the payload is a text. -/
theorem sdk_split_envelope_ok {token : List Char} {e : Sdk.Envelope} :
    Sdk.split_envelope token Sdk.ENVELOPE_PREFIX = .ok e ↔
      e.payload_bytes ≠ [] ∧ e.signature_bytes ≠ [] ∧ utf8 e.payload_text = e.payload_bytes ∧
        token = tokenText e.payload_bytes e.signature_bytes := by
  have hdot : ∀ bs, '.' ∉ btoa bs := not_mem_btoa (by decide) (by decide)
  unfold Sdk.split_envelope
  constructor
  · intro h
    split at h
    · cases h
    rename_i head rest hhead
    split at h
    · cases h
    rename_i p64 s64 hrest
    simp only [ite_error_eq_ok, not_not] at h
    obtain ⟨-, rfl, h⟩ := h
    split at h
    · rename_i payload signature hp hs
      simp only [ite_error_eq_ok, not_or] at h
      obtain ⟨hne, h⟩ := h
      split at h
      · cases h
      rename_i text htext
      obtain rfl := Except.ok.inj h
      obtain ⟨-, rfl⟩ := decode_std_canonical_eq.mp hp
      obtain ⟨-, rfl⟩ := decode_std_canonical_eq.mp hs
      obtain ⟨-, rfl⟩ := takeLine_eq_some.mp hhead
      obtain ⟨-, rfl⟩ := takeLine_eq_some.mp hrest
      refine ⟨hne.1, hne.2, decodeUtf8_eq_some.mp htext, ?_⟩
      unfold tokenText
      rw [List.append_assoc, List.cons_append]
      rfl
    · cases h
  · rintro ⟨hpayload, hsignature, htext, rfl⟩
    have hhead : takeLine '.' (tokenText e.payload_bytes e.signature_bytes) =
        some (kEnvelopePrefix.toList, btoa e.payload_bytes ++ '.' :: btoa e.signature_bytes) := by
      refine takeLine_eq_some.mpr ⟨by decide, ?_⟩
      unfold tokenText
      rw [List.append_assoc, List.cons_append]
    have hrest : takeLine '.' (btoa e.payload_bytes ++ '.' :: btoa e.signature_bytes) =
        some (btoa e.payload_bytes, btoa e.signature_bytes) :=
      takeLine_eq_some.mpr ⟨hdot _, rfl⟩
    simp only [hhead, hrest]
    rw [if_neg (hdot _), if_neg (fun h => h rfl),
      decode_std_canonical_eq.mpr ⟨hpayload, rfl⟩, decode_std_canonical_eq.mpr ⟨hsignature, rfl⟩]
    simp only
    rw [if_neg (by simp [hpayload, hsignature]), decodeUtf8_eq_some.mpr htext]

/-! ## Fields -/

theorem ascii_keyText : ∀ key ∈ payloadFields, Ascii (Sdk.keyText key) := by
  intro key hkey
  refine ascii_of_all ?_
  revert key
  decide

theorem utf8_keyText {key : String} (h : Ascii (Sdk.keyText key)) :
    utf8 (Sdk.keyText key) = keyText key := by
  rw [utf8_ascii h]
  simp [Sdk.keyText, keyText, bytesOf, byte]

theorem extract_utf8 {key : String} (h : Ascii (Sdk.keyText key)) (text : List Char) :
    extract_preverify_field (utf8 text) key =
      (Sdk.extract_preverify_field text key).map utf8 := by
  have hfield : firstField (byte '\n') (keyText key) (utf8 text) =
      (firstField '\n' (Sdk.keyText key) text).map utf8 := by
    rw [← utf8_keyText h]
    exact firstField_utf8 (by decide) h text
  unfold extract_preverify_field Sdk.extract_preverify_field
  rw [hfield]
  cases firstField '\n' (Sdk.keyText key) text with
  | none => rfl
  | some v =>
    simp only [Option.map_some]
    by_cases hv : v = []
    · simp [hv]
    · rw [if_neg hv, if_neg (fun h0 => hv (utf8_eq_nil.mp h0))]
      rfl

theorem parseFields_congr {keys : List String} {spell spell' : String → Bytes}
    (h : ∀ key ∈ keys, spell key = spell' key) (nl : UInt8) (bad : Bytes → Bool) (s : Bytes) :
    parseFields nl spell bad keys s = parseFields nl spell' bad keys s := by
  induction keys generalizing s with
  | nil => rfl
  | cons key keys ih =>
    rw [parseFields, parseFields, h key List.mem_cons_self]
    simp only [ih fun k hk => h k (List.mem_cons_of_mem _ hk)]

/-- Both libraries read the same values. -/
theorem parse_fields_utf8 {text : List Char} {values : List Bytes} {noun : String} :
    parse_fields_in_order (utf8 text) payloadFields noun false = .ok values ↔
      ∃ vs, Sdk.parse_fields_in_order text Sdk.fields false = .ok vs ∧ values = vs.map utf8 := by
  have hbytes : parseFields (byte '\n') keyText (fun _ => false) payloadFields (utf8 text) =
      (parseFields '\n' Sdk.keyText (fun _ => false) payloadFields text).map (·.map utf8) := by
    rw [← parseFields_congr (fun key hkey => utf8_keyText (ascii_keyText key hkey))]
    exact parseFields_utf8 (by decide) ascii_keyText (fun _ => false) text
  unfold parse_fields_in_order Sdk.parse_fields_in_order
  simp only [Bool.false_and]
  rw [hbytes, show Sdk.fields = payloadFields from rfl]
  cases parseFields '\n' Sdk.keyText (fun _ => false) payloadFields text with
  | error e => simp [Except.map, Except.mapError]
  | ok vs => simp [Except.map, Except.mapError, eq_comm]

/-! ## Numbers -/

theorem all_digits_utf8 (s : List Char) :
    (utf8 s).all (inRange '0' '9') = (s.all (fun c => c.toNat < 128) && s.all Char.isDigit) := by
  have hclass := utf8_all (p := fun n => 48 ≤ n && n ≤ 57)
    (by intro n hn; simp at hn; omega) s
  have hbytes : (utf8 s).all (inRange '0' '9') = (utf8 s).all fun b => 48 ≤ b.toNat && b.toNat ≤ 57 :=
    rfl
  have hdigit : ∀ c : Char, c.isDigit = (decide (48 ≤ c.toNat) && decide (c.toNat ≤ 57)) := by
    intro c
    rfl
  rw [hbytes, hclass, Bool.eq_iff_iff, Bool.and_eq_true, List.all_eq_true, List.all_eq_true,
    List.all_eq_true]
  simp only [hdigit, Bool.and_eq_true, decide_eq_true_eq]
  constructor
  · intro h
    exact ⟨fun c hc => Nat.lt_of_le_of_lt (h c hc).2 (by omega), h⟩
  · intro h
    exact h.2

/-- Both libraries read the same numbers from a text that is not too long. -/
theorem parse_uint64_utf8 {s : List Char} (hshort : (utf8 s).length ≤ Sdk.int_max_str_digits)
    {n : UInt64} : parse_uint64 (utf8 s) = some n ↔ Sdk.parse_uint64 s = .ok (some n.toNat) := by
  rw [parse_uint64_eq, all_digits_utf8]
  unfold Sdk.parse_uint64
  by_cases hs : s = []
  · simp [hs]
  by_cases hdigits : (s.all (fun c => c.toNat < 128) && s.all Char.isDigit) = true
  · have hascii : Ascii s := ascii_of_all (Bool.and_eq_true _ _ ▸ hdigits).1
    have hlen : s.length ≤ Sdk.int_max_str_digits := by
      rw [utf8_ascii hascii, length_bytesOf] at hshort
      exact hshort
    have hvalue : decimalValue (utf8 s) = Nat.ofDigitChars 10 s 0 := by
      rw [decimalValue_eq, utf8_ascii hascii, binary_bytesOf hascii]
    have hne : utf8 s ≠ [] := fun h => hs (utf8_eq_nil.mp h)
    have hcond : ¬ (s = [] ∨ ¬ s.all (fun c => c.toNat < 128) = true ∨
        ¬ s.all Char.isDigit = true) := by
      rw [Bool.and_eq_true] at hdigits
      rintro (h | h | h)
      · exact hs h
      · exact h hdigits.1
      · exact h hdigits.2
    rw [if_neg hcond, hvalue]
    unfold Sdk.int
    rw [if_neg (by omega)]
    have hmax := n.toNat_lt
    simp only [bind, Except.bind, pure, Except.pure, Except.ok.injEq, hdigits, hne, ne_eq,
      not_false_eq_true, true_and]
    by_cases hbig : 0xffffffffffffffff < Nat.ofDigitChars 10 s 0
    · rw [if_pos hbig]
      simp only [reduceCtorEq, iff_false]
      omega
    · rw [if_neg hbig, Option.some.injEq]
  · have hcond : s = [] ∨ ¬ s.all (fun c => c.toNat < 128) = true ∨
        ¬ s.all Char.isDigit = true := by
      rw [Bool.and_eq_true, not_and_or] at hdigits
      exact .inr hdigits
    rw [if_pos hcond]
    simp [hdigits]

theorem parse_uint64_small {s : List Char} {n : Nat} (h : Sdk.parse_uint64 s = .ok (some n)) :
    n < 2 ^ 64 := by
  unfold Sdk.parse_uint64 at h
  split at h
  · cases h
  obtain ⟨m, -, h⟩ := bind_eq_ok.mp h
  simp only [pure, Except.pure, Except.ok.injEq] at h
  split at h
  · cases h
  · obtain rfl := Option.some.inj h
    omega

/-! ## Claims -/

/-- The claims as the library has them. -/
def Sdk.ConfigAttestationClaims.native (c : Sdk.ConfigAttestationClaims) :
    Token.ConfigAttestationClaims where
  purpose := utf8 c.purpose
  version := utf8 c.version
  algorithm := utf8 c.algorithm
  key_id := utf8 c.key_id
  project := utf8 c.project
  feature := utf8 c.feature
  license_fingerprint := utf8 c.license_fingerprint
  device_hash := utf8 c.device_hash
  config_id := utf8 c.config_id
  config_seq := UInt64.ofNat c.config_seq
  config_hash := utf8 c.config_hash
  issued_at := UInt64.ofNat c.issued_at
  expires_at := UInt64.ofNat c.expires_at

/-- The numbers of the claims have 64 bits. -/
structure Sdk.ConfigAttestationClaims.Small (c : Sdk.ConfigAttestationClaims) : Prop where
  config_seq : c.config_seq < 2 ^ 64
  issued_at : c.issued_at < 2 ^ 64
  expires_at : c.expires_at < 2 ^ 64

/-- The texts of the numbers of a payload are not longer than the SDK takes. -/
def ShortValues (values : List Bytes) : Prop :=
  ∀ n ∈ [9, 11, 12], (values.getD n []).length ≤ Sdk.int_max_str_digits

theorem eq_list_of_length {α : Type} {l : List α} (h : l.length = 13) :
    ∃ a b c d e f g i j k m n o, l = [a, b, c, d, e, f, g, i, j, k, m, n, o] := by
  match l, h with
  | [a, b, c, d, e, f, g, i, j, k, m, n, o], _ => exact ⟨_, _, _, _, _, _, _, _, _, _, _, _, _, rfl⟩

theorem toNat_ofNat64 {n : Nat} (h : n < 2 ^ 64) : (UInt64.ofNat n).toNat = n := by
  rw [UInt64.toNat_ofNat']
  exact Nat.mod_eq_of_lt h

/-- Both libraries make the same claims of the same values. -/
theorem claims_of_values_utf8 {vs : List (List Char)} (hlen : vs.length = 13)
    (hshort : ShortValues (vs.map utf8)) {c : ConfigAttestationClaims} :
    claimsOfValues (vs.map utf8) = some c ↔
      ∃ claims, Sdk.claimsOfValues vs = .ok (some claims) ∧ claims.Small ∧ claims.native = c := by
  obtain ⟨v1, v2, v3, v4, v5, v6, v7, v8, v9, s, v11, i, e, rfl⟩ := eq_list_of_length hlen
  have hs := @parse_uint64_utf8 s (hshort 9 (by simp))
  have hi := @parse_uint64_utf8 i (hshort 11 (by simp))
  have he := @parse_uint64_utf8 e (hshort 12 (by simp))
  rw [claimsOfValues_eq_some]
  constructor
  · rintro ⟨s', i', e', hvalues, hs', hi', he'⟩
    simp only [List.map_cons, List.map_nil, ConfigAttestationClaims.valuesWith, List.cons.injEq,
      and_true] at hvalues
    obtain ⟨h1, h2, h3, h4, h5, h6, h7, h8, h9, rfl, h11, rfl, rfl⟩ := hvalues
    refine ⟨⟨v1, v2, v3, v4, v5, v6, v7, v8, v9, c.config_seq.toNat, v11, c.issued_at.toNat,
      c.expires_at.toNat⟩, ?_, ⟨c.config_seq.toNat_lt, c.issued_at.toNat_lt, c.expires_at.toNat_lt⟩,
      ?_⟩
    · unfold Sdk.claimsOfValues
      simp only
      rw [hs.mp hs', hi.mp hi', he.mp he']
      rfl
    · simp [Sdk.ConfigAttestationClaims.native, h1, h2, h3, h4, h5, h6, h7, h8, h9, h11]
  · rintro ⟨claims, hclaims, hsmall, rfl⟩
    unfold Sdk.claimsOfValues at hclaims
    obtain ⟨ns, hns, hclaims⟩ := bind_eq_ok.mp hclaims
    obtain ⟨ni, hni, hclaims⟩ := bind_eq_ok.mp hclaims
    obtain ⟨ne, hne, hclaims⟩ := bind_eq_ok.mp hclaims
    split at hclaims
    · obtain rfl := Option.some.inj (Except.ok.inj hclaims)
      refine ⟨utf8 s, utf8 i, utf8 e, rfl, hs.mpr ?_, hi.mpr ?_, he.mpr ?_⟩
      · rw [hns]
        exact congrArg (fun n => Except.ok (some n)) (toNat_ofNat64 hsmall.config_seq).symm
      · rw [hni]
        exact congrArg (fun n => Except.ok (some n)) (toNat_ofNat64 hsmall.issued_at).symm
      · rw [hne]
        exact congrArg (fun n => Except.ok (some n)) (toNat_ofNat64 hsmall.expires_at).symm
    · cases hclaims

theorem small_of_values {vs : List (List Char)} {claims : Sdk.ConfigAttestationClaims}
    (h : Sdk.claimsOfValues vs = .ok (some claims)) : claims.Small := by
  unfold Sdk.claimsOfValues at h
  split at h
  · obtain ⟨ns, hns, h⟩ := bind_eq_ok.mp h
    obtain ⟨ni, hni, h⟩ := bind_eq_ok.mp h
    obtain ⟨ne, hne, h⟩ := bind_eq_ok.mp h
    split at h
    · obtain rfl := Option.some.inj (Except.ok.inj h)
      exact ⟨parse_uint64_small hns, parse_uint64_small hni, parse_uint64_small hne⟩
    · cases h
  · cases h

theorem small_of_parse {text : List Char} {claims : Sdk.ConfigAttestationClaims}
    (h : Sdk.parse_canonical_payload text = .ok claims) : claims.Small := by
  unfold Sdk.parse_canonical_payload at h
  split at h
  · cases h
  obtain ⟨vs, -, h⟩ := bind_eq_ok.mp h
  obtain ⟨made, hmade, h⟩ := bind_eq_ok.mp h
  split at h
  · cases h
  · obtain rfl := Except.ok.inj h
    exact small_of_values hmade

/-- A payload that is a text is parsed to the same claims. -/
theorem parse_canonical_payload_utf8 {text : List Char}
    (hshort : ∀ values, parse_fields_in_order (utf8 text) payloadFields "config token" false =
      .ok values → ShortValues values) {c : ConfigAttestationClaims} :
    parse_canonical_payload (utf8 text) = .ok c ↔
      ∃ claims, Sdk.parse_canonical_payload text = .ok claims ∧ claims.Small ∧
        claims.native = c := by
  have hshape : (utf8 text = [] ∨ (utf8 text).getLast? ≠ some (byte '\n') ∨
      byte '\r' ∈ utf8 text) ↔ (text = [] ∨ text.getLast? ≠ some '\n' ∨ '\r' ∈ text) := by
    rw [utf8_eq_nil]
    refine or_congr_right (or_congr (not_congr ?_) ?_)
    · exact getLast_utf8 (by decide) text
    · exact asciiByte_mem_utf8 (by decide)
  unfold parse_canonical_payload Sdk.parse_canonical_payload
  by_cases h : text = [] ∨ text.getLast? ≠ some '\n' ∨ '\r' ∈ text
  · rw [if_pos h, if_pos (hshape.mpr h)]
    constructor
    · intro hc
      cases hc
    · rintro ⟨_, hc, -⟩
      cases hc
  rw [if_neg h, if_neg (fun hs => h (hshape.mp hs))]
  constructor
  · intro hc
    obtain ⟨values, hvalues, hc⟩ := bind_eq_ok.mp hc
    obtain ⟨vs, hvs, rfl⟩ := parse_fields_utf8.mp hvalues
    have hlen : vs.length = 13 := by
      rw [← List.length_map (f := utf8)]
      exact (parse_fields_ok.mp hvalues).1
    split at hc
    · cases hc
    rename_i c' hclaims
    obtain rfl := Except.ok.inj hc
    obtain ⟨claims, hsdk, hsmall, hnative⟩ :=
      (claims_of_values_utf8 hlen (hshort _ hvalues)).mp hclaims
    refine ⟨claims, ?_, hsmall, hnative⟩
    rw [hvs]
    simp only [bind, Except.bind, hsdk]
    rfl
  · rintro ⟨claims, hc, hsmall, rfl⟩
    obtain ⟨vs, hvs, hc⟩ := bind_eq_ok.mp hc
    obtain ⟨made, hmade, hc⟩ := bind_eq_ok.mp hc
    have hvalues := (@parse_fields_utf8 text _ "config token").mpr ⟨vs, hvs, rfl⟩
    have hlen : vs.length = 13 := by
      rw [← List.length_map (f := utf8)]
      exact (parse_fields_ok.mp hvalues).1
    split at hc
    · cases hc
    rename_i made'
    obtain rfl := Except.ok.inj hc
    rw [hvalues]
    have hclaims := (claims_of_values_utf8 hlen (hshort _ hvalues)).mpr
      ⟨made', hmade, hsmall, rfl⟩
    simp only [bind, Except.bind, hclaims]
    rfl

/-! ## Keys and signatures -/

section
variable (rsaVerify : Bytes → Bytes → Bytes → Bool) {hexdigest : Bytes → List Char}

/-- The same key in both libraries. The library may hold a count of bits beside it. -/
def SameKey (key : Sdk.TrustedPublicKey hexdigest) (public_key : SignaturePublicKey) : Prop :=
  public_key.public_key_der = key.public_key_der ∧ public_key.key_id = utf8 key.key_id

theorem find_sameKey {trusted : List (Sdk.TrustedPublicKey hexdigest)}
    {ring : List SignaturePublicKey} (h : List.Forall₂ SameKey trusted ring) (id : List Char) :
    Option.Rel SameKey (trusted.find? (·.key_id = id)) (ring.find? (·.key_id = utf8 id)) := by
  induction h with
  | nil => exact .none
  | @cons key public_key trusted ring hkey _ ih =>
    rw [List.find?_cons, List.find?_cons]
    by_cases hid : key.key_id = id
    · have hid' : public_key.key_id = utf8 id := hid ▸ hkey.2
      simp only [hid, hid', decide_true]
      exact .some hkey
    · have hid' : ¬ public_key.key_id = utf8 id := by
        rw [hkey.2]
        exact fun h => hid (utf8_injective h)
      simp only [hid, hid', decide_false]
      exact ih

/-- The policy on the keys of the caller. -/
theorem policy_of_trusted {env : Environment} {expected : ConfigAttestationExpected}
    (h : expected.trusted_public_keys ≠ []) : config_signature_policy env expected =
      ⟨kConfigSignatureVersion, [LCC_SIGNATURE_ALGORITHM_RSA_PKCS1_SHA256],
        expected.trusted_public_keys.map (·.key_id), [], expected.trusted_public_keys, false,
        3072⟩ := by
  unfold config_signature_policy
  simp [h]

omit rsaVerify in
/-- A key of a ring that the policy takes has a DER with enough bits. -/
theorem record_of_allowed {policy : SignatureVerificationPolicy}
    (h : signature_public_key_ring_allowed policy = true) {public_key : SignaturePublicKey}
    (hmem : public_key ∈ policy.public_keys) : public_key.public_key_der ≠ [] ∧
      policy.min_public_key_bits ≤ rsa_public_key_bits_from_pkcs1_der public_key.public_key_der := by
  unfold signature_public_key_ring_allowed at h
  simp only [Bool.and_eq_true, List.all_eq_true] at h
  have hrecord := h.2 public_key hmem
  unfold signature_public_key_record_allowed at hrecord
  split at hrecord
  · cases hrecord
  rename_i hne
  rw [not_or] at hne
  split at hrecord
  · cases hrecord
  simp only at hrecord
  split at hrecord
  · cases hrecord
  split at hrecord
  · cases hrecord
  refine ⟨hne.2, ?_⟩
  simp only [Bool.or_eq_true, decide_eq_true_eq] at hrecord
  rcases hrecord with h0 | h0
  · omega
  · exact h0

/-- What the library checks of a signature, when it is given keys. -/
theorem verify_signature_iff {env : Environment} {expected : ConfigAttestationExpected}
    (hring : expected.trusted_public_keys ≠ []) {payload signature algorithm key_id : Bytes}
    (hsignature : signature ≠ []) :
    verify_signature rsaVerify ⟨payload, signature, [], algorithm, key_id,
      kConfigSignatureVersion, config_signature_policy env expected⟩ = true ↔
      signature_public_key_ring_allowed (config_signature_policy env expected) = true ∧
      algorithm = LCC_SIGNATURE_ALGORITHM_RSA_PKCS1_SHA256 ∧
      ∃ public_key, expected.trusted_public_keys.find? (·.key_id = key_id) = some public_key ∧
        rsaVerify public_key.public_key_der payload signature = true := by
  rw [policy_of_trusted hring]
  constructor
  · intro h
    unfold verify_signature at h
    split at h
    · cases h
    rename_i hallowed
    rw [Bool.not_eq_false] at hallowed
    split at h
    · cases h
    rename_i der hder
    unfold signature_request_allowed at hallowed
    simp only at hallowed
    split at hallowed
    · cases hallowed
    split at hallowed
    · cases hallowed
    rename_i hring'
    split at hallowed
    · cases hallowed
    rename_i halgorithm
    simp only [not_or, not_not] at hring' halgorithm
    refine ⟨hring'.2.2.2, halgorithm, ?_⟩
    unfold signature_select_public_key_der at hder
    simp only [ne_eq, not_true_eq_false, if_false] at hder
    split at hder
    · cases hder
    rename_i public_key hfind
    split at hder
    · cases hder
    obtain rfl := Option.some.inj hder
    refine ⟨public_key, hfind, ?_⟩
    unfold verify_signature_bytes at h
    simp only [Bool.and_eq_true] at h
    exact h.2
  · rintro ⟨hallowed, rfl, public_key, hfind, hverify⟩
    have hmem := List.mem_of_find?_eq_some hfind
    have hid : public_key.key_id = key_id := by simpa using List.find?_some hfind
    obtain ⟨hder, hstrong⟩ := record_of_allowed hallowed hmem
    simp only at hstrong
    have hbits : rsa_public_key_bits_from_pkcs1_der public_key.public_key_der ≠ 0 := by
      intro h0
      rw [h0] at hstrong
      cases hstrong
    have hselect : signature_select_public_key_der ⟨payload, signature, [],
        LCC_SIGNATURE_ALGORITHM_RSA_PKCS1_SHA256, key_id, kConfigSignatureVersion,
        ⟨kConfigSignatureVersion, [LCC_SIGNATURE_ALGORITHM_RSA_PKCS1_SHA256],
          expected.trusted_public_keys.map (·.key_id), [], expected.trusted_public_keys, false,
          3072⟩⟩ = some public_key.public_key_der := by
      unfold signature_select_public_key_der
      simp only [ne_eq, not_true_eq_false, if_false, hfind, hder]
    have hcontained : key_id ∈ expected.trusted_public_keys.map (·.key_id) :=
      List.mem_map.mpr ⟨public_key, hmem, hid⟩
    have hrequest : signature_request_allowed ⟨payload, signature, [],
        LCC_SIGNATURE_ALGORITHM_RSA_PKCS1_SHA256, key_id, kConfigSignatureVersion,
        ⟨kConfigSignatureVersion, [LCC_SIGNATURE_ALGORITHM_RSA_PKCS1_SHA256],
          expected.trusted_public_keys.map (·.key_id), [], expected.trusted_public_keys, false,
          3072⟩⟩ = true := by
      have hdistinct : containsDuplicate (expected.trusted_public_keys.map (·.key_id)) = false := by
        unfold signature_public_key_ring_allowed at hallowed
        simp only [Bool.and_eq_true, Bool.not_eq_true'] at hallowed
        exact hallowed.1
      unfold signature_request_allowed
      simp only [hselect]
      rw [if_neg (by simp [hsignature]), if_neg (by simp [containsDuplicate, hdistinct, hallowed]),
        if_neg (by simp), if_neg (by simp), if_neg (by simp), if_neg (by simp [hcontained]),
        if_neg (by simp)]
      have hbelow : ¬ rsa_public_key_bits_from_pkcs1_der public_key.public_key_der < 3072 := by omega
      simp [hbelow]
    unfold verify_signature
    rw [if_neg (by simp [hrequest]), hselect]
    unfold verify_signature_bytes
    simp [hder, is_pkcs1_of_bits hbits, hverify]

/-- What the SDK checks of a signature, when no key is retired. -/
theorem sdk_verify_payload_signature_ok {payload signature : Bytes} {text : List Char}
    {trusted : List (Sdk.TrustedPublicKey hexdigest)} :
    Sdk.verify_payload_signature hexdigest rsaVerify payload text signature trusted
      Sdk.MIN_PUBLIC_KEY_BITS [] = .ok () ↔
      Sdk.extract_preverify_field text "alg" = some Sdk.ALG_RSA_PKCS1_SHA256 ∧
      ∃ key_id key, Sdk.extract_preverify_field text "key-id" = some key_id ∧
        trusted.find? (·.key_id = key_id) = some key ∧
        3072 ≤ Sdk.rsa_public_key_bits key.public_key_der ∧
        rsaVerify key.public_key_der payload signature = true := by
  unfold Sdk.verify_payload_signature
  constructor
  · intro h
    split at h
    · rename_i alg key_id halg hkey
      simp only [ite_error_eq_ok, not_not, List.not_mem_nil, not_false_eq_true, true_and] at h
      obtain ⟨rfl, h⟩ := h
      split at h
      · cases h
      rename_i key hfind
      simp only [ite_error_eq_ok] at h
      obtain ⟨hbits, h⟩ := h
      split at h
      · rename_i hverify
        refine ⟨halg, key_id, key, hkey, hfind, ?_, hverify⟩
        by_contra hlow
        exact hbits ⟨by decide, Nat.lt_of_not_le hlow⟩
      · cases h
    · cases h
  · rintro ⟨halg, key_id, key, hkey, hfind, hbits, hverify⟩
    have hbelow : ¬ (Sdk.MIN_PUBLIC_KEY_BITS ≠ 0 ∧
        Sdk.rsa_public_key_bits key.public_key_der < Sdk.MIN_PUBLIC_KEY_BITS) := by
      rintro ⟨-, hlow⟩
      exact absurd hbits (Nat.not_le_of_lt hlow)
    simp only [halg, hkey, hfind]
    rw [if_neg (by simp), if_neg (by simp), if_neg hbelow, if_pos hverify]

theorem utf8_algorithm : utf8 Sdk.ALG_RSA_PKCS1_SHA256 = LCC_SIGNATURE_ALGORITHM_RSA_PKCS1_SHA256 :=
  utf8_ascii (ascii_of_all (by decide))

/-- Both libraries check the signature of a text under the same key. -/
theorem signature_agrees {env : Environment} {expected : ConfigAttestationExpected}
    {trusted : List (Sdk.TrustedPublicKey hexdigest)}
    (hkeys : List.Forall₂ SameKey trusted expected.trusted_public_keys) (hne : trusted ≠ [])
    {text : List Char} {signature : Bytes} (hsignature : signature ≠ []) :
    (∃ algorithm key_id, extract_preverify_field (utf8 text) "alg" = some algorithm ∧
      extract_preverify_field (utf8 text) "key-id" = some key_id ∧
      verify_signature rsaVerify ⟨utf8 text, signature, [], algorithm, key_id,
        kConfigSignatureVersion, config_signature_policy env expected⟩ = true) ↔
      signature_public_key_ring_allowed (config_signature_policy env expected) = true ∧
      Sdk.verify_payload_signature hexdigest rsaVerify (utf8 text) text signature trusted
        Sdk.MIN_PUBLIC_KEY_BITS [] = .ok () := by
  have hring : expected.trusted_public_keys ≠ [] := by
    intro h0
    rw [h0] at hkeys
    exact hne (List.forall₂_nil_right_iff.mp hkeys)
  have halg := extract_utf8 (ascii_keyText "alg" (by decide)) text
  have hkey := extract_utf8 (ascii_keyText "key-id" (by decide)) text
  rw [sdk_verify_payload_signature_ok, halg, hkey]
  constructor
  · rintro ⟨algorithm, key_id, ha, hk, hverify⟩
    obtain ⟨alg, halg', rfl⟩ := Option.map_eq_some_iff.mp ha
    obtain ⟨id, hid, rfl⟩ := Option.map_eq_some_iff.mp hk
    obtain ⟨hallowed, heq, public_key, hfind, hrsa⟩ :=
      (verify_signature_iff rsaVerify hring hsignature).mp hverify
    have halgorithm : alg = Sdk.ALG_RSA_PKCS1_SHA256 :=
      utf8_injective (heq.trans utf8_algorithm.symm)
    subst halgorithm
    have hrel := find_sameKey hkeys id
    rw [hfind] at hrel
    cases hsdk : trusted.find? (·.key_id = id) with
    | none =>
      rw [hsdk] at hrel
      cases hrel
    | some key =>
      rw [hsdk] at hrel
      cases hrel with
      | some hsame =>
        rw [hsame.1] at hrsa
        have hmem := List.mem_of_find?_eq_some hfind
        have hbits : 3072 ≤ Sdk.rsa_public_key_bits public_key.public_key_der := by
          have hallowed' := hallowed
          rw [policy_of_trusted hring] at hallowed'
          exact Nat.le_trans (record_of_allowed hallowed' hmem).2 (bits_of_native _)
        rw [hsame.1] at hbits
        exact ⟨hallowed, halg', id, key, hid, hsdk, hbits, hrsa⟩
  · rintro ⟨hallowed, halg', id, key, hid, hsdk, -, hrsa⟩
    have hrel := find_sameKey hkeys id
    rw [hsdk] at hrel
    cases hfind : expected.trusted_public_keys.find? (·.key_id = utf8 id) with
    | none =>
      rw [hfind] at hrel
      cases hrel
    | some public_key =>
      rw [hfind] at hrel
      cases hrel with
      | some hsame =>
        refine ⟨_, _, by rw [halg']; rfl, by rw [hid]; rfl, ?_⟩
        refine (verify_signature_iff rsaVerify hring hsignature).mpr
          ⟨hallowed, utf8_algorithm, public_key, hfind, ?_⟩
        rw [hsame.1]
        exact hrsa

/-! ## Claims -/

/-- The same expectations, at the same time. -/
structure SameExpected (env : Environment) (clock : Nat) (expected : ConfigAttestationExpected)
    (sdk : Sdk.ConfigAttestationExpected) : Prop where
  project : expected.project = utf8 sdk.project
  feature : expected.feature = utf8 sdk.feature
  license_fingerprint : expected.license_fingerprint = utf8 sdk.license_fingerprint
  device_hash : expected.device_hash = utf8 sdk.device_hash
  config_bytes : expected.config_bytes = sdk.config_bytes
  min_config_seq : (expected.min_config_seq.toNat : Int) = sdk.min_config_seq
  now : ((effectiveNow env expected).toNat : Int) = sdk.now.getD clock

theorem claims_agree {env : Environment} {clock : Nat} {expected : ConfigAttestationExpected}
    {sdk : Sdk.ConfigAttestationExpected} (hexpected : SameExpected env clock expected sdk)
    (hhash : ∀ bs, utf8 (hexdigest bs) = signature_sha256_hex bs)
    (hnow : (effectiveNow env expected).toNat + 300 < 2 ^ 64)
    {claims : Sdk.ConfigAttestationClaims} (hsmall : claims.Small) :
    Sdk.validate_claims hexdigest clock claims sdk = .ok () ↔
      validate_claims env claims.native expected = .ok () := by
  have htext : ∀ (s : List Char) (t : String), Ascii t.toList →
      (utf8 s = bytesOf t.toList ↔ s = t.toList) := by
    intro s t ht
    rw [← utf8_ascii ht]
    exact ⟨fun h => utf8_injective h, fun h => congrArg utf8 h⟩
  have hutf8 : ∀ s t : List Char, utf8 s = utf8 t ↔ s = t := fun s t =>
    ⟨fun h => utf8_injective h, fun h => congrArg utf8 h⟩
  have hsha : utf8 ("sha256:".toList ++ hexdigest sdk.config_bytes) =
      bytesOf "sha256:".toList ++ signature_sha256_hex expected.config_bytes := by
    rw [utf8_append, utf8_ascii (ascii_of_all (by decide)), hhash, hexpected.config_bytes]
  have hskew : (effectiveNow env expected + kIssuedAtFutureSkewSeconds).toNat =
      (effectiveNow env expected).toNat + 300 := by
    rw [UInt64.toNat_add]
    exact Nat.mod_eq_of_lt hnow
  have h1 := toNat_ofNat64 hsmall.config_seq
  have h2 := toNat_ofNat64 hsmall.issued_at
  have h3 := toNat_ofNat64 hsmall.expires_at
  have htime := hexpected.now
  have hmin := hexpected.min_config_seq
  rw [validate_claims_ok]
  unfold Sdk.validate_claims
  simp only [ite_error_eq_ok, not_or, not_not, ne_eq, and_true]
  simp only [Sdk.ConfigAttestationClaims.native, hexpected.project, hexpected.feature,
    hexpected.license_fingerprint, hexpected.device_hash, ← hsha, hutf8, UInt64.le_iff_toNat_le,
    ← UInt64.toNat_inj, hskew, h1, h2, h3]
  have hpurpose := htext claims.purpose "licensecc-config-attestation" (ascii_of_all (by decide))
  have hversion := htext claims.version "1" (ascii_of_all (by decide))
  have halgorithm := htext claims.algorithm "rsa-pkcs1-sha256" (ascii_of_all (by decide))
  have hzero : (0 : UInt64).toNat = 0 := rfl
  unfold kPurpose kVersion LCC_SIGNATURE_ALGORITHM_RSA_PKCS1_SHA256
  rw [hpurpose, hversion, halgorithm, hzero]
  unfold Sdk.PURPOSE Sdk.VERSION Sdk.ALG_RSA_PKCS1_SHA256 Sdk.ISSUED_AT_FUTURE_SKEW_SECONDS
  rw [← htime, ← hmin]
  constructor
  · rintro ⟨hmeta, hbinding, hash, h4, h5, h6, h7⟩
    exact ⟨hmeta, hbinding, hash, by omega, h5, by omega, by omega, by omega⟩
  · rintro ⟨hmeta, hbinding, hash, h4, h5, h6, h7, h8⟩
    exact ⟨hmeta, hbinding, hash, by omega, h5, ⟨by omega, by omega⟩, by omega⟩

/-! ## Both verifiers -/

/-- The payload of a token, when it has one, is a text in UTF-8. -/
def PayloadIsText (token : Bytes) : Prop :=
  ∀ p64 s64, split_envelope token kEnvelopePrefix "config token" = .ok (p64, s64) →
    ∃ text, utf8 text = unbase64 p64

/-- No number of the payload of a token is longer than the SDK takes. -/
def ShortNumbers (token : Bytes) : Prop :=
  ∀ p64 s64 values, split_envelope token kEnvelopePrefix "config token" = .ok (p64, s64) →
    parse_fields_in_order (unbase64 p64) payloadFields "config token" false = .ok values →
      ShortValues values

/-- The SDK takes the text of a token exactly when the library takes the token and its
key ring. -/
theorem verifier_agrees (hhash : ∀ bs, utf8 (hexdigest bs) = signature_sha256_hex bs)
    {env : Environment} {clock : Nat} {expected : ConfigAttestationExpected}
    {sdk : Sdk.ConfigAttestationExpected} {trusted : List (Sdk.TrustedPublicKey hexdigest)}
    (hkeys : List.Forall₂ SameKey trusted expected.trusted_public_keys) (hne : trusted ≠ [])
    (hexpected : SameExpected env clock expected sdk)
    (hnow : (effectiveNow env expected).toNat + 300 < 2 ^ 64) {token : Bytes}
    (hshort : ShortNumbers token) {c : ConfigAttestationClaims} :
    verify_config_envelope rsaVerify env token expected = .ok c ∧ PayloadIsText token ↔
      signature_public_key_ring_allowed (config_signature_policy env expected) = true ∧
      ∃ text claims, utf8 text = token ∧
        Sdk.verify_config_token hexdigest rsaVerify clock text sdk trusted [] = .ok claims ∧
        claims.native = c := by
  constructor
  · rintro ⟨hverify, htext⟩
    obtain ⟨payload, signature, haccepted⟩ := (verify_config_envelope_ok rsaVerify).mp hverify
    obtain ⟨p64, s64, hsplit, hp, hs⟩ := haccepted.parts
    obtain ⟨text, htext'⟩ := htext p64 s64 hsplit
    obtain ⟨payload', signature', hne₁, hne₂, rfl, rfl, rfl⟩ := split_envelope_ok.mp hsplit
    rw [unbase64_base64 hne₁] at hp htext'
    rw [unbase64_base64 hne₂] at hs
    subst hp hs htext'
    have hshort' : ∀ values, parse_fields_in_order (utf8 text) payloadFields "config token" false =
        .ok values → ShortValues values := by
      intro values hvalues
      refine hshort _ _ values hsplit ?_
      rw [unbase64_base64 hne₁]
      exact hvalues
    obtain ⟨hallowed, hsignature⟩ :=
      (signature_agrees rsaVerify hkeys hne hne₂).mp haccepted.metadata
    obtain ⟨claims, hparse, hsmall, rfl⟩ :=
      (parse_canonical_payload_utf8 hshort').mp haccepted.parsed
    have hvalid := (claims_agree hexpected hhash hnow hsmall).mpr haccepted.valid
    refine ⟨hallowed, tokenText (utf8 text) signature, claims, utf8_tokenText _ _, ?_, rfl⟩
    have hsdk : Sdk.split_envelope (tokenText (utf8 text) signature) Sdk.ENVELOPE_PREFIX =
        .ok ⟨utf8 text, signature, text⟩ :=
      sdk_split_envelope_ok.mpr ⟨hne₁, hne₂, rfl, rfl⟩
    unfold Sdk.verify_config_token
    rw [hsdk]
    simp only [bind, Except.bind, hsignature, hparse, hvalid]
    rfl
  · rintro ⟨hallowed, token', claims, rfl, hverify, rfl⟩
    unfold Sdk.verify_config_token at hverify
    obtain ⟨⟨payload, signature, text⟩, hsplit, hverify⟩ := bind_eq_ok.mp hverify
    obtain ⟨hsignature, hverify⟩ := unit_bind_eq_ok.mp hverify
    obtain ⟨claims', hparse, hverify⟩ := bind_eq_ok.mp hverify
    obtain ⟨hvalid, hverify⟩ := unit_bind_eq_ok.mp hverify
    obtain rfl := Except.ok.inj hverify
    obtain ⟨hne₁, hne₂, htext, rfl⟩ := sdk_split_envelope_ok.mp hsplit
    simp only at hne₁ hne₂ htext hsignature hparse
    subst htext
    rw [utf8_tokenText] at hshort ⊢
    have hnative := split_build_envelope hne₁ hne₂ "config token"
    have hshort' : ∀ values, parse_fields_in_order (utf8 text) payloadFields "config token" false =
        .ok values → ShortValues values := by
      intro values hvalues
      refine hshort _ _ values hnative ?_
      rw [unbase64_base64 hne₁]
      exact hvalues
    have hsmall := small_of_parse hparse
    have hmetadata := (signature_agrees rsaVerify hkeys hne hne₂).mpr ⟨hallowed, hsignature⟩
    refine ⟨(verify_config_envelope_ok rsaVerify).mpr ⟨utf8 text, signature, ⟨_, _, hnative,
      (unbase64_base64 hne₁).symm, (unbase64_base64 hne₂).symm⟩, hne₁, hne₂, hmetadata,
      (parse_canonical_payload_utf8 hshort').mpr ⟨claims', hparse, hsmall, rfl⟩,
      (claims_agree hexpected hhash hnow hsmall).mp hvalid⟩, ?_⟩
    intro p64 s64 h
    rw [hnative] at h
    obtain ⟨rfl, rfl⟩ := Prod.mk.inj (Except.ok.inj h)
    exact ⟨text, (unbase64_base64 hne₁).symm⟩

/-- What the SDK has verified of a token that it takes. -/
theorem sdk_verify_ok {clock : Nat} {token : List Char} {sdk : Sdk.ConfigAttestationExpected}
    {trusted : List (Sdk.TrustedPublicKey hexdigest)} {claims : Sdk.ConfigAttestationClaims}
    (h : Sdk.verify_config_token hexdigest rsaVerify clock token sdk trusted [] = .ok claims) :
    ∃ e, Sdk.split_envelope token Sdk.ENVELOPE_PREFIX = .ok e ∧
      Sdk.verify_payload_signature hexdigest rsaVerify e.payload_bytes e.payload_text
        e.signature_bytes trusted Sdk.MIN_PUBLIC_KEY_BITS [] = .ok () ∧
      Sdk.parse_canonical_payload e.payload_text = .ok claims ∧
      Sdk.validate_claims hexdigest clock claims sdk = .ok () := by
  unfold Sdk.verify_config_token at h
  obtain ⟨e, hsplit, h⟩ := bind_eq_ok.mp h
  obtain ⟨hsignature, h⟩ := unit_bind_eq_ok.mp h
  obtain ⟨claims', hparse, h⟩ := bind_eq_ok.mp h
  obtain ⟨hvalid, h⟩ := unit_bind_eq_ok.mp h
  obtain rfl := Except.ok.inj h
  exact ⟨e, hsplit, hsignature, hparse, hvalid⟩

end

/-- The two verifiers agree on the tokens whose payload is a text, under a key ring of
the caller that the library takes. -/
theorem config_verifiers_agree (rsaVerify : Bytes → Bytes → Bytes → Bool)
    (hexdigest : Bytes → List Char) (hhash : ∀ bs, utf8 (hexdigest bs) = signature_sha256_hex bs)
    (env : Environment) (clock : Nat) (expected : ConfigAttestationExpected)
    (sdk : Sdk.ConfigAttestationExpected) (trusted : List (Sdk.TrustedPublicKey hexdigest))
    (hkeys : List.Forall₂ SameKey trusted expected.trusted_public_keys) (hne : trusted ≠ [])
    (hexpected : SameExpected env clock expected sdk)
    (hnow : (effectiveNow env expected).toNat + 300 < 2 ^ 64) (token : Bytes)
    (hshort : ShortNumbers token) :
    (∀ c, verify_config_envelope rsaVerify env token expected = .ok c ∧ PayloadIsText token ↔
      signature_public_key_ring_allowed (config_signature_policy env expected) = true ∧
      ∃ text claims, utf8 text = token ∧
        Sdk.verify_config_token hexdigest rsaVerify clock text sdk trusted [] = .ok claims ∧
        claims.native = c) ∧
    ∀ text claims, Sdk.verify_config_token hexdigest rsaVerify clock text sdk trusted [] =
      .ok claims → claims.Small := by
  refine ⟨fun c => verifier_agrees rsaVerify hhash hkeys hne hexpected hnow hshort, ?_⟩
  intro text claims h
  obtain ⟨e, -, -, hparse, -⟩ := sdk_verify_ok rsaVerify h
  exact small_of_parse hparse

/-- `hashlib.sha256(data).hexdigest()` -/
def goldenHexdigest (data : Bytes) : List Char := binary (signature_sha256_hex data)

theorem hexDigit_lt {n : Nat} (h : n < 16) : (hexDigit n).toNat < 128 := by
  unfold hexDigit
  rw [UInt8.toNat_ofNat']
  by_cases h10 : n < 10
  · rw [if_pos h10]
    omega
  · rw [if_neg h10]
    omega

theorem utf8_goldenHexdigest (bs : Bytes) : utf8 (goldenHexdigest bs) = signature_sha256_hex bs := by
  refine utf8_binary ?_
  intro b hb
  unfold signature_sha256_hex at hb
  obtain ⟨word, -, hword⟩ := List.mem_flatMap.mp hb
  unfold hexWord at hword
  obtain ⟨c, -, hc⟩ := List.mem_flatMap.mp hword
  have hlt := c.toNat_lt
  have hhigh : c.toNat >>> 4 < 16 := by
    rw [Nat.shiftRight_eq_div_pow]
    omega
  have hlow : c.toNat &&& 0xf < 16 := Nat.lt_of_le_of_lt Nat.and_le_right (by omega)
  simp only [List.mem_cons, List.not_mem_nil, or_false] at hc
  rcases hc with rfl | rfl
  · exact hexDigit_lt hhigh
  · exact hexDigit_lt hlow

def goldenKey : Sdk.TrustedPublicKey goldenHexdigest := ⟨goldenKeyDer, _, rfl⟩

def goldenSdkExpected : Sdk.ConfigAttestationExpected where
  config_bytes := goldenConfig
  project := "DEFAULT".toList
  feature := "EXPORT".toList
  license_fingerprint := List.replicate 64 'a'
  device_hash := []
  min_config_seq := 0
  now := some 1500

set_option maxRecDepth 10000 in
theorem golden_key_same : SameKey goldenKey ⟨goldenClaims.key_id, goldenKeyDer, 3072⟩ := by
  refine ⟨rfl, ?_⟩
  have hutf8 : utf8 goldenKey.key_id = public_key_id_from_der goldenKeyDer := by
    show utf8 ("sha256:".toList ++ goldenHexdigest goldenKeyDer) = _
    rw [utf8_append, utf8_goldenHexdigest, utf8_ascii (ascii_of_all (by decide))]
    rfl
  rw [hutf8]
  decide

theorem golden_expected_same :
    SameExpected bareEnvironment 1500 goldenExpected goldenSdkExpected := by
  refine ⟨?_, ?_, ?_, rfl, rfl, rfl, rfl⟩ <;> decide

/-- A value is no longer than its payload. -/
theorem length_le_payloadText {values : List Bytes} (hlen : values.length = payloadFields.length)
    (n : Nat) : (values.getD n []).length ≤ (payloadText values).length := by
  by_cases hn : n < values.length
  · have hk : n < payloadFields.length := hlen ▸ hn
    have hline : keyText payloadFields[n] ++ values[n] ∈ fieldLines keyText payloadFields values := by
      refine List.mem_iff_getElem.mpr ⟨n, ?_, ?_⟩
      · unfold fieldLines
        rw [List.length_zipWith]
        omega
      · simp [fieldLines]
    have hsub := (List.sublist_flatten_of_mem
      (List.mem_map_of_mem (f := fun l => l ++ [byte '\n']) hline)).length_le
    unfold payloadText unlines
    rw [List.flatMap_def]
    rw [List.getD_eq_getElem _ _ hn]
    simp only [List.length_append] at hsub
    omega
  · rw [List.getD_eq_default _ _ (by omega)]
    exact Nat.zero_le _

/-- A token with a short payload has short numbers. -/
theorem shortNumbers_of_payload {payload signature : Bytes} (hpayload : payload ≠ [])
    (hsignature : signature ≠ []) (hshort : payload.length ≤ Sdk.int_max_str_digits) :
    ShortNumbers (build_config_envelope payload (base64 signature)) := by
  intro p64 s64 values hsplit hvalues n hn
  rw [split_build_envelope hpayload hsignature] at hsplit
  obtain ⟨rfl, rfl⟩ := Prod.mk.inj (Except.ok.inj hsplit)
  rw [unbase64_base64 hpayload] at hvalues
  obtain ⟨hlen, -, rfl⟩ := parse_fields_ok.mp hvalues
  exact Nat.le_trans (length_le_payloadText hlen n) hshort

set_option maxRecDepth 10000 in
theorem golden_payload : build_canonical_config_payload goldenClaims ≠ [] ∧
    (build_canonical_config_payload goldenClaims).length ≤ Sdk.int_max_str_digits := by
  decide

theorem golden_verifiers_agree :
    (∀ c, verify_config_envelope (fun _ _ _ => true) bareEnvironment goldenToken goldenExpected =
        .ok c ∧ PayloadIsText goldenToken ↔
      signature_public_key_ring_allowed (config_signature_policy bareEnvironment goldenExpected) =
        true ∧
      ∃ text claims, utf8 text = goldenToken ∧
        Sdk.verify_config_token goldenHexdigest (fun _ _ _ => true) 1500 text goldenSdkExpected
          [goldenKey] [] = .ok claims ∧ claims.native = c) ∧
    ∀ text claims, Sdk.verify_config_token goldenHexdigest (fun _ _ _ => true) 1500 text
      goldenSdkExpected [goldenKey] [] = .ok claims → claims.Small := by
  refine config_verifiers_agree (fun _ _ _ => true) goldenHexdigest utf8_goldenHexdigest
    bareEnvironment 1500 goldenExpected goldenSdkExpected [goldenKey]
    (.cons golden_key_same .nil) (by simp) golden_expected_same (by decide) goldenToken ?_
  exact shortNumbers_of_payload golden_payload.1 (by decide) golden_payload.2

/-- Claims with a config id that is no text. -/
def rawClaims : ConfigAttestationClaims := { goldenClaims with config_id := [0xff] }

def rawToken : Bytes :=
  build_config_envelope (build_canonical_config_payload rawClaims) (base64 goldenSignature)

theorem raw_token_verifies : verify_config_envelope (fun _ _ _ => true) bareEnvironment
    rawToken goldenExpected = .ok rawClaims := by
  refine verify_build _ ?_ ?_ ?_ ?_ ?_ ?_ <;> decide +kernel

theorem raw_payload : build_canonical_config_payload rawClaims ≠ [] ∧
    decodeUtf8 (build_canonical_config_payload rawClaims) = none := by
  refine ⟨by decide, Option.eq_none_iff_forall_ne_some.mpr fun s hs => ?_⟩
  have hraw : 0xff ∈ utf8 s := by
    rw [decodeUtf8_eq_some.mp hs]
    decide
  exact absurd (utf8_lt hraw) (by decide)

/-- The library takes a token whose payload is no text, and the SDK takes none of them. -/
theorem raw_token_is_taken_by_one_verifier :
    (∃ c, verify_config_envelope (fun _ _ _ => true) bareEnvironment rawToken goldenExpected =
      .ok c) ∧
    ¬ ∃ text claims, utf8 text = rawToken ∧
      Sdk.verify_config_token goldenHexdigest (fun _ _ _ => true) 1500 text goldenSdkExpected
        [goldenKey] [] = .ok claims := by
  refine ⟨⟨_, raw_token_verifies⟩, ?_⟩
  rintro ⟨text, claims, htoken, hverify⟩
  obtain ⟨e, hsplit, -⟩ := sdk_verify_ok _ hverify
  obtain ⟨hne₁, hne₂, htext, rfl⟩ := sdk_split_envelope_ok.mp hsplit
  rw [utf8_tokenText] at htoken
  have h1 := split_build_envelope hne₁ hne₂ "config token"
  have h2 := split_build_envelope raw_payload.1 (show goldenSignature ≠ [] by decide) "config token"
  rw [htoken, show rawToken = build_config_envelope (build_canonical_config_payload rawClaims)
    (base64 goldenSignature) from rfl, h2] at h1
  obtain ⟨hpayload, -⟩ := Prod.mk.inj (Except.ok.inj h1)
  have heq := congrArg unbase64 hpayload
  rw [unbase64_base64 raw_payload.1, unbase64_base64 hne₁] at heq
  have hdecode := raw_payload.2
  rw [heq, ← htext, decodeUtf8_utf8] at hdecode
  cases hdecode

end Licensecc.Token
