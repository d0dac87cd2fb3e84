-- The canonical form of a config token. What the builder writes is parsed to
-- the same claims. What the parser takes is built again from its claims when no
-- value has an equals sign and no number starts with a zero it can lose. The
-- algorithm and the key that are read before the payload is parsed are those
-- of its claims.
import Licensecc.Token.ConfigAttestation

open Licensecc.Codec Licensecc.Protocol

namespace Licensecc.Token

/-! ## The values of some claims -/

/-- The numeral of a number in a claim line. -/
def uintText (n : UInt64) : Bytes := bytesOf (Nat.toDigits 10 n.toNat)

/-- The values of the lines of some claims, with the texts of their numbers. -/
def ConfigAttestationClaims.valuesWith (c : ConfigAttestationClaims)
    (config_seq issued_at expires_at : Bytes) : List Bytes :=
  [c.purpose, c.version, c.algorithm, c.key_id, c.project, c.feature, c.license_fingerprint,
    c.device_hash, c.config_id, config_seq, c.config_hash, issued_at, expires_at]

def ConfigAttestationClaims.values (c : ConfigAttestationClaims) : List Bytes :=
  c.valuesWith (uintText c.config_seq) (uintText c.issued_at) (uintText c.expires_at)

def payloadText (values : List Bytes) : Bytes :=
  unlines (byte '\n') (fieldLines keyText payloadFields values)

theorem claimsOfValues_eq_some {values : List Bytes} {c : ConfigAttestationClaims} :
    claimsOfValues values = some c ↔ ∃ s i e, values = c.valuesWith s i e ∧
      parse_uint64 s = some c.config_seq ∧ parse_uint64 i = some c.issued_at ∧
      parse_uint64 e = some c.expires_at := by
  constructor
  · intro h
    unfold claimsOfValues at h
    split at h
    · simp only [bind, Option.bind_eq_some_iff, pure, Option.some.injEq] at h
      obtain ⟨s, hs, i, hi, e, he, rfl⟩ := h
      exact ⟨_, _, _, rfl, hs, hi, he⟩
    · cases h
  · rintro ⟨s, i, e, rfl, hs, hi, he⟩
    unfold ConfigAttestationClaims.valuesWith claimsOfValues
    simp only [hs, hi, he]
    rfl

theorem length_valuesWith (c : ConfigAttestationClaims) (s i e : Bytes) :
    (c.valuesWith s i e).length = payloadFields.length := rfl

theorem newline_not_mem_keys : ∀ key ∈ payloadFields, byte '\n' ∉ keyText key := by decide

theorem return_not_mem_keys : ∀ key ∈ payloadFields, byte '\r' ∉ keyText key := by decide

/-! ## What is parsed -/

theorem parse_fields_ok {payload : Bytes} {values : List Bytes} {noun : String} :
    parse_fields_in_order payload payloadFields noun false = .ok values ↔
      values.length = payloadFields.length ∧ (∀ v ∈ values, byte '\n' ∉ v) ∧
        payload = payloadText values := by
  unfold parse_fields_in_order
  have hmap : ∀ r : Except (FieldError String) (List Bytes),
      r.mapError (fieldMessage noun) = .ok values ↔ r = .ok values := by
    intro r
    cases r with
    | error e => simp [Except.mapError]
    | ok vs => simp [Except.mapError]
  rw [hmap, parseFields_ok newline_not_mem_keys]
  simp only [Bool.false_and, and_true]
  rfl

theorem mem_fieldLines {keys : List String} {values : List Bytes} {l : Bytes}
    (h : l ∈ fieldLines keyText keys values) :
    ∃ key ∈ keys, ∃ v ∈ values, l = keyText key ++ v := by
  obtain ⟨n, hn, rfl⟩ := List.mem_iff_getElem.mp h
  have hn' := hn
  unfold fieldLines at hn'
  rw [List.length_zipWith] at hn'
  have hk : n < keys.length := by omega
  have hv : n < values.length := by omega
  refine ⟨keys[n], List.getElem_mem hk, values[n], List.getElem_mem hv, ?_⟩
  simp [fieldLines]

theorem return_mem_payloadText {values : List Bytes} (hlen : values.length = payloadFields.length) :
    byte '\r' ∈ payloadText values ↔ ∃ v ∈ values, byte '\r' ∈ v := by
  have hne : byte '\r' ≠ byte '\n' := by decide
  unfold payloadText unlines
  simp only [List.mem_flatMap, List.mem_append, List.mem_singleton, hne, or_false]
  constructor
  · rintro ⟨l, hl, hr⟩
    obtain ⟨key, hkey, v, hv, rfl⟩ := mem_fieldLines hl
    rcases List.mem_append.mp hr with hr | hr
    · exact absurd hr (return_not_mem_keys key hkey)
    · exact ⟨v, hv, hr⟩
  · rintro ⟨v, hv, hr⟩
    obtain ⟨n, hn, rfl⟩ := List.mem_iff_getElem.mp hv
    have hk : n < payloadFields.length := hlen ▸ hn
    refine ⟨keyText payloadFields[n] ++ values[n], ?_, List.mem_append_right _ hr⟩
    refine List.mem_iff_getElem.mpr ⟨n, ?_, ?_⟩
    · unfold fieldLines
      rw [List.length_zipWith]
      omega
    · simp [fieldLines]

theorem payloadText_getLast {values : List Bytes} (hlen : values.length = payloadFields.length) :
    payloadText values ≠ [] ∧ (payloadText values).getLast? = some (byte '\n') := by
  have hne : fieldLines keyText payloadFields values ≠ [] := by
    intro h
    have := congrArg List.length h
    unfold fieldLines at this
    rw [List.length_zipWith, hlen, Nat.min_self] at this
    cases this
  have hend := @intercalate_end _ (byte '\n') _ hne
  unfold payloadText
  rw [← hend]
  simp

/-- A payload is parsed exactly when it is the lines of some values whose numbers
are parsed. -/
theorem parse_canonical_payload_ok {payload : Bytes} {c : ConfigAttestationClaims} :
    parse_canonical_payload payload = .ok c ↔ ∃ s i e,
      (∀ v ∈ c.valuesWith s i e, byte '\n' ∉ v ∧ byte '\r' ∉ v) ∧
      payload = payloadText (c.valuesWith s i e) ∧ parse_uint64 s = some c.config_seq ∧
      parse_uint64 i = some c.issued_at ∧ parse_uint64 e = some c.expires_at := by
  unfold parse_canonical_payload
  constructor
  · intro h
    split at h
    · cases h
    rename_i hshape
    cases hfields : parse_fields_in_order payload payloadFields "config token" false with
    | error e =>
      rw [hfields] at h
      cases h
    | ok values =>
      rw [hfields] at h
      obtain ⟨hlen, hnl, rfl⟩ := parse_fields_ok.mp hfields
      cases hclaims : claimsOfValues values with
      | none =>
        simp only [hclaims, bind, Except.bind] at h
        cases h
      | some c' =>
        simp only [hclaims, bind, Except.bind] at h
        obtain rfl := Except.ok.inj h
        obtain ⟨s, i, e, rfl, hs, hi, he⟩ := claimsOfValues_eq_some.mp hclaims
        refine ⟨s, i, e, fun v hv => ⟨hnl v hv, fun hr => hshape (.inr (.inr ?_))⟩, rfl, hs, hi, he⟩
        exact (return_mem_payloadText hlen).mpr ⟨v, hv, hr⟩
  · rintro ⟨s, i, e, hv, rfl, hs, hi, he⟩
    have hlen := length_valuesWith c s i e
    obtain ⟨hne, hlast⟩ := payloadText_getLast hlen
    have hreturn : byte '\r' ∉ payloadText (c.valuesWith s i e) := by
      rw [return_mem_payloadText hlen]
      rintro ⟨v, hmem, hr⟩
      exact (hv v hmem).2 hr
    rw [if_neg (by simp [hne, hlast, hreturn]),
      parse_fields_ok.mpr ⟨hlen, fun v hmem => (hv v hmem).1, rfl⟩]
    simp only [bind, Except.bind, claimsOfValues_eq_some.mpr ⟨s, i, e, rfl, hs, hi, he⟩]
    rfl

/-! ## What is built -/

theorem uintText_plain (n : UInt64) : value_has_line_breaks_or_equals (uintText n) = false := by
  have hdigits := List.all_eq_true.mp (inRange_toDigits n.toNat)
  have hnot : ∀ c : UInt8, inRange '0' '9' c = false → c ∉ uintText n := by
    intro c hc hmem
    have := hdigits c hmem
    rw [hc] at this
    cases this
  rw [value_has_line_breaks_or_equals_iff]
  exact ⟨hnot _ (by decide), hnot _ (by decide), hnot _ (by decide)⟩

theorem configPayload_eq_some {c : ConfigAttestationClaims} {text : Bytes} :
    configPayload c = some text ↔
      (∀ v ∈ c.values, value_has_line_breaks_or_equals v = false) ∧
        text = payloadText c.values := by
  have hseq := uintText_plain c.config_seq
  have hissued := uintText_plain c.issued_at
  have hexpires := uintText_plain c.expires_at
  unfold configPayload
  simp only [bind, Option.bind_eq_some_iff, append_claim_line_eq_some, append_uint_claim_line,
    Option.some.injEq]
  constructor
  · rintro ⟨-, ⟨h1, rfl⟩, -, ⟨h2, rfl⟩, -, ⟨h3, rfl⟩, -, ⟨h4, rfl⟩, -, ⟨h5, rfl⟩, -, ⟨h6, rfl⟩,
      -, ⟨h7, rfl⟩, -, ⟨h8, rfl⟩, -, ⟨h9, rfl⟩, -, rfl, -, ⟨h10, rfl⟩, -, rfl, rfl⟩
    refine ⟨?_, ?_⟩
    · simp [ConfigAttestationClaims.values, ConfigAttestationClaims.valuesWith, h1, h2, h3, h4, h5,
        h6, h7, h8, h9, h10, hseq, hissued, hexpires]
    · simp [payloadText, payloadFields, ConfigAttestationClaims.values,
        ConfigAttestationClaims.valuesWith, fieldLines, claimLine, uintText, unlines]
  · rintro ⟨h, rfl⟩
    simp only [ConfigAttestationClaims.values, ConfigAttestationClaims.valuesWith,
      List.forall_mem_cons] at h
    obtain ⟨h1, h2, h3, h4, h5, h6, h7, h8, h9, -, h10, -⟩ := h
    refine ⟨_, ⟨h1, rfl⟩, _, ⟨h2, rfl⟩, _, ⟨h3, rfl⟩, _, ⟨h4, rfl⟩, _, ⟨h5, rfl⟩, _, ⟨h6, rfl⟩,
      _, ⟨h7, rfl⟩, _, ⟨h8, rfl⟩, _, ⟨h9, rfl⟩, _, rfl, _, ⟨h10, rfl⟩, _, rfl, ?_⟩
    simp [payloadText, payloadFields, ConfigAttestationClaims.values,
      ConfigAttestationClaims.valuesWith, fieldLines, claimLine, uintText, unlines]

theorem build_eq {c : ConfigAttestationClaims}
    (h : ∀ v ∈ c.values, value_has_line_breaks_or_equals v = false) :
    build_canonical_config_payload c = payloadText c.values := by
  unfold build_canonical_config_payload
  rw [configPayload_eq_some.mpr ⟨h, rfl⟩, Option.getD_some]

theorem plain_of_build {c : ConfigAttestationClaims} (h : build_canonical_config_payload c ≠ []) :
    ∀ v ∈ c.values, value_has_line_breaks_or_equals v = false := by
  unfold build_canonical_config_payload at h
  cases hc : configPayload c with
  | none =>
    rw [hc] at h
    exact absurd rfl h
  | some text => exact (configPayload_eq_some.mp hc).1

theorem parse_uintText (n : UInt64) : parse_uint64 (uintText n) = some n := parse_uint64_toDigits n

/-- What the builder writes is parsed to the same claims. -/
theorem parse_build {c : ConfigAttestationClaims} (h : build_canonical_config_payload c ≠ []) :
    parse_canonical_payload (build_canonical_config_payload c) = .ok c := by
  have hplain := plain_of_build h
  rw [build_eq hplain, parse_canonical_payload_ok]
  refine ⟨_, _, _, ?_, rfl, parse_uintText _, parse_uintText _, parse_uintText _⟩
  intro v hv
  obtain ⟨hn, hr, -⟩ := value_has_line_breaks_or_equals_iff.mp (hplain v hv)
  exact ⟨hn, hr⟩

/-! ## What is built again -/

/-- A numeral has no zero in front that it can lose. -/
def NoLeadingZero (v : Bytes) : Prop := v.length = 1 ∨ v.head? ≠ some (byte '0')

instance (v : Bytes) : Decidable (NoLeadingZero v) := inferInstanceAs (Decidable (_ ∨ _))

/-- The values of a payload that is in the form of the builder. -/
def BuilderForm (values : List Bytes) : Prop :=
  (∀ v ∈ values, byte '=' ∉ v) ∧ NoLeadingZero (values.getD 9 []) ∧
    NoLeadingZero (values.getD 11 []) ∧ NoLeadingZero (values.getD 12 [])

instance (values : List Bytes) : Decidable (BuilderForm values) :=
  inferInstanceAs (Decidable (_ ∧ _))

theorem head_bytesOf {c : Char} {s : List Char} (hs : Ascii s) (hc : c.toNat < 128) :
    (bytesOf s).head? = some (byte c) ↔ s.head? = some c := by
  cases s with
  | nil => simp [bytesOf]
  | cons d s =>
    have hd : d.toNat < 128 := hs d List.mem_cons_self
    simp only [bytesOf, List.map_cons, List.head?_cons, Option.some.injEq, byte]
    constructor
    · intro h
      have := congrArg UInt8.toNat h
      rw [UInt8.toNat_ofNat', UInt8.toNat_ofNat'] at this
      apply Char.toNat_inj.mp
      omega
    · rintro rfl
      rfl

theorem noLeadingZero_uintText (n : UInt64) : NoLeadingZero (uintText n) := by
  obtain ⟨-, -, h⟩ := isNumeral_iff.mp (isNumeral_toDigits n.toNat)
  unfold NoLeadingZero uintText
  rw [length_bytesOf]
  refine h.imp id fun hne heq => hne ?_
  exact (head_bytesOf (ascii_toDigits _) (by decide)).mp heq

/-- A number whose text has no leading zero has the text that the builder writes. -/
theorem uintText_of_parse {v : Bytes} {n : UInt64} (h : parse_uint64 v = some n)
    (hz : NoLeadingZero v) : v = uintText n := by
  obtain ⟨hne, hdigits, hvalue⟩ := parse_uint64_eq.mp h
  have hall : ∀ b ∈ v, 48 ≤ b.toNat ∧ b.toNat ≤ 57 := fun b hb =>
    inRange_digit (List.all_eq_true.mp hdigits b hb)
  have hdigit : ∀ c ∈ binary v, c.isDigit := by
    intro c hc
    obtain ⟨b, hb, rfl⟩ := List.mem_map.mp hc
    obtain ⟨h1, h2⟩ := hall b hb
    have hto := toNat_byteOf b
    simp only [Char.isDigit, ge_iff_le, Bool.and_eq_true, decide_eq_true_eq]
    exact ⟨show 48 ≤ (Char.ofNat b.toNat).toNat by omega,
      show (Char.ofNat b.toNat).toNat ≤ 57 by omega⟩
  have hascii : Ascii (binary v) := by
    intro c hc
    have := isDigit_toNat (hdigit c hc)
    omega
  have hnumeral : isNumeral (binary v) = true := by
    refine isNumeral_iff.mpr ⟨?_, hdigit, ?_⟩
    · intro h0
      have := congrArg List.length h0
      rw [length_binary] at this
      exact hne (List.length_eq_zero_iff.mp this)
    · rw [length_binary]
      refine hz.imp id fun hn heq => hn ?_
      have := (head_bytesOf hascii (by decide)).mpr heq
      rwa [bytesOf_binary] at this
  unfold uintText
  rw [← hvalue, decimalValue_eq, toDigits_value hnumeral, bytesOf_binary]

/-- A payload that is parsed is built again exactly when it is in the form of the
builder. -/
theorem build_parse {payload : Bytes} {c : ConfigAttestationClaims}
    (h : parse_canonical_payload payload = .ok c) : build_canonical_config_payload c = payload ↔
      ∃ values, parse_fields_in_order payload payloadFields "config token" false = .ok values ∧
        BuilderForm values := by
  obtain ⟨s, i, e, hv, rfl, hs, hi, he⟩ := parse_canonical_payload_ok.mp h
  have hlen := length_valuesWith c s i e
  have hfields := (@parse_fields_ok _ _ "config token").mpr
    ⟨hlen, fun v hmem => (hv v hmem).1, rfl⟩
  constructor
  · intro hbuild
    have hplain := plain_of_build (hbuild ▸ (payloadText_getLast hlen).1)
    have hown : parse_fields_in_order (payloadText (c.valuesWith s i e)) payloadFields
        "config token" false = .ok c.values := by
      rw [← hbuild, build_eq hplain]
      refine parse_fields_ok.mpr ⟨rfl, fun v hmem => ?_, rfl⟩
      exact (value_has_line_breaks_or_equals_iff.mp (hplain v hmem)).1
    refine ⟨_, hown, ?_, noLeadingZero_uintText _, noLeadingZero_uintText _,
      noLeadingZero_uintText _⟩
    intro v hmem
    exact (value_has_line_breaks_or_equals_iff.mp (hplain v hmem)).2.2
  · rintro ⟨values, hvalues, heq, h1, h2, h3⟩
    rw [hfields] at hvalues
    obtain rfl := Except.ok.inj hvalues
    obtain rfl := uintText_of_parse hs h1
    obtain rfl := uintText_of_parse hi h2
    obtain rfl := uintText_of_parse he h3
    refine build_eq fun v hmem => ?_
    exact value_has_line_breaks_or_equals_iff.mpr ⟨(hv v hmem).1, (hv v hmem).2, heq v hmem⟩

/-! ## What is read before the payload is parsed -/

theorem extract_payloadText {values : List Bytes} (hlen : values.length = payloadFields.length)
    (hvalues : ∀ v ∈ values, byte '\n' ∉ v) {n : Nat} (hn : n < payloadFields.length)
    (hother : ∀ key ∈ payloadFields.take n, ∀ v,
      (keyText payloadFields[n]).isPrefixOf (keyText key ++ v) = false) :
    extract_preverify_field (payloadText values) payloadFields[n] =
      if values.getD n [] = [] then none else some (values.getD n []) := by
  unfold extract_preverify_field payloadText
  rw [firstField_fieldLines hn hlen newline_not_mem_keys hvalues hother]

/-- The fields that are read before the payload is parsed are its claims. -/
theorem extract_of_parse {payload : Bytes} {c : ConfigAttestationClaims}
    (h : parse_canonical_payload payload = .ok c) :
    extract_preverify_field payload "alg" =
        (if c.algorithm = [] then none else some c.algorithm) ∧
      extract_preverify_field payload "key-id" =
        if c.key_id = [] then none else some c.key_id := by
  obtain ⟨s, i, e, hv, rfl, -⟩ := parse_canonical_payload_ok.mp h
  have hlen := length_valuesWith c s i e
  have hnl := fun v hmem => (hv v hmem).1
  constructor
  · refine extract_payloadText hlen hnl (n := 2) (by decide) ?_
    intro key hmem v
    simp only [payloadFields, List.take_succ_cons, List.take_zero, List.mem_cons,
      List.not_mem_nil, or_false] at hmem
    rcases hmem with rfl | rfl <;> rfl
  · refine extract_payloadText hlen hnl (n := 3) (by decide) ?_
    intro key hmem v
    simp only [payloadFields, List.take_succ_cons, List.take_zero, List.mem_cons,
      List.not_mem_nil, or_false] at hmem
    rcases hmem with rfl | rfl | rfl <;> rfl

/-! ## What is verified -/

theorem dot_not_mem_base64 (bs : Bytes) : byte '.' ∉ base64 bs :=
  not_mem_base64 (by decide) (by decide) bs

/-- The envelope that is built is split into its parts. -/
theorem split_build_envelope {payload signature : Bytes} (hpayload : payload ≠ [])
    (hsignature : signature ≠ []) (noun : String) :
    split_envelope (build_config_envelope payload (base64 signature)) kEnvelopePrefix noun =
      .ok (base64 payload, base64 signature) := by
  have hhead : takeLine (byte '.') (build_config_envelope payload (base64 signature)) =
      some (bytesOf kEnvelopePrefix.toList, base64 payload ++ byte '.' :: base64 signature) := by
    refine takeLine_eq_some.mpr ⟨by decide, ?_⟩
    unfold build_config_envelope build_envelope
    rw [List.append_assoc, List.cons_append]
  have hrest : takeLine (byte '.') (base64 payload ++ byte '.' :: base64 signature) =
      some (base64 payload, base64 signature) :=
    takeLine_eq_some.mpr ⟨dot_not_mem_base64 payload, rfl⟩
  have h1 := is_canonical_base64_iff.mpr ⟨payload, hpayload, rfl⟩
  have h2 := is_canonical_base64_iff.mpr ⟨signature, hsignature, rfl⟩
  unfold split_envelope
  simp only [hhead, hrest]
  rw [if_neg (dot_not_mem_base64 signature), if_neg (fun h => h rfl), if_neg (by simp [h1, h2])]

section
variable (rsaVerify : Bytes → Bytes → Bytes → Bool)

/-- What the verifier has checked of a token that it takes. -/
structure Accepted (env : Environment) (token : Bytes) (expected : ConfigAttestationExpected)
    (payload signature : Bytes) (claims : ConfigAttestationClaims) : Prop where
  parts : ∃ payload_b64 signature_b64,
    split_envelope token kEnvelopePrefix "config token" = .ok (payload_b64, signature_b64) ∧
      payload = unbase64 payload_b64 ∧ signature = unbase64 signature_b64
  payload_ne : payload ≠ []
  signature_ne : signature ≠ []
  metadata : ∃ algorithm key_id, extract_preverify_field payload "alg" = some algorithm ∧
    extract_preverify_field payload "key-id" = some key_id ∧
    verify_signature rsaVerify ⟨payload, signature, [], algorithm, key_id,
      kConfigSignatureVersion, config_signature_policy env expected⟩ = true
  parsed : parse_canonical_payload payload = .ok claims
  valid : validate_claims env claims expected = .ok ()

theorem verify_payload_signature_ok {payload signature payload_text : Bytes} {version : Nat}
    {policy : SignatureVerificationPolicy} {noun : String} :
    verify_payload_signature rsaVerify payload signature payload_text version policy noun = .ok () ↔
      ∃ algorithm key_id, extract_preverify_field payload_text "alg" = some algorithm ∧
        extract_preverify_field payload_text "key-id" = some key_id ∧
        verify_signature rsaVerify ⟨payload, signature, [], algorithm, key_id, version, policy⟩ =
          true := by
  unfold verify_payload_signature
  constructor
  · intro h
    split at h
    · rename_i algorithm key_id halg hkey
      simp only at h
      split at h
      · rename_i hverify
        exact ⟨algorithm, key_id, halg, hkey, hverify⟩
      · cases h
    · cases h
  · rintro ⟨algorithm, key_id, halg, hkey, hverify⟩
    simp only [halg, hkey, hverify, if_true]

theorem verify_config_envelope_ok {env : Environment} {token : Bytes}
    {expected : ConfigAttestationExpected} {claims : ConfigAttestationClaims} :
    verify_config_envelope rsaVerify env token expected = .ok claims ↔
      ∃ payload signature, Accepted rsaVerify env token expected payload signature claims := by
  unfold verify_config_envelope
  constructor
  · intro h
    split at h
    · cases h
    rename_i payload_b64 signature_b64 hsplit
    simp only at h
    split at h
    · cases h
    rename_i hne
    rw [not_or] at hne
    split at h
    · cases h
    rename_i hsignature
    split at h
    · cases h
    rename_i claims' hparse
    split at h
    · cases h
    rename_i hvalid
    obtain rfl := Except.ok.inj h
    exact ⟨_, _, ⟨_, _, hsplit, rfl, rfl⟩, hne.1, hne.2,
      (verify_payload_signature_ok rsaVerify).mp hsignature, hparse, hvalid⟩
  · rintro ⟨payload, signature, ⟨payload_b64, signature_b64, hsplit, rfl, rfl⟩, hpayload,
      hsignature, hmetadata, hparse, hvalid⟩
    simp only [hsplit]
    rw [if_neg (by simp [hpayload, hsignature]),
      (verify_payload_signature_ok rsaVerify).mpr hmetadata]
    simp only [hparse, hvalid]

/-- The signature was checked under the algorithm and the key of the claims. -/
theorem Accepted.metadata_of_claims {env : Environment} {token payload signature : Bytes}
    {expected : ConfigAttestationExpected} {claims : ConfigAttestationClaims}
    (h : Accepted rsaVerify env token expected payload signature claims) :
    extract_preverify_field payload "alg" = some claims.algorithm ∧
      extract_preverify_field payload "key-id" = some claims.key_id ∧
      verify_signature rsaVerify ⟨payload, signature, [], claims.algorithm, claims.key_id,
        kConfigSignatureVersion, config_signature_policy env expected⟩ = true := by
  obtain ⟨algorithm, key_id, halg, hkey, hverify⟩ := h.metadata
  obtain ⟨hown, hown'⟩ := extract_of_parse h.parsed
  rw [hown] at halg
  rw [hown'] at hkey
  have halg' : algorithm = claims.algorithm := by
    by_cases hne : claims.algorithm = []
    · simp [hne] at halg
    · rw [if_neg hne] at halg
      exact (Option.some.inj halg).symm
  have hkey' : key_id = claims.key_id := by
    by_cases hne : claims.key_id = []
    · simp [hne] at hkey
    · rw [if_neg hne] at hkey
      exact (Option.some.inj hkey).symm
  subst halg' hkey'
  exact ⟨hown.trans halg, hown'.trans hkey, hverify⟩

/-- The verifier takes a token that is built from claims that it takes. -/
theorem verify_build {env : Environment} {expected : ConfigAttestationExpected}
    {claims : ConfigAttestationClaims} {signature : Bytes}
    (hbuild : build_canonical_config_payload claims ≠ []) (halg : claims.algorithm ≠ [])
    (hkey : claims.key_id ≠ []) (hsignature : signature ≠ [])
    (hverify : verify_signature rsaVerify ⟨build_canonical_config_payload claims, signature, [],
      claims.algorithm, claims.key_id, kConfigSignatureVersion,
      config_signature_policy env expected⟩ = true)
    (hvalid : validate_claims env claims expected = .ok ()) :
    verify_config_envelope rsaVerify env
      (build_config_envelope (build_canonical_config_payload claims) (base64 signature)) expected =
        .ok claims := by
  have hparse := parse_build hbuild
  obtain ⟨hown, hown'⟩ := extract_of_parse hparse
  rw [if_neg halg] at hown
  rw [if_neg hkey] at hown'
  refine (verify_config_envelope_ok rsaVerify).mpr ⟨_, _, ⟨_, _, split_build_envelope hbuild
    hsignature _, (unbase64_base64 hbuild).symm, (unbase64_base64 hsignature).symm⟩, hbuild,
    hsignature, ⟨_, _, hown, hown', hverify⟩, hparse, hvalid⟩

end

/-! ## The golden token -/

/-- The public key of the golden vectors, with a modulus of 3072 bits. -/
def goldenKeyDer : Bytes := [
  48, 130, 1, 138, 2, 130, 1, 129, 0, 152, 49, 32, 125, 177, 179, 245, 172, 5, 127, 154,
  46, 156, 97, 208, 33, 70, 69, 75, 30, 218, 172, 42, 75, 35, 138, 130, 115, 141, 150, 39,
  161, 162, 146, 130, 229, 247, 64, 95, 33, 124, 155, 251, 189, 133, 59, 91, 253, 184, 221, 38,
  191, 92, 122, 60, 208, 110, 21, 247, 100, 36, 174, 253, 248, 140, 229, 81, 143, 172, 197, 107,
  62, 102, 230, 58, 162, 109, 229, 108, 64, 130, 67, 144, 126, 239, 211, 162, 37, 39, 46, 102,
  204, 187, 52, 118, 10, 48, 26, 201, 229, 44, 109, 17, 233, 35, 216, 209, 211, 251, 250, 162,
  240, 226, 97, 189, 11, 226, 114, 104, 213, 174, 113, 57, 15, 87, 179, 160, 186, 95, 199, 78,
  220, 131, 157, 150, 166, 102, 16, 254, 57, 227, 227, 82, 14, 48, 106, 174, 52, 78, 179, 255,
  204, 98, 74, 125, 251, 210, 116, 179, 147, 230, 110, 70, 230, 37, 203, 99, 235, 221, 60, 99,
  15, 132, 25, 133, 224, 156, 128, 69, 163, 237, 157, 209, 111, 133, 60, 96, 91, 167, 133, 183,
  90, 205, 154, 152, 40, 209, 236, 55, 102, 14, 176, 185, 211, 253, 88, 61, 67, 198, 178, 205,
  104, 146, 222, 249, 237, 178, 99, 220, 51, 160, 238, 181, 215, 95, 229, 203, 37, 19, 45, 126,
  240, 73, 195, 234, 200, 10, 163, 222, 202, 206, 21, 20, 58, 53, 151, 167, 99, 113, 47, 46,
  65, 73, 216, 140, 169, 154, 68, 32, 182, 183, 132, 29, 146, 131, 17, 189, 236, 40, 106, 197,
  70, 144, 117, 246, 209, 199, 253, 205, 71, 159, 148, 134, 147, 164, 147, 127, 66, 45, 33, 144,
  255, 52, 102, 135, 206, 90, 33, 235, 153, 43, 9, 234, 53, 108, 116, 81, 158, 144, 199, 106,
  253, 73, 42, 207, 111, 1, 109, 202, 99, 146, 154, 49, 121, 116, 61, 116, 67, 163, 246, 19,
  183, 188, 213, 187, 139, 225, 49, 18, 122, 251, 67, 70, 55, 202, 39, 135, 253, 76, 13, 45,
  95, 198, 60, 205, 251, 210, 135, 217, 75, 248, 213, 20, 41, 119, 62, 47, 134, 234, 147, 45,
  49, 65, 239, 238, 138, 38, 70, 104, 166, 215, 80, 141, 15, 2, 3, 1, 0, 1]

def goldenSignature : Bytes := [
  98, 149, 115, 219, 162, 251, 30, 122, 25, 98, 113, 26, 81, 177, 24, 25, 150, 191, 138, 188,
  151, 139, 5, 113, 48, 15, 104, 179, 113, 76, 171, 236, 231, 100, 158, 224, 190, 134, 139, 27,
  193, 254, 108, 58, 125, 53, 211, 160, 252, 152, 241, 191, 223, 191, 251, 165, 58, 216, 254, 19,
  97, 184, 119, 233, 107, 20, 76, 247, 219, 6, 8, 177, 149, 172, 5, 224, 209, 255, 187, 254,
  115, 122, 54, 125, 41, 68, 98, 145, 10, 18, 143, 171, 10, 34, 144, 2, 201, 169, 97, 157,
  31, 36, 107, 194, 179, 249, 50, 7, 10, 212, 157, 177, 175, 215, 195, 219, 108, 246, 77, 127,
  135, 2, 39, 146, 102, 94, 66, 196, 205, 92, 150, 131, 91, 52, 119, 254, 152, 90, 203, 182,
  131, 207, 0, 221, 64, 52, 4, 137, 172, 1, 76, 14, 211, 67, 94, 40, 30, 81, 58, 19,
  90, 8, 10, 179, 53, 204, 14, 118, 178, 113, 200, 119, 215, 101, 83, 158, 33, 55, 145, 70,
  232, 98, 8, 185, 87, 250, 98, 4, 39, 93, 211, 24, 139, 163, 236, 232, 44, 204, 36, 74,
  63, 37, 154, 33, 135, 205, 154, 235, 236, 149, 179, 4, 156, 62, 190, 135, 239, 3, 249, 11,
  224, 16, 102, 60, 116, 238, 70, 17, 216, 195, 208, 63, 195, 127, 73, 35, 46, 92, 194, 232,
  65, 192, 194, 208, 251, 180, 5, 248, 152, 39, 162, 147, 243, 184, 23, 184, 66, 79, 66, 86,
  152, 252, 255, 20, 134, 29, 203, 96, 190, 138, 17, 87, 152, 135, 172, 0, 240, 130, 79, 186,
  96, 127, 225, 226, 140, 10, 96, 45, 80, 25, 18, 30, 101, 203, 133, 155, 233, 79, 121, 79,
  191, 39, 10, 69, 84, 63, 89, 189, 16, 12, 127, 91, 77, 241, 252, 49, 206, 63, 146, 142,
  34, 129, 40, 79, 86, 2, 228, 135, 255, 175, 214, 87, 102, 248, 195, 190, 200, 21, 133, 212,
  141, 226, 223, 186, 255, 247, 209, 230, 238, 89, 58, 140, 183, 209, 242, 104, 175, 35, 97, 168,
  184, 192, 244, 131, 120, 54, 33, 1, 184, 79, 107, 99, 182, 104, 109, 127, 20, 169, 205, 246,
  145, 43, 17, 241]

def goldenConfig : Bytes := bytesOf "\x7b\"feature\":\"export\",\"limit\":5\x7d".toList

/-- `sha256:` and the hex text of a digest. -/
def digestText (words : List Nat) : Bytes := bytesOf "sha256:".toList ++ words.flatMap hexWord

def goldenClaims : ConfigAttestationClaims where
  purpose := kPurpose
  version := kVersion
  algorithm := LCC_SIGNATURE_ALGORITHM_RSA_PKCS1_SHA256
  key_id := digestText [0xacd25405, 0x6ebb6396, 0xfbd43a5a, 0x17ed7956, 0x4310f710, 0x044c4dfc, 0x96109c77, 0xa93c9496]
  project := bytesOf "DEFAULT".toList
  feature := bytesOf "EXPORT".toList
  license_fingerprint := List.replicate 64 (byte 'a')
  device_hash := []
  config_id := bytesOf "app-config".toList
  config_seq := 9
  config_hash := digestText [0x301852d0, 0xa48908bd, 0x729ac900, 0xd3510e04, 0x70760f09, 0x6137ad0f, 0xe3ce65f7, 0xcbb6041d]
  issued_at := 1000
  expires_at := 2000

def goldenToken : Bytes :=
  build_config_envelope (build_canonical_config_payload goldenClaims) (base64 goldenSignature)

def goldenExpected : ConfigAttestationExpected where
  project := goldenClaims.project
  feature := goldenClaims.feature
  license_fingerprint := goldenClaims.license_fingerprint
  device_hash := goldenClaims.device_hash
  config_bytes := goldenConfig
  now_epoch_seconds := 1500
  min_config_seq := 0
  trusted_public_keys := [⟨goldenClaims.key_id, goldenKeyDer, 3072⟩]

/-- A library that has no keys but those of the caller. -/
def bareEnvironment : Environment := ⟨1500, [], [], []⟩

/-- The crypto library takes the signature of the golden token. -/
theorem golden_token_verifies : verify_config_envelope (fun _ _ _ => true) bareEnvironment
    goldenToken goldenExpected = .ok goldenClaims := by
  refine verify_build _ ?_ ?_ ?_ ?_ ?_ ?_ <;> decide +kernel

/-! ## One form -/

/-- A config token has one form, but for the equals signs and the leading zeros that
the parser takes and the builder does not write. -/
theorem config_tokens_are_canonical (rsaVerify : Bytes → Bytes → Bytes → Bool)
    (env : Environment) :
    (∀ claims, build_canonical_config_payload claims ≠ [] →
      parse_canonical_payload (build_canonical_config_payload claims) = .ok claims) ∧
    (∀ payload claims, parse_canonical_payload payload = .ok claims →
      (build_canonical_config_payload claims = payload ↔
        ∃ values, parse_fields_in_order payload payloadFields "config token" false = .ok values ∧
          BuilderForm values)) ∧
    ∀ token expected claims, verify_config_envelope rsaVerify env token expected = .ok claims →
      ∃ payload_b64 signature_b64,
        split_envelope token kEnvelopePrefix "config token" = .ok (payload_b64, signature_b64) ∧
        extract_preverify_field (unbase64 payload_b64) "alg" = some claims.algorithm ∧
        extract_preverify_field (unbase64 payload_b64) "key-id" = some claims.key_id ∧
        verify_signature rsaVerify ⟨unbase64 payload_b64, unbase64 signature_b64, [],
          claims.algorithm, claims.key_id, kConfigSignatureVersion,
          config_signature_policy env expected⟩ = true := by
  refine ⟨fun claims h => parse_build h, fun payload claims h => build_parse h, ?_⟩
  intro token expected claims h
  obtain ⟨payload, signature, haccepted⟩ := (verify_config_envelope_ok rsaVerify).mp h
  obtain ⟨payload_b64, signature_b64, hsplit, rfl, rfl⟩ := haccepted.parts
  exact ⟨payload_b64, signature_b64, hsplit, haccepted.metadata_of_claims⟩

/-- Claims whose payload may have an equals sign and zeros before a number. -/
def spareClaims : ConfigAttestationClaims :=
  { goldenClaims with config_id := bytesOf "a=b".toList }

def sparePayload : Bytes := payloadText
  (spareClaims.valuesWith (bytesOf "009".toList) (bytesOf "1000".toList) (bytesOf "2000".toList))

set_option maxRecDepth 10000 in
theorem spare_payload_is_parsed : parse_canonical_payload sparePayload = .ok spareClaims := by
  decide

theorem the_golden_token_is_canonical :
    parse_canonical_payload (build_canonical_config_payload goldenClaims) = .ok goldenClaims ∧
    (build_canonical_config_payload spareClaims = sparePayload ↔
      ∃ values, parse_fields_in_order sparePayload payloadFields "config token" false =
        .ok values ∧ BuilderForm values) ∧
    ∃ payload_b64 signature_b64,
      split_envelope goldenToken kEnvelopePrefix "config token" = .ok (payload_b64, signature_b64) ∧
      extract_preverify_field (unbase64 payload_b64) "alg" = some goldenClaims.algorithm ∧
      extract_preverify_field (unbase64 payload_b64) "key-id" = some goldenClaims.key_id ∧
      verify_signature (fun _ _ _ => true) ⟨unbase64 payload_b64, unbase64 signature_b64, [],
        goldenClaims.algorithm, goldenClaims.key_id, kConfigSignatureVersion,
        config_signature_policy bareEnvironment goldenExpected⟩ = true := by
  obtain ⟨hbuild, hparse, haccepted⟩ :=
    config_tokens_are_canonical (fun _ _ _ => true) bareEnvironment
  refine ⟨hbuild goldenClaims ?_, hparse sparePayload spareClaims spare_payload_is_parsed,
    haccepted goldenToken goldenExpected goldenClaims golden_token_verifies⟩
  decide

/-- A payload that is parsed need not be the one that is built of its claims. -/
theorem spare_payload_is_not_built : ¬ ∀ payload claims,
    parse_canonical_payload payload = .ok claims →
      build_canonical_config_payload claims = payload := by
  intro h
  have hbuild := h sparePayload spareClaims spare_payload_is_parsed
  revert hbuild
  decide

end Licensecc.Token
