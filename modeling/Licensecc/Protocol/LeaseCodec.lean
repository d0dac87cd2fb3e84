-- The laws of the two lease codecs. The client accepts exactly the tokens that the
-- service accepts, and gives the same claims.
import Licensecc.Protocol.Checks

open Licensecc.Codec

namespace Licensecc.Protocol

/-! ## Claims -/

/-- The claims as the client has them: the bytes of each text. -/
def DeviceLeaseClaims.native (c : DeviceLeaseClaims) : BoundLeaseClaims where
  signer_key_id := utf8 c.key_id
  issuer := utf8 c.issuer
  audience := utf8 c.audience
  project := utf8 c.project
  feature := utf8 c.feature
  license_fingerprint := utf8 c.license_fingerprint
  binding_id := utf8 c.binding_id
  device_key_id := utf8 c.device_key_id
  lease_id := utf8 c.lease_id
  operation_id := utf8 c.operation_id
  generation := c.generation.toNat
  revocation_seq := c.revocation_seq.toNat
  issued_at := c.issued_at.toNat
  renew_after := c.renew_after.toNat
  expires_at := c.expires_at.toNat

theorem validateClaims_ok {c : DeviceLeaseClaims} : validateClaims c = .ok () ↔
    (c.version = 1 ∧ c.purpose = "device-lease".toList) ∧
    (namePattern 127 c.project = true ∧ namePattern 15 c.feature = true) ∧
    (keyPattern c.key_id = true ∧ keyPattern c.device_key_id = true ∧
      hexPattern c.license_fingerprint = true) ∧
    identity c.binding_id 16 = .ok () ∧ identity c.lease_id 16 = .ok () ∧
    identity c.operation_id 32 = .ok () ∧
    (1 ≤ c.generation ∧ c.issued_at < c.renew_after ∧ c.renew_after < c.expires_at) ∧
    c.expires_at - c.issued_at ≤ 86400 ∧ 0 ≤ c.expires_at + 120 ∧ c.expires_at + 120 ≤ safeMax := by
  have hlast : ∀ n : Int, (do let _ ← integer n : Except String Unit) = .ok () ↔
      0 ≤ n ∧ n ≤ safeMax := by
    intro n
    rw [bind_eq_ok]
    constructor
    · rintro ⟨v, hv, -⟩
      exact (integer_ok.mp hv).1
    · intro h
      exact ⟨_, integer_ok.mpr ⟨h, rfl⟩, rfl⟩
  unfold validateClaims
  rw [ensure_bind_eq_ok, ensure_bind_eq_ok, ensure_bind_eq_ok, unit_bind_eq_ok, unit_bind_eq_ok,
    unit_bind_eq_ok, ensure_bind_eq_ok, ensure_bind_eq_ok, hlast]

theorem ascii_purpose : Ascii "device-lease".toList := ascii_of_all (by decide)

/-- The checks of the client and of the service on the claims are the same. -/
theorem claimsValid_native {c : DeviceLeaseClaims} (hgeneration : 0 ≤ c.generation)
    (hissued : 0 ≤ c.issued_at) (hrenew : 0 ≤ c.renew_after) (hexpires : 0 ≤ c.expires_at) :
    (c.version = 1 ∧ claimsValid (utf8 c.purpose) c.native = true) ↔ validateClaims c = .ok () := by
  have hpurpose : utf8 c.purpose = bytesOf "device-lease".toList ↔
      c.purpose = "device-lease".toList := by
    rw [← utf8_ascii ascii_purpose]
    exact ⟨utf8_injective, congrArg utf8⟩
  rw [validateClaims_ok]
  unfold claimsValid DeviceLeaseClaims.native safeMax
  simp only [Bool.and_eq_true, decide_eq_true_eq, hpurpose, key_id_valid_utf8, name_utf8,
    hex_digest_utf8, token_utf8 (.inl rfl), token_utf8 (.inr rfl)]
  constructor
  · rintro ⟨h0, h⟩
    obtain ⟨⟨⟨⟨⟨⟨⟨⟨⟨⟨⟨⟨⟨h1, h2⟩, h3⟩, h4⟩, h5⟩, h6⟩, h7⟩, h8⟩, h9⟩, h10⟩, h11⟩, h12⟩, h13⟩, h14⟩ := h
    refine ⟨⟨h0, h1⟩, ⟨h4, h5⟩, ⟨h2, h3, h6⟩, h7, h8, h9, ⟨by omega, by omega, by omega⟩, by omega,
      by omega, by omega⟩
  · rintro ⟨⟨h0, h1⟩, ⟨h4, h5⟩, ⟨h2, h3, h6⟩, h7, h8, h9, ⟨h10, h11, h12⟩, h13, h14, h15⟩
    exact ⟨h0, ⟨⟨⟨⟨⟨⟨⟨⟨⟨⟨⟨⟨⟨h1, h2⟩, h3⟩, h4⟩, h5⟩, h6⟩, h7⟩, h8⟩, h9⟩, by omega⟩, by omega⟩,
      by omega⟩, by omega⟩, by omega⟩⟩

/-! ## Values -/

/-- The bytes of an encoded value. -/
def NativeValue (x : FieldValue) (v : Bytes) : Prop := ∃ w, x.encode = .ok w ∧ v = bytesOf w

theorem FieldValue.ascii {x : FieldValue} {w : List Char} (h : x.encode = .ok w) : Ascii w := by
  cases x with
  | text s =>
    obtain ⟨-, rfl⟩ := text_ok.mp h
    exact ascii_encodeBase64url _
  | integer n =>
    obtain ⟨-, rfl⟩ := integer_ok.mp h
    exact ascii_toDigits _

theorem safe_integer_value {v : Bytes} {n : Nat} :
    safe_integer v = some n ↔ NativeValue (.integer n) v := by
  have hsafe : ((n : Int) ≤ safeMax) ↔ n ≤ 9007199254740991 := by
    unfold safeMax
    omega
  unfold NativeValue FieldValue.encode
  simp only [safe_integer_ok, integer_ok, hsafe, Int.toNat_natCast]
  constructor
  · rintro ⟨hle, rfl⟩
    exact ⟨_, ⟨⟨by omega, hle⟩, rfl⟩, rfl⟩
  · rintro ⟨w, ⟨⟨-, hle⟩, rfl⟩, rfl⟩
    exact ⟨hle, rfl⟩

theorem decodeText_value {v d : Bytes} :
    decodeText v = some d ↔ ∃ s, d = utf8 s ∧ NativeValue (.text s) v := by
  unfold decodeText NativeValue FieldValue.encode
  simp only [text_ok]
  constructor
  · intro h
    obtain ⟨decoded, hd, h⟩ := Option.bind_eq_some_iff.mp h
    split at h
    swap
    · cases h
    rename_i htext
    obtain rfl := Option.some.inj h
    obtain ⟨hne, hlen, s, rfl⟩ := utf8_text_ok.mp htext
    obtain ⟨rfl, -⟩ := (decode_base64url_ok (by omega)).mp hd
    exact ⟨s, rfl, _, ⟨⟨fun h0 => hne (by rw [h0]; rfl), hlen⟩, rfl⟩, rfl⟩
  · rintro ⟨s, rfl, w, ⟨⟨hne, hlen⟩, rfl⟩, rfl⟩
    have hd := (decode_base64url_ok (show 1024 ≤ 8192 by omega)).mpr ⟨rfl, hlen⟩
    have htext := utf8_text_ok.mpr ⟨fun h0 => hne (utf8_eq_nil.mp h0), hlen, s, rfl⟩
    rw [hd]
    simp [htext]

theorem NativeValue.nonneg {n : Int} {v : Bytes} (h : NativeValue (.integer n) v) : 0 ≤ n := by
  obtain ⟨w, hw, -⟩ := h
  exact (integer_ok.mp hw).1.1

theorem NativeValue.safe_integer {n : Int} {v : Bytes} (h : NativeValue (.integer n) v) :
    Protocol.safe_integer v = some n.toNat := by
  rw [safe_integer_value, Int.toNat_of_nonneg h.nonneg]
  exact h

theorem NativeValue.decodeText {s : List Char} {v : Bytes} (h : NativeValue (.text s) v) :
    Protocol.decodeText v = some (utf8 s) :=
  decodeText_value.mpr ⟨s, rfl, h⟩

/-! ## Lines -/

def nativeLine (field : String) (value : Bytes) : Bytes := bytesOf field.toList ++ byte '=' :: value

/-- A line that starts with the field is the line of the rest. -/
theorem nativeLine_eq {field : String} {line : Bytes} :
    (¬ (line.length < (bytesOf field.toList ++ [byte '=']).length ∨
      line.take (bytesOf field.toList ++ [byte '=']).length ≠ bytesOf field.toList ++ [byte '='])) ↔
      line = nativeLine field (line.drop (bytesOf field.toList ++ [byte '=']).length) := by
  have hline : ∀ v, nativeLine field v = (bytesOf field.toList ++ [byte '=']) ++ v := by
    intro v
    simp [nativeLine]
  rw [hline]
  generalize bytesOf field.toList ++ [byte '='] = p
  rw [not_or, not_not, not_lt]
  constructor
  · intro h
    conv => lhs; rw [← List.take_append_drop p.length line, h.2]
  · intro h
    have hlen := congrArg List.length h
    rw [List.length_append] at hlen
    refine ⟨by omega, ?_⟩
    rw [h, List.take_left]

theorem drop_nativeLine (field : String) (v : Bytes) :
    (nativeLine field v).drop (bytesOf field.toList ++ [byte '=']).length = v := by
  have hline : nativeLine field v = (bytesOf field.toList ++ [byte '=']) ++ v := by
    simp [nativeLine]
  rw [hline, List.drop_left]

theorem newline_not_mem_nativeLine {field : String} {v : Bytes}
    (hf : byte '\n' ∉ bytesOf field.toList) : byte '\n' ∉ nativeLine field v ↔ byte '\n' ∉ v := by
  have heq : byte '\n' ≠ byte '=' := by decide
  unfold nativeLine
  simp [hf, heq]

theorem readFields_cons {f : String} {fs : List String} {bytes rest : Bytes} {vs : List Bytes} :
    readFields (f :: fs) bytes = some (vs, rest) ↔ ∃ v vs' bytes', vs = v :: vs' ∧
      byte '\n' ∉ nativeLine f v ∧ bytes = nativeLine f v ++ byte '\n' :: bytes' ∧
      readFields fs bytes' = some (vs', rest) := by
  conv => lhs; unfold readFields
  simp only [bind, Option.bind_eq_some_iff, Prod.exists]
  constructor
  · rintro ⟨line, bytes', hline, h⟩
    obtain ⟨hnl, rfl⟩ := takeLine_eq_some.mp hline
    split at h
    · cases h
    rename_i hstart
    rw [nativeLine_eq] at hstart
    obtain ⟨⟨vs', r⟩, hvs, h⟩ := Option.bind_eq_some_iff.mp h
    obtain ⟨rfl, rfl⟩ := Prod.mk.inj (Option.some.inj h)
    exact ⟨_, vs', bytes', rfl, hstart ▸ hnl, by rw [← hstart], hvs⟩
  · rintro ⟨v, vs', bytes', rfl, hnl, rfl, hvs⟩
    refine ⟨nativeLine f v, bytes', takeLine_eq_some.mpr ⟨hnl, rfl⟩, ?_⟩
    have hdrop := drop_nativeLine f v
    rw [if_neg (nativeLine_eq.mpr (by rw [hdrop])), hdrop]
    exact Option.bind_eq_some_iff.mpr ⟨_, hvs, rfl⟩

/-- The values that are read are those of the lines. -/
theorem readFields_ok {fs : List String} (hfs : ∀ f ∈ fs, byte '\n' ∉ bytesOf f.toList)
    {bytes rest : Bytes} {vs : List Bytes} : readFields fs bytes = some (vs, rest) ↔
      vs.length = fs.length ∧ (∀ v ∈ vs, byte '\n' ∉ v) ∧
        bytes = unlines (byte '\n') (fs.zipWith nativeLine vs) ++ rest := by
  induction fs generalizing bytes vs with
  | nil =>
    unfold readFields
    simp only [Option.some.injEq, Prod.mk.injEq, List.length_nil, List.length_eq_zero_iff]
    constructor
    · rintro ⟨rfl, rfl⟩
      simp [unlines]
    · rintro ⟨rfl, -, h⟩
      exact ⟨rfl, h⟩
  | cons f fs ih =>
    have hf := hfs f List.mem_cons_self
    rw [readFields_cons]
    constructor
    · rintro ⟨v, vs', bytes', rfl, hnl, rfl, h⟩
      obtain ⟨hlen, hvs, rfl⟩ := (ih fun g hg => hfs g (List.mem_cons_of_mem _ hg)).mp h
      refine ⟨by simp [hlen], ?_, by simp⟩
      intro w hw
      rcases List.mem_cons.mp hw with rfl | hw
      · exact (newline_not_mem_nativeLine hf).mp hnl
      · exact hvs w hw
    · rintro ⟨hlen, hvs, rfl⟩
      cases vs with
      | nil => cases hlen
      | cons v vs =>
        refine ⟨v, vs, _, rfl, ?_, ?_, (ih fun g hg => hfs g (List.mem_cons_of_mem _ hg)).mpr
          ⟨Nat.succ.inj hlen, fun w hw => hvs w (List.mem_cons_of_mem _ hw), rfl⟩⟩
        · exact (newline_not_mem_nativeLine hf).mpr (hvs v List.mem_cons_self)
        · simp

/-- The bytes of the lines of the service are the lines of the client. -/
theorem utf8_lines {fs : List String} (hfs : ∀ f ∈ fs, Ascii f.toList) {ws : List (List Char)}
    (hws : ∀ w ∈ ws, Ascii w) : utf8 (unlines '\n' (fs.zipWith fieldLine ws)) =
      unlines (byte '\n') (fs.zipWith nativeLine (ws.map bytesOf)) := by
  induction fs generalizing ws with
  | nil => simp [unlines, utf8]
  | cons f fs ih =>
    cases ws with
    | nil => simp [unlines, utf8]
    | cons w ws =>
      have hline : Ascii (fieldLine f w ++ ['\n']) := by
        intro c hc
        unfold fieldLine at hc
        simp only [List.mem_append, List.mem_cons, List.not_mem_nil, or_false] at hc
        rcases hc with (hc | rfl | hc) | rfl
        · exact hfs f List.mem_cons_self c hc
        · decide
        · exact hws w List.mem_cons_self c hc
        · decide
      have hrest := ih (fun g hg => hfs g (List.mem_cons_of_mem _ hg))
        (fun v hv => hws v (List.mem_cons_of_mem _ hv))
      have hsplit : fieldLine f w ++ '\n' :: unlines '\n' (fs.zipWith fieldLine ws) =
          (fieldLine f w ++ ['\n']) ++ unlines '\n' (fs.zipWith fieldLine ws) := by simp
      rw [List.zipWith_cons_cons, unlines_cons, hsplit, utf8_append, hrest, utf8_ascii hline,
        List.map_cons, List.zipWith_cons_cons, unlines_cons]
      unfold fieldLine nativeLine bytesOf byte
      simp

/-! ## Payloads -/

theorem NativeValue.forall₂ {xs : List FieldValue} {vs : List Bytes} :
    List.Forall₂ NativeValue xs vs ↔
      ∃ ws, List.Forall₂ (fun (x : FieldValue) w => x.encode = .ok w) xs ws ∧
        vs = ws.map bytesOf := by
  induction xs generalizing vs with
  | nil => simp
  | cons x xs ih =>
    rw [List.forall₂_cons_left_iff]
    constructor
    · rintro ⟨v, vs', ⟨w, hw, rfl⟩, hvs, rfl⟩
      obtain ⟨ws, hws, rfl⟩ := ih.mp hvs
      exact ⟨w :: ws, .cons hw hws, rfl⟩
    · rintro ⟨ws, hws, rfl⟩
      obtain ⟨w, ws', hw, hrest, rfl⟩ := List.forall₂_cons_left_iff.mp hws
      exact ⟨bytesOf w, ws'.map bytesOf, ⟨w, hw, rfl⟩, ih.mpr ⟨ws', hrest, rfl⟩, rfl⟩

theorem FieldValue.ascii_all {xs : List FieldValue} {ws : List (List Char)}
    (h : List.Forall₂ (fun (x : FieldValue) w => x.encode = .ok w) xs ws) :
    ∀ w ∈ ws, Ascii w := by
  intro w hw
  obtain ⟨x, hx⟩ := exists_left_of_mem h hw
  exact FieldValue.ascii hx

theorem NativeValue.newline_not_mem {x : FieldValue} {v : Bytes} (h : NativeValue x v) :
    byte '\n' ∉ v := by
  obtain ⟨w, hw, rfl⟩ := h
  have hascii := FieldValue.ascii hw
  intro hnl
  obtain ⟨c, hc, hcode⟩ := List.mem_map.mp hnl
  have hlt := hascii c hc
  have heq : c = '\n' := by
    have h1 := congrArg UInt8.toNat hcode
    unfold byte at h1
    rw [UInt8.toNat_ofNat', UInt8.toNat_ofNat', Nat.mod_eq_of_lt (by omega)] at h1
    exact Char.toNat_inj.mp h1
  exact FieldValue.newline_not_mem hw (heq ▸ hc)

theorem ascii_fields : ∀ f ∈ fields, Ascii f.toList := by
  have hall : fields.all (fun f => f.toList.all fun c => c.toNat < 128) = true := by decide
  intro f hf
  exact ascii_of_all (List.all_eq_true.mp hall f hf)

theorem newline_not_mem_nativeFields : ∀ f ∈ fields, byte '\n' ∉ bytesOf f.toList := by
  decide

/-- The bytes of a payload, by the lines that the client reads. -/
theorem encodeDeviceLeasePayload_native {c : DeviceLeaseClaims} {bytes : Bytes} :
    encodeDeviceLeasePayload c = .ok bytes ↔ validateClaims c = .ok () ∧
      ∃ vs, List.Forall₂ NativeValue c.values vs ∧
        bytes = unlines (byte '\n') (fields.zipWith nativeLine vs) ∧ bytes.length ≤ 4096 := by
  have hfields : DEVICE_LEASE_FIELDS = fields := rfl
  rw [encodeDeviceLeasePayload_ok, hfields]
  refine and_congr_right fun _ => ?_
  constructor
  · rintro ⟨ws, hws, hbytes, hlen⟩
    rw [utf8_lines ascii_fields (FieldValue.ascii_all hws)] at hbytes
    exact ⟨_, NativeValue.forall₂.mpr ⟨ws, hws, rfl⟩, hbytes, hlen⟩
  · rintro ⟨vs, hvs, hbytes, hlen⟩
    obtain ⟨ws, hws, rfl⟩ := NativeValue.forall₂.mp hvs
    rw [← utf8_lines ascii_fields (FieldValue.ascii_all hws)] at hbytes
    exact ⟨ws, hws, hbytes, hlen⟩

/-- The values that the client takes are the values of claims that are valid. -/
theorem valuesClaims_ok {vs : List Bytes} {k : BoundLeaseClaims} : valuesClaims vs = some k ↔
    ∃ c : DeviceLeaseClaims, c.native = k ∧ validateClaims c = .ok () ∧
      List.Forall₂ NativeValue c.values vs := by
  constructor
  · intro h
    unfold valuesClaims at h
    split at h
    swap
    · cases h
    obtain ⟨version, hversion, h⟩ := Option.bind_eq_some_iff.mp h
    rw [Option.ite_none_left_eq_some, not_not] at h
    obtain ⟨rfl, h⟩ := h
    obtain ⟨generation, hgeneration, h⟩ := Option.bind_eq_some_iff.mp h
    obtain ⟨revocation_seq, hrevocation, h⟩ := Option.bind_eq_some_iff.mp h
    obtain ⟨issued_at, hissued, h⟩ := Option.bind_eq_some_iff.mp h
    obtain ⟨renew_after, hrenew, h⟩ := Option.bind_eq_some_iff.mp h
    obtain ⟨expires_at, hexpires, h⟩ := Option.bind_eq_some_iff.mp h
    obtain ⟨_, dpurpose, h⟩ := Option.bind_eq_some_iff.mp h
    obtain ⟨_, dkey, h⟩ := Option.bind_eq_some_iff.mp h
    obtain ⟨_, dissuer, h⟩ := Option.bind_eq_some_iff.mp h
    obtain ⟨_, daudience, h⟩ := Option.bind_eq_some_iff.mp h
    obtain ⟨_, dproject, h⟩ := Option.bind_eq_some_iff.mp h
    obtain ⟨_, dfeature, h⟩ := Option.bind_eq_some_iff.mp h
    obtain ⟨_, dfingerprint, h⟩ := Option.bind_eq_some_iff.mp h
    obtain ⟨_, dbinding, h⟩ := Option.bind_eq_some_iff.mp h
    obtain ⟨_, ddevice, h⟩ := Option.bind_eq_some_iff.mp h
    obtain ⟨_, dlease, h⟩ := Option.bind_eq_some_iff.mp h
    obtain ⟨_, doperation, h⟩ := Option.bind_eq_some_iff.mp h
    obtain ⟨hvalid, hk⟩ := Option.ite_none_right_eq_some.mp h
    rw [safe_integer_value] at hversion hgeneration hrevocation hissued hrenew hexpires
    obtain ⟨purpose, rfl, hpurpose⟩ := decodeText_value.mp dpurpose
    obtain ⟨key_id, rfl, hkey⟩ := decodeText_value.mp dkey
    obtain ⟨issuer, rfl, hissuer⟩ := decodeText_value.mp dissuer
    obtain ⟨audience, rfl, haudience⟩ := decodeText_value.mp daudience
    obtain ⟨project, rfl, hproject⟩ := decodeText_value.mp dproject
    obtain ⟨feature, rfl, hfeature⟩ := decodeText_value.mp dfeature
    obtain ⟨fingerprint, rfl, hfingerprint⟩ := decodeText_value.mp dfingerprint
    obtain ⟨binding, rfl, hbinding⟩ := decodeText_value.mp dbinding
    obtain ⟨device, rfl, hdevice⟩ := decodeText_value.mp ddevice
    obtain ⟨lease, rfl, hlease⟩ := decodeText_value.mp dlease
    obtain ⟨operation, rfl, hoperation⟩ := decodeText_value.mp doperation
    obtain rfl := Option.some.inj hk
    let c : DeviceLeaseClaims := ⟨1, purpose, key_id, issuer, audience, project, feature,
      fingerprint, binding, device, generation, revocation_seq, lease, operation, issued_at,
      renew_after, expires_at⟩
    refine ⟨c, by simp [c, DeviceLeaseClaims.native], ?_, ?_⟩
    · refine (claimsValid_native (c := c) (by simp [c]) (by simp [c]) (by simp [c])
        (by simp [c])).mp ⟨rfl, ?_⟩
      simpa [c, DeviceLeaseClaims.native] using hvalid
    · simp only [DeviceLeaseClaims.values, List.forall₂_cons, List.Forall₂.nil, and_true, c]
      exact ⟨hversion, hpurpose, hkey, hissuer, haudience, hproject, hfeature, hfingerprint,
        hbinding, hdevice, hgeneration, hrevocation, hlease, hoperation, hissued, hrenew, hexpires⟩
  · rintro ⟨c, rfl, hvalid, hvs⟩
    simp only [DeviceLeaseClaims.values, List.forall₂_cons_left_iff,
      List.forall₂_nil_left_iff] at hvs
    obtain ⟨v₀, _, h₀, ⟨v₁, _, h₁, ⟨v₂, _, h₂, ⟨v₃, _, h₃, ⟨v₄, _, h₄, ⟨v₅, _, h₅, ⟨v₆, _, h₆, ⟨v₇, _,
      h₇, ⟨v₈, _, h₈, ⟨v₉, _, h₉, ⟨v₁₀, _, h₁₀, ⟨v₁₁, _, h₁₁, ⟨v₁₂, _, h₁₂, ⟨v₁₃, _, h₁₃, ⟨v₁₄, _, h₁₄,
      ⟨v₁₅, _, h₁₅, ⟨v₁₆, _, h₁₆, rfl, rfl⟩, rfl⟩, rfl⟩, rfl⟩, rfl⟩, rfl⟩, rfl⟩, rfl⟩, rfl⟩, rfl⟩, rfl⟩,
      rfl⟩, rfl⟩, rfl⟩, rfl⟩, rfl⟩, rfl⟩ := hvs
    have hchecks := (claimsValid_native h₁₀.nonneg h₁₄.nonneg h₁₅.nonneg h₁₆.nonneg).mpr hvalid
    have hversion : c.version.toNat = 1 := by
      rw [hchecks.1]
      rfl
    unfold valuesClaims
    simp only [bind, h₀.safe_integer, h₁₀.safe_integer, h₁₁.safe_integer, h₁₄.safe_integer,
      h₁₅.safe_integer, h₁₆.safe_integer, h₁.decodeText, h₂.decodeText, h₃.decodeText,
      h₄.decodeText, h₅.decodeText, h₆.decodeText, h₇.decodeText, h₈.decodeText, h₉.decodeText,
      h₁₂.decodeText, h₁₃.decodeText, Option.bind_some, hversion]
    exact if_pos hchecks.2

/-- The client takes the payloads that the service encodes, with their claims. -/
theorem payload_claims_ok {bytes : Bytes} {k : BoundLeaseClaims} : payload_claims bytes = some k ↔
    ∃ c : DeviceLeaseClaims, c.native = k ∧ encodeDeviceLeasePayload c = .ok bytes := by
  unfold payload_claims
  simp only [bind, Option.ite_none_left_eq_some, Option.bind_eq_some_iff, Prod.exists, not_not,
    not_or, not_lt, readFields_ok newline_not_mem_nativeFields, valuesClaims_ok]
  constructor
  · rintro ⟨⟨-, hlen⟩, vs, _, ⟨hcount, -, hbytes⟩, rfl, c, hc, hvalid, hvs⟩
    rw [List.append_nil] at hbytes
    exact ⟨c, hc, encodeDeviceLeasePayload_native.mpr ⟨hvalid, vs, hvs, hbytes, hlen⟩⟩
  · rintro ⟨c, hc, hbytes⟩
    obtain ⟨hvalid, vs, hvs, hbytes, hlen⟩ := encodeDeviceLeasePayload_native.mp hbytes
    have hcount : vs.length = fields.length := hvs.length_eq.symm
    refine ⟨⟨?_, hlen⟩, vs, [], ⟨hcount, ?_, by rw [List.append_nil, hbytes]⟩, rfl, c, hc, hvalid,
      hvs⟩
    · rintro rfl
      cases hvs
      simp [fields, nativeLine] at hbytes
    · intro v hv
      obtain ⟨x, hx⟩ := exists_left_of_mem hvs hv
      exact hx.newline_not_mem

/-! ## Tokens -/

theorem version_eq : "lccdl1.".toList = "lccdl1".toList ++ ['.'] := by decide

theorem ascii_envelope (payload signature : Bytes) : Ascii (envelope payload signature) := by
  have hversion : Ascii "lccdl1.".toList := ascii_of_all (by decide)
  intro c hc
  unfold envelope at hc
  simp only [List.mem_append, List.mem_cons] at hc
  rcases hc with (hc | hc) | rfl | hc
  · exact hversion c hc
  · exact ascii_encodeBase64url payload c hc
  · decide
  · exact ascii_encodeBase64url signature c hc

theorem dot_not_mem_bytes (bytes : Bytes) : byte '.' ∉ bytesOf (encodeBase64url bytes) := by
  intro h
  obtain ⟨c, hc, hcode⟩ := List.mem_map.mp h
  have hlt := ascii_encodeBase64url bytes c hc
  have heq : c = '.' := by
    have h1 := congrArg UInt8.toNat hcode
    unfold byte at h1
    rw [UInt8.toNat_ofNat', UInt8.toNat_ofNat', Nat.mod_eq_of_lt (by omega)] at h1
    exact Char.toNat_inj.mp h1
  exact dot_not_mem bytes (heq ▸ hc)

/-- The client takes a token exactly when it is the envelope of a payload that it
takes and of a signature of its size. -/
theorem decode_bound_lease_ok {t : Bytes} {d : ParsedBoundLease} :
    decode_bound_lease t = some d ↔ t = bytesOf (envelope d.payload d.signature) ∧
      d.signature.length = 384 ∧ payload_claims d.payload = some d.claims := by
  have h7 : (bytesOf "lccdl1.".toList).length = 7 := by decide
  have hjoin : ∀ p s, bytesOf (envelope p s) = bytesOf "lccdl1.".toList ++
      (bytesOf (encodeBase64url p) ++ byte '.' :: bytesOf (encodeBase64url s)) := by
    intro p s
    unfold envelope
    rw [bytesOf_append, bytesOf_append, List.append_assoc]
    rfl
  unfold decode_bound_lease
  rw [Option.ite_none_left_eq_some, not_or, not_lt, not_not]
  constructor
  · rintro ⟨⟨-, hversion⟩, h⟩
    split at h
    · cases h
    rename_i part₁ part₂ hparts
    obtain ⟨-, hdrop⟩ := takeLine_eq_some.mp hparts
    simp only [bind, Option.ite_none_left_eq_some, Option.bind_eq_some_iff, not_not] at h
    obtain ⟨-, payload, hpayload, signature, hsignature, hsize, claims, hclaims, h⟩ := h
    obtain rfl := Option.some.inj h
    obtain ⟨rfl, -⟩ := (decode_base64url_ok (by omega)).mp hpayload
    obtain ⟨rfl, -⟩ := (decode_base64url_ok (by omega)).mp hsignature
    refine ⟨?_, hsize, hclaims⟩
    rw [hjoin, ← hdrop, ← hversion, List.take_append_drop]
  · rintro ⟨rfl, hsize, hclaims⟩
    obtain ⟨c, -, hc⟩ := payload_claims_ok.mp hclaims
    obtain ⟨-, vs, -, -, hlen⟩ := encodeDeviceLeasePayload_ok.mp hc
    refine ⟨⟨?_, ?_⟩, ?_⟩
    · rw [hjoin]
      simp only [List.length_append, List.length_cons, length_bytesOf, length_encodeBase64url, hsize]
      rw [length_bytesOf] at h7
      omega
    · rw [hjoin, ← h7, List.take_left]
    · rw [hjoin, ← h7, List.drop_left,
        takeLine_eq_some.mpr ⟨dot_not_mem_bytes d.payload, rfl⟩]
      simp only [bind, Option.ite_none_left_eq_some, Option.bind_eq_some_iff, not_not]
      exact ⟨dot_not_mem_bytes _, d.payload, (decode_base64url_ok (by omega)).mpr ⟨rfl, hlen⟩,
        d.signature, (decode_base64url_ok (by omega)).mpr ⟨rfl, Nat.le_of_eq hsize⟩, hsize,
        d.claims, hclaims, rfl⟩

/-- A decoded lease as the client has it. -/
def DecodedLease.native (d : DecodedLease) : ParsedBoundLease where
  claims := d.claims.native
  payload := d.payload
  signature := d.signature

theorem decode_bound_lease_native {t : Bytes} {k : ParsedBoundLease} :
    decode_bound_lease t = some k ↔ ∃ d, d.native = k ∧ t = bytesOf (envelope d.payload d.signature) ∧
      decodeDeviceLeaseEnvelope (envelope d.payload d.signature) = .ok d := by
  rw [decode_bound_lease_ok, payload_claims_ok]
  constructor
  · rintro ⟨ht, hsize, c, hc, henc⟩
    refine ⟨⟨k.payload, k.signature, c⟩, ?_, ht, ?_⟩
    · unfold DecodedLease.native
      rw [hc]
    · exact decodeDeviceLeaseEnvelope_ok.mpr ⟨rfl, hsize, henc⟩
  · rintro ⟨d, rfl, ht, hd⟩
    obtain ⟨-, hsize, henc⟩ := decodeDeviceLeaseEnvelope_ok.mp hd
    exact ⟨ht, hsize, d.claims, rfl, henc⟩

/-- The client decodes the bytes of a token as the service decodes the token, when
the token that the service reads has the bytes. -/
theorem decode_bound_lease_eq {t : Bytes} {token : List Char}
    (h : ∀ p s, t = bytesOf (envelope p s) ↔ token = envelope p s) :
    decode_bound_lease t = (decodeDeviceLeaseEnvelope token).toOption.map DecodedLease.native := by
  apply Option.ext
  intro k
  rw [decode_bound_lease_native, Option.map_eq_some_iff]
  have hok : ∀ d, (decodeDeviceLeaseEnvelope token).toOption = some d ↔
      decodeDeviceLeaseEnvelope token = .ok d := by
    intro d
    cases decodeDeviceLeaseEnvelope token <;> simp [Except.toOption]
  simp only [hok, h]
  constructor
  · rintro ⟨d, rfl, rfl, hd⟩
    exact ⟨d, hd, rfl⟩
  · rintro ⟨d, hd, rfl⟩
    have htoken := (decodeDeviceLeaseEnvelope_ok.mp hd).1
    exact ⟨d, rfl, htoken, htoken ▸ hd⟩

theorem nonneg_of_mem {c : DeviceLeaseClaims} {bytes : Bytes} {n : Int}
    (h : encodeDeviceLeasePayload c = .ok bytes) (hn : .integer n ∈ c.values) : 0 ≤ n := by
  obtain ⟨-, vs, hvs, -⟩ := encodeDeviceLeasePayload_ok.mp h
  obtain ⟨v, hv⟩ := exists_left_of_mem hvs.flip hn
  exact (integer_ok.mp hv).1.1

theorem toNat_injective {m n : Int} (hm : 0 ≤ m) (hn : 0 ≤ n) (h : m.toNat = n.toNat) : m = n := by
  omega

/-- Claims that are encoded are determined by what the client has of them. -/
theorem native_injective {c c' : DeviceLeaseClaims} {p p' : Bytes}
    (h : encodeDeviceLeasePayload c = .ok p) (h' : encodeDeviceLeasePayload c' = .ok p')
    (he : c.native = c'.native) : c = c' := by
  obtain ⟨⟨hversion, hpurpose⟩, -⟩ := validateClaims_ok.mp (encodeDeviceLeasePayload_ok.mp h).1
  obtain ⟨⟨hversion', hpurpose'⟩, -⟩ := validateClaims_ok.mp (encodeDeviceLeasePayload_ok.mp h').1
  have hn := fun n => @nonneg_of_mem c p n h
  have hn' := fun n => @nonneg_of_mem c' p' n h'
  unfold DeviceLeaseClaims.native at he
  unfold DeviceLeaseClaims.values at hn hn'
  cases c
  cases c'
  simp only [BoundLeaseClaims.mk.injEq] at he
  obtain ⟨h1, h2, h3, h4, h5, h6, h7, h8, h9, h10, h11, h12, h13, h14, h15⟩ := he
  rw [DeviceLeaseClaims.mk.injEq]
  refine ⟨hversion.trans hversion'.symm, hpurpose.trans hpurpose'.symm, utf8_injective h1,
    utf8_injective h2, utf8_injective h3, utf8_injective h4, utf8_injective h5, utf8_injective h6,
    utf8_injective h7, utf8_injective h8, ?_, ?_, utf8_injective h9, utf8_injective h10, ?_, ?_, ?_⟩
  · exact toNat_injective (hn _ (by simp)) (hn' _ (by simp)) h11
  · exact toNat_injective (hn _ (by simp)) (hn' _ (by simp)) h12
  · exact toNat_injective (hn _ (by simp)) (hn' _ (by simp)) h13
  · exact toNat_injective (hn _ (by simp)) (hn' _ (by simp)) h14
  · exact toNat_injective (hn _ (by simp)) (hn' _ (by simp)) h15

/-- The two codecs agree. The client and the service accept the same tokens and give
the same claims, payload and signature, whether the service reads one character for
each byte or the bytes as a text. What is encoded is decoded again, what is decoded is
encoded again, and the claims determine the payload. -/
theorem the_two_lease_codecs_agree :
    (∀ t : Bytes, decode_bound_lease t =
      (decodeDeviceLeaseEnvelope (binary t)).toOption.map DecodedLease.native) ∧
    (∀ token : List Char, decode_bound_lease (utf8 token) =
      (decodeDeviceLeaseEnvelope token).toOption.map DecodedLease.native) ∧
    (∀ c bytes, encodeDeviceLeasePayload c = .ok bytes →
      decodeDeviceLeasePayload bytes = .ok c ∧
      ∀ signature : Bytes, signature.length = 384 → ∃ token,
        encodeDeviceLeaseEnvelope bytes signature = .ok token ∧
        decodeDeviceLeaseEnvelope token = .ok ⟨bytes, signature, c⟩) ∧
    (∀ token d, decodeDeviceLeaseEnvelope token = .ok d →
      encodeDeviceLeasePayload d.claims = .ok d.payload ∧
      encodeDeviceLeaseEnvelope d.payload d.signature = .ok token) ∧
    (∀ t t' k k', decode_bound_lease t = some k → decode_bound_lease t' = some k' →
      k.claims = k'.claims → k.payload = k'.payload) := by
  refine ⟨?_, ?_, ?_, ?_, ?_⟩
  · intro t
    apply decode_bound_lease_eq
    intro p s
    constructor
    · rintro rfl
      exact binary_bytesOf (ascii_envelope p s)
    · intro h
      rw [← bytesOf_binary t, h]
  · intro token
    apply decode_bound_lease_eq
    intro p s
    rw [← utf8_ascii (ascii_envelope p s)]
    exact ⟨fun h => utf8_injective h, congrArg utf8⟩
  · intro c bytes h
    refine ⟨decodeDeviceLeasePayload_ok.mpr h, fun signature hsize => ?_⟩
    exact ⟨envelope bytes signature, encodeDeviceLeaseEnvelope_ok.mpr ⟨⟨c, h⟩, hsize, rfl⟩,
      decodeDeviceLeaseEnvelope_ok.mpr ⟨rfl, hsize, h⟩⟩
  · intro token d hd
    obtain ⟨htoken, hsize, henc⟩ := decodeDeviceLeaseEnvelope_ok.mp hd
    exact ⟨henc, encodeDeviceLeaseEnvelope_ok.mpr ⟨⟨_, henc⟩, hsize, htoken⟩⟩
  · intro t t' k k' hk hk' hclaims
    obtain ⟨-, -, hp⟩ := decode_bound_lease_ok.mp hk
    obtain ⟨-, -, hp'⟩ := decode_bound_lease_ok.mp hk'
    obtain ⟨c, hc, henc⟩ := payload_claims_ok.mp hp
    obtain ⟨c', hc', henc'⟩ := payload_claims_ok.mp hp'
    obtain rfl := native_injective henc henc' (hc.trans (hclaims.trans hc'.symm))
    rw [henc] at henc'
    exact Except.ok.inj henc'

end Licensecc.Protocol
