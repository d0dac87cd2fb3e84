-- The checks of the client and of the service on one value. A check of the
-- client holds of the bytes of a text exactly when the check of the service
-- holds of the text.
import Licensecc.Protocol.Native

open Licensecc.Codec

namespace Licensecc.Protocol

/-! ## Classes of characters -/

/-- The codes of `[A-Za-z0-9]`. -/
def alphanumCode (n : Nat) : Bool :=
  (65 ≤ n && n ≤ 90) || (97 ≤ n && n ≤ 122) || (48 ≤ n && n ≤ 57)

def nameCode (n : Nat) : Bool := alphanumCode n || n = 95 || n = 46 || n = 58 || n = 45

def hexCode (n : Nat) : Bool := (48 ≤ n && n ≤ 57) || (97 ≤ n && n ≤ 102)

theorem char_eq_iff (c d : Char) : decide (c = d) = decide (c.toNat = d.toNat) :=
  decide_eq_decide.mpr Char.toNat_inj.symm

theorem char_le_iff (c d : Char) : decide (c ≤ d) = decide (c.toNat ≤ d.toNat) := by
  rw [decide_eq_decide, Char.le_def, UInt32.le_iff_toNat_le]
  rfl

theorem byte_eq_iff (b : UInt8) {d : Char} (hd : d.toNat < 256) :
    decide (b = byte d) = decide (b.toNat = d.toNat) := by
  rw [decide_eq_decide, ← UInt8.toNat_inj]
  unfold byte
  rw [UInt8.toNat_ofNat', Nat.mod_eq_of_lt hd]

theorem isAlphanum_eq (c : Char) : c.isAlphanum = alphanumCode c.toNat := by
  rw [Bool.eq_iff_iff]
  have hupper : c.isUpper = decide (c.val ≥ 'A'.val ∧ c.val ≤ 'Z'.val) := rfl
  unfold Char.isAlphanum Char.isAlpha
  rw [hupper]
  unfold Char.isLower Char.isDigit alphanumCode
  simp only [Bool.or_eq_true, Bool.and_eq_true, decide_eq_true_eq, ge_iff_le,
    UInt32.le_iff_toNat_le]
  exact Iff.rfl

theorem namePattern_eq (max : Nat) (s : List Char) : namePattern max s =
    (s.all (fun c => nameCode c.toNat) && 1 ≤ s.length && s.length ≤ max) := by
  unfold namePattern nameCode
  simp only [isAlphanum_eq, char_eq_iff]
  rfl

theorem hexPattern_eq (s : List Char) : hexPattern s =
    (s.all (fun c => hexCode c.toNat) && s.length = 64) := by
  have hchar : ∀ c : Char, (('a' ≤ c && c ≤ 'f') || c.isDigit) = hexCode c.toNat := by
    intro c
    rw [char_le_iff, char_le_iff, Bool.or_comm]
    rfl
  unfold hexPattern
  simp only [hchar]

theorem name_eq (v : Bytes) (maximum : Nat) : name v maximum =
    (v ≠ [] && v.length ≤ maximum && v.all fun b => nameCode b.toNat) := by
  unfold name nameCode alphanumCode inRange
  simp only [byte_eq_iff _ (show ('_' : Char).toNat < 256 by decide),
    byte_eq_iff _ (show ('.' : Char).toNat < 256 by decide),
    byte_eq_iff _ (show (':' : Char).toNat < 256 by decide),
    byte_eq_iff _ (show ('-' : Char).toNat < 256 by decide)]
  rfl

theorem hex_digest_eq (v : Bytes) : hex_digest v =
    (v.length = 64 && v.all fun b => hexCode b.toNat) := rfl

theorem nameCode_lt : ∀ n, nameCode n = true → n < 128 := by
  intro n h
  unfold nameCode alphanumCode at h
  simp only [Bool.or_eq_true, Bool.and_eq_true, decide_eq_true_eq] at h
  omega

theorem hexCode_lt : ∀ n, hexCode n = true → n < 128 := by
  intro n h
  unfold hexCode at h
  simp only [Bool.or_eq_true, Bool.and_eq_true, decide_eq_true_eq] at h
  omega

/-- A text in a class of ASCII codes has one byte for each character. -/
theorem length_utf8_of_all {p : Nat → Bool} (hp : ∀ n, p n = true → n < 128) {s : List Char}
    (h : s.all (fun c => p c.toNat) = true) : (utf8 s).length = s.length := by
  have hascii : Ascii s := fun c hc => hp _ (List.all_eq_true.mp h c hc)
  rw [utf8_ascii hascii, length_bytesOf]

/-! ## The same checks -/

theorem name_utf8 (s : List Char) (max : Nat) : name (utf8 s) max = namePattern max s := by
  rw [name_eq, namePattern_eq, utf8_all nameCode_lt]
  by_cases h : s.all (fun c => nameCode c.toNat) = true
  · rw [h, length_utf8_of_all nameCode_lt h]
    cases s with
    | nil => simp
    | cons c s => simp
  · simp [h]

theorem hex_digest_utf8 (s : List Char) : hex_digest (utf8 s) = hexPattern s := by
  rw [hex_digest_eq, hexPattern_eq, utf8_all hexCode_lt]
  by_cases h : s.all (fun c => hexCode c.toNat) = true
  · rw [h, length_utf8_of_all hexCode_lt h]
    simp
  · simp [h]

/-- The text of a prefix of ASCII characters has the prefix of their bytes. -/
theorem take_utf8 {s p : List Char} (hp : Ascii p) :
    (utf8 s).take p.length = bytesOf p ↔ s.take p.length = p := by
  induction p generalizing s with
  | nil => simp [bytesOf]
  | cons c p ih =>
    cases s with
    | nil => simp [bytesOf]
    | cons d s =>
      have hc : c.toNat < 128 := hp c List.mem_cons_self
      have hp' : Ascii p := fun e he => hp e (List.mem_cons_of_mem _ he)
      rw [utf8_cons]
      by_cases hd : d.toNat < 128
      · have hbyte : UInt8.ofNat d.toNat = UInt8.ofNat c.toNat ↔ d = c := by
          rw [← UInt8.toNat_inj, UInt8.toNat_ofNat', UInt8.toNat_ofNat',
            Nat.mod_eq_of_lt (by omega), Nat.mod_eq_of_lt (by omega), Char.toNat_inj]
        rw [utf8EncodeChar_ascii hd]
        simp only [List.length_cons, List.singleton_append, List.take_succ_cons, bytesOf,
          List.map_cons, List.cons.injEq, hbyte]
        exact and_congr_right fun _ => ih hp'
      · obtain ⟨b, bs, hb⟩ := List.exists_cons_of_ne_nil (utf8EncodeChar_ne_nil d)
        have hhigh := utf8EncodeChar_high hd b (hb ▸ List.mem_cons_self)
        rw [hb]
        simp only [List.length_cons, List.cons_append, List.take_succ_cons, bytesOf,
          List.map_cons, List.cons.injEq]
        constructor
        · rintro ⟨rfl, -⟩
          rw [UInt8.toNat_ofNat'] at hhigh
          omega
        · rintro ⟨rfl, -⟩
          exact absurd hc hd

theorem key_id_valid_utf8 (s : List Char) : key_id_valid (utf8 s) = keyPattern s := by
  have hp : Ascii "sha256:".toList := ascii_of_all (by decide)
  have htake := @take_utf8 s _ hp
  have h7 : "sha256:".toList.length = 7 := by decide
  rw [h7] at htake
  unfold key_id_valid keyPattern
  by_cases h : s.take 7 = "sha256:".toList
  · have hs : s = "sha256:".toList ++ s.drop 7 := by
      rw [← h, List.take_append_drop]
    have hdrop : (utf8 s).drop 7 = utf8 (s.drop 7) := by
      conv => lhs; rw [hs]
      rw [utf8_append, utf8_ascii hp]
      exact List.drop_left' (by rw [length_bytesOf, h7])
    have hlen : (utf8 s).length = 7 + (utf8 (s.drop 7)).length := by
      rw [← hdrop, List.length_drop]
      have h1 := congrArg List.length (htake.mpr h)
      rw [List.length_take, length_bytesOf, h7] at h1
      omega
    rw [hdrop, hex_digest_utf8, decide_eq_true (htake.mpr h), decide_eq_true h, hlen]
    by_cases hx : hexPattern (s.drop 7) = true
    · have hx' := hx
      rw [← hex_digest_utf8, hex_digest_eq, Bool.and_eq_true, decide_eq_true_eq] at hx'
      rw [hx, hx'.1]
      rfl
    · simp [hx]
  · rw [decide_eq_false h, decide_eq_false (fun h' => h (htake.mp h'))]
    simp

theorem ascii_toDigits (n : Nat) : Ascii (Nat.toDigits 10 n) := by
  intro c hc
  have hd := Nat.isDigit_of_mem_toDigits (b := 10) (by omega) (by omega) hc
  have := isDigit_toNat hd
  omega

/-- The numerals that the client reads are those that the service writes. -/
theorem safe_integer_ok {v : Bytes} {n : Nat} : safe_integer v = some n ↔
    n ≤ 9007199254740991 ∧ v = bytesOf (Nat.toDigits 10 n) := by
  have hdigit : ∀ b : UInt8, inRange '0' '9' b = (Char.ofNat b.toNat).isDigit := by
    intro b
    have hcode : (Char.ofNat b.toNat).val.toNat = b.toNat := toNat_byteOf b
    rw [Bool.eq_iff_iff]
    unfold inRange Char.isDigit
    simp only [Bool.and_eq_true, decide_eq_true_eq, ge_iff_le, UInt32.le_iff_toNat_le, hcode]
    exact Iff.rfl
  have hnumeral : isNumeral (binary v) = true ↔
      ¬ (v = [] ∨ (1 < v.length ∧ v.head? = some (byte '0')) ∨ ¬ v.all (inRange '0' '9')) := by
    rw [isNumeral_iff]
    have hall : (∀ c ∈ binary v, c.isDigit) ↔ v.all (inRange '0' '9') = true := by
      unfold binary
      simp only [List.mem_map, forall_exists_index, and_imp, forall_apply_eq_imp_iff₂,
        List.all_eq_true, hdigit]
    have hhead : (binary v).head? = some '0' ↔ v.head? = some (byte '0') := by
      cases v with
      | nil => simp [binary]
      | cons b v =>
        simp only [binary, List.map_cons, List.head?_cons, Option.some.injEq]
        rw [← Char.toNat_inj, toNat_byteOf, ← UInt8.toNat_inj]
        rfl
    have hnil : binary v = [] ↔ v = [] := by simp [binary]
    simp only [hall, length_binary, ne_eq, hhead, hnil]
    have hlen : v ≠ [] → 1 ≤ v.length := fun h => List.length_pos_iff.mpr h
    constructor
    · rintro ⟨h1, h2, h3⟩ (h | ⟨h4, h5⟩ | h)
      · exact h1 h
      · rcases h3 with h3 | h3
        · omega
        · exact h3 h5
      · exact h h2
    · intro h
      have hne : v ≠ [] := fun h0 => h (.inl h0)
      refine ⟨hne, by_contra fun h2 => h (.inr (.inr h2)), ?_⟩
      by_contra h3
      rw [not_or, not_not] at h3
      have := hlen hne
      exact h (.inr (.inl ⟨by omega, h3.2⟩))
  unfold safe_integer
  constructor
  · intro h
    split at h
    · cases h
    rename_i hform
    dsimp only at h
    split at h
    · cases h
    rename_i hrange
    obtain rfl := Option.some.inj h
    refine ⟨by omega, ?_⟩
    rw [decimalValue_eq, toDigits_value (hnumeral.mpr hform), bytesOf_binary]
  · rintro ⟨hle, hv⟩
    have hback : binary v = Nat.toDigits 10 n := by
      rw [hv, binary_bytesOf (ascii_toDigits n)]
    have hvalue : decimalValue v = n := by
      rw [decimalValue_eq, hback, Nat.ofDigitChars_ten_toDigits]
    rw [if_neg (hnumeral.mp (hback ▸ isNumeral_toDigits n)), hvalue]
    dsimp only
    rw [if_neg (by omega)]

/-! ## Tokens -/

/-- The digit of the last byte, as `token` reads it. -/
def tokenDigit (last : UInt8) : Nat :=
  if inRange 'A' 'Z' last then last.toNat - 'A'.toNat
  else if inRange 'a' 'z' last then last.toNat - 'a'.toNat + 26
  else if inRange '0' '9' last then last.toNat - '0'.toNat + 52
  else if last = byte '-' then 62
  else 63

set_option maxRecDepth 20000 in
theorem tokenDigit_eq {d : Nat} (h : d < 64) : tokenDigit (byte (urlAlphabet.getD d 'A')) = d := by
  have hall : ∀ d < 64, tokenDigit (byte (urlAlphabet.getD d 'A')) = d := by decide
  exact hall d h

/-- A value of digits. -/
def urlDigits (ds : List Nat) : Bytes := ds.map fun d => byte (urlAlphabet.getD d 'A')

theorem bytesOf_encodeBase64url (bytes : Bytes) :
    bytesOf (encodeBase64url bytes) = urlDigits (sextets bytes) := by
  rw [encodeBase64url_eq]
  unfold bytesOf encode64 urlDigits byte
  rw [List.map_map]
  rfl

/-- The characters of the alphabet are those at its 64 places. -/
theorem mem_urlAlphabet {c : Char} :
    c ∈ urlAlphabet ↔ ∃ d < 64, urlAlphabet.getD d 'A' = c := by
  constructor
  · intro h
    obtain ⟨d, hd, rfl⟩ := List.getElem_of_mem h
    exact ⟨d, hd, List.getD_eq_getElem _ _ hd⟩
  · rintro ⟨d, hd, rfl⟩
    have hlen : d < urlAlphabet.length := hd
    rw [List.getD_eq_getElem _ _ hlen]
    exact List.getElem_mem hlen

theorem exists_urlDigits {v : Bytes} (h : v.all base64urlByte) :
    ∃ ds, (∀ d ∈ ds, d < 64) ∧ v = urlDigits ds := by
  induction v with
  | nil => exact ⟨[], by simp, rfl⟩
  | cons b v ih =>
    rw [List.all_cons, Bool.and_eq_true] at h
    obtain ⟨ds, hlt, rfl⟩ := ih h.2
    obtain ⟨c, hc, rfl⟩ := mem_base64urlByte h.1
    obtain ⟨d, hd, rfl⟩ := mem_urlAlphabet.mp hc
    refine ⟨d :: ds, ?_, rfl⟩
    intro e he
    rcases List.mem_cons.mp he with rfl | he
    · exact hd
    · exact hlt e he

theorem getLastD_urlDigits {ds : List Nat} (h : ds ≠ []) :
    (urlDigits ds).getLastD 0 = byte (urlAlphabet.getD (ds.getLastD 0) 'A') := by
  obtain ⟨ds', d, rfl⟩ := (List.eq_nil_or_concat' ds).resolve_left h
  simp [urlDigits]

theorem token_eq {v : Bytes} {size : Nat} (hsize : size = 16 ∨ size = 32) :
    token v size = true ↔ v.length = (size * 8 + 5) / 6 ∧ v.all base64urlByte = true ∧
      tokenDigit (v.getLastD 0) % 2 ^ (v.length * 6 - size * 8) = 0 := by
  have hs : (decide (size = 16) || decide (size = 32)) = true := by simpa using hsize
  unfold token
  rw [hs, Bool.true_and, Bool.and_eq_true, Bool.and_eq_true, decide_eq_true_eq, and_assoc]
  have hdigit : ∀ k, tokenDigit (v.getLastD 0) &&& (1 <<< k - 1) =
      tokenDigit (v.getLastD 0) % 2 ^ k := by
    intro k
    rw [Nat.one_shiftLeft, Nat.and_two_pow_sub_one_eq_mod]
  rw [← hdigit]
  unfold tokenDigit
  simp

/-- A token is the base64url of as many bytes. -/
theorem token_ok {v : Bytes} {size : Nat} (hsize : size = 16 ∨ size = 32) :
    token v size = true ↔ ∃ bytes, bytesOf (encodeBase64url bytes) = v ∧ bytes.length = size := by
  rw [token_eq hsize]
  constructor
  · rintro ⟨hlen, hall, hbits⟩
    obtain ⟨ds, hlt, rfl⟩ := exists_urlDigits hall
    have hds : ds.length = (size * 8 + 5) / 6 := by
      rw [← hlen]
      exact (List.length_map _).symm
    have hne : ds ≠ [] := by
      rintro rfl
      simp only [List.length_nil] at hds
      omega
    have hlast : ds.getLastD 0 < 64 := by
      rw [List.getLastD_eq_getLast?, List.getLast?_eq_some_getLast hne]
      exact hlt _ (List.getLast_mem hne)
    rw [getLastD_urlDigits hne, tokenDigit_eq hlast, hlen] at hbits
    have hspare : spareless ds := by
      unfold spareless
      rw [hds]
      rcases hsize with rfl | rfl
      · exact ⟨fun _ => hbits, fun h => by simp at h⟩
      · exact ⟨fun h => by simp at h, fun _ => hbits⟩
    obtain ⟨bytes, hbytes⟩ := @octets_isSome ds (by omega)
    have hback := sextets_octets hlt hspare hbytes
    refine ⟨bytes, ?_, ?_⟩
    · rw [bytesOf_encodeBase64url, hback]
    · have hcount := length_sextets bytes
      rw [hback, hds] at hcount
      omega
  · rintro ⟨bytes, rfl, rfl⟩
    have hlen := length_sextets bytes
    have hne : sextets bytes ≠ [] := by
      intro h0
      rw [h0, List.length_nil] at hlen
      omega
    have hlast : (sextets bytes).getLastD 0 < 64 := by
      rw [List.getLastD_eq_getLast?, List.getLast?_eq_some_getLast hne]
      exact sextets_lt bytes _ (List.getLast_mem hne)
    have hcount : (bytesOf (encodeBase64url bytes)).length = (bytes.length * 8 + 5) / 6 := by
      rw [length_bytesOf, length_encodeBase64url]
      omega
    refine ⟨hcount, ?_, ?_⟩
    · rw [bytesOf_encodeBase64url, List.all_eq_true]
      intro b hb
      obtain ⟨d, hd, rfl⟩ := List.mem_map.mp hb
      exact base64urlByte_of_mem (mem_urlAlphabet.mpr ⟨d, sextets_lt bytes d hd, rfl⟩)
    · rw [hcount, bytesOf_encodeBase64url, getLastD_urlDigits hne, tokenDigit_eq hlast]
      have hspare := spareless_sextets bytes
      unfold spareless at hspare
      rw [hlen] at hspare
      rcases hsize with h | h
      · rw [h] at hspare ⊢
        exact hspare.1 rfl
      · rw [h] at hspare ⊢
        exact hspare.2 rfl

theorem ascii_encodeBase64url (bytes : Bytes) : Ascii (encodeBase64url bytes) := by
  intro c hc
  have hascii : Ascii urlAlphabet := ascii_of_all (by decide)
  rw [encodeBase64url_eq] at hc
  exact hascii c (mem_of_encode64 rfl hc)

theorem utf8_encodeBase64url (bytes : Bytes) :
    utf8 (encodeBase64url bytes) = bytesOf (encodeBase64url bytes) :=
  utf8_ascii (ascii_encodeBase64url bytes)

theorem identity_ok {s : List Char} {size : Nat} : identity s size = .ok () ↔
    ∃ bytes, encodeBase64url bytes = s ∧ bytes.length = size := by
  unfold identity
  rw [bind_eq_ok]
  constructor
  · rintro ⟨bytes, hbytes, h⟩
    unfold ensure at h
    split at h
    · exact ⟨bytes, (decodeBase64url_ok.mp hbytes).1, ‹_›⟩
    · cases h
  · rintro ⟨bytes, rfl, rfl⟩
    refine ⟨bytes, decodeBase64url_ok.mpr ⟨rfl, Nat.le_refl _⟩, ?_⟩
    unfold ensure
    rw [if_pos rfl]

theorem token_utf8 {s : List Char} {size : Nat} (hsize : size = 16 ∨ size = 32) :
    token (utf8 s) size = true ↔ identity s size = .ok () := by
  rw [token_ok hsize, identity_ok]
  constructor
  · rintro ⟨bytes, h, hlen⟩
    rw [← utf8_encodeBase64url] at h
    exact ⟨bytes, utf8_injective h, hlen⟩
  · rintro ⟨bytes, rfl, hlen⟩
    exact ⟨bytes, (utf8_encodeBase64url bytes).symm, hlen⟩

end Licensecc.Protocol
