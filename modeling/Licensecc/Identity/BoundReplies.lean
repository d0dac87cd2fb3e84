-- What the client takes of a reply: exactly the texts of the grammar of JSON that are
-- objects, without arrays and nulls, within the bounds on depth, members and names. The
-- value is the one that the text stands for.
import Licensecc.Identity.BoundJson

open Licensecc.Codec Licensecc.Protocol

namespace Licensecc.Identity.BoundJson

/-! ## What the parser is for -/

mutual

/-- The value that a text stands for. -/
def denoted : Json.Tree → Value
  | .bool b => { type := .boolean, boolean := b }
  | .number n => { type := .number, number := Nat.ofDigitChars 10 n.val 0 }
  | .string t => { type := .text, text := encode t }
  | .object members => { fields := denotedMembers members }
  | .null => {}
  | .array _ => {}

def denotedMembers : List (JsText × Json.Tree) → List (Bytes × Value)
  | [] => []
  | (name, v) :: l => (encode name, denoted v) :: denotedMembers l

end

/-- What is asked of each value in a reply. -/
def Admitted : Json.Tree → Prop
  | .null => False
  | .array _ => False
  | .bool _ => True
  | .number n => SafeNumeral n.val
  | .string t => Whole t
  | .object members => (members.map (·.1)).Nodup ∧ members.length ≤ 32 ∧
      ∀ m ∈ members, Whole m.1 ∧ (encode m.1).length ≤ 1024

/-- Some bytes are a reply, and this is what they say. -/
structure Reply (source : Bytes) (tree : Json.Tree) : Prop where
  text : ∃ cs, source = utf8 cs ∧ Spells cs (.element tree)
  length : source.length ≤ 16384
  object : ∃ members, tree = .object members
  depth : tree.depth ≤ 4
  admitted : Everywhere Admitted tree

theorem denotedMembers_eq (members : List (JsText × Json.Tree)) :
    denotedMembers members = members.map fun m => (encode m.1, denoted m.2) := by
  induction members with
  | nil => rfl
  | cons m l ih =>
    obtain ⟨name, v⟩ := m
    rw [denotedMembers, ih]
    rfl

/-- A value is shallow enough for where it stands, and each value in it is admitted. The
reply itself stands at depth 1. -/
def Fits (d : Nat) (v : Json.Tree) : Prop := d + v.depth ≤ 5 ∧ Everywhere Admitted v

/-- What is asked of a member of an object at some depth. -/
def MemberFits (d : Nat) (m : JsText × Json.Tree) : Prop :=
  Whole m.1 ∧ (encode m.1).length ≤ 1024 ∧ Fits (d + 1) m.2

theorem fits_object {d : Nat} {l : List (JsText × Json.Tree)} : Fits d (.object l) ↔
    d ≤ 4 ∧ (l.map (·.1)).Nodup ∧ l.length ≤ 32 ∧ ∀ m ∈ l, MemberFits d m := by
  unfold Fits
  rw [depth_object, everywhere_object]
  constructor
  · rintro ⟨⟨hd, hdepth⟩, ⟨hnodup, hlen, hnames⟩, hadmitted⟩
    exact ⟨by omega, hnodup, hlen, fun m hm =>
      ⟨(hnames m hm).1, (hnames m hm).2, hdepth m hm, hadmitted m hm⟩⟩
  · rintro ⟨hd, hnodup, hlen, h⟩
    exact ⟨⟨by omega, fun m hm => (h m hm).2.2.1⟩,
      ⟨hnodup, hlen, fun m hm => ⟨(h m hm).1, (h m hm).2.1⟩⟩, fun m hm => (h m hm).2.2.2⟩

/-- Names are told apart by their bytes. -/
theorem names_nodup {l : List (JsText × Json.Tree)} (hwhole : ∀ m ∈ l, Whole m.1) :
    (l.map fun m => encode m.1).Nodup ↔ (l.map (·.1)).Nodup := by
  have hmap : (l.map fun m => encode m.1) = (l.map (·.1)).map encode := by
    rw [List.map_map]
    rfl
  rw [hmap]
  constructor
  · exact List.Nodup.of_map encode
  · intro h
    apply List.Nodup.map_on _ h
    intro s hs t ht heq
    obtain ⟨m, hm, rfl⟩ := List.mem_map.mp hs
    obtain ⟨m', hm', rfl⟩ := List.mem_map.mp ht
    exact encode_injective (hwhole m hm) (hwhole m' hm') heq

/-! ## Bytes and characters -/

theorem isSpaceByte_byte {c : Char} (hc : c.toNat < 128) :
    isSpaceByte (byte c) = isJsonSpace c := by
  have hdecide : ∀ d : Char, d.toNat < 128 → decide (byte c = byte d) = decide (c = d) := by
    intro d hd
    rw [decide_eq_decide]
    exact ⟨byte_inj hc hd, fun h => h ▸ rfl⟩
  unfold isSpaceByte isJsonSpace
  rw [hdecide _ (by decide), hdecide _ (by decide), hdecide _ (by decide), hdecide _ (by decide)]
  cases decide (c = ' ') <;> cases decide (c = '\t') <;> cases decide (c = '\n') <;>
    cases decide (c = '\r') <;> rfl

theorem isSpaceByte_high {b : UInt8} (h : 128 ≤ b.toNat) : isSpaceByte b = false := by
  have hne : ∀ c : Char, c.toNat < 128 → b ≠ byte c := by
    rintro c hc rfl
    rw [toNat_byte hc] at h
    omega
  unfold isSpaceByte
  rw [decide_eq_false (hne _ (by decide)), decide_eq_false (hne _ (by decide)),
    decide_eq_false (hne _ (by decide)), decide_eq_false (hne _ (by decide))]
  rfl

/-- A class of characters below 128 and the same class of bytes. -/
structure SameClass (p : UInt8 → Bool) (q : Char → Bool) : Prop where
  plain : ∀ c, c.toNat < 128 → p (byte c) = q c
  high : ∀ b : UInt8, 128 ≤ b.toNat → p b = false
  ascii : ∀ c, q c = true → c.toNat < 128

theorem SameClass.dropWhile {p : UInt8 → Bool} {q : Char → Bool} (h : SameClass p q)
    (s : List Char) : (utf8 s).dropWhile p = utf8 (s.dropWhile q) := by
  induction s with
  | nil => rfl
  | cons c s ih =>
    by_cases hc : c.toNat < 128
    · rw [utf8_plain hc]
      cases hq : q c with
      | true =>
        rw [List.dropWhile_cons_of_pos (by rw [h.plain c hc, hq]),
          List.dropWhile_cons_of_pos hq, ih]
      | false =>
        rw [List.dropWhile_cons_of_neg (by rw [h.plain c hc, hq]; exact Bool.false_ne_true),
          List.dropWhile_cons_of_neg (by rw [hq]; exact Bool.false_ne_true), utf8_plain hc]
    · have hq : ¬q c = true := fun hq => hc (h.ascii c hq)
      obtain ⟨b, r, hb, hhigh⟩ := utf8_high hc s
      rw [List.dropWhile_cons_of_neg hq, hb,
        List.dropWhile_cons_of_neg (by rw [h.high b hhigh]; exact Bool.false_ne_true)]

theorem SameClass.takeWhile {p : UInt8 → Bool} {q : Char → Bool} (h : SameClass p q)
    (s : List Char) : (utf8 s).takeWhile p = utf8 (s.takeWhile q) := by
  have hsplit : (utf8 s).takeWhile p ++ (utf8 s).dropWhile p = utf8 s :=
    List.takeWhile_append_dropWhile
  have hsplit' : utf8 (s.takeWhile q) ++ utf8 (s.dropWhile q) = utf8 s := by
    rw [← utf8_append, List.takeWhile_append_dropWhile]
  rw [h.dropWhile] at hsplit
  exact List.append_cancel_right (hsplit.trans hsplit'.symm)

theorem spaceClass : SameClass isSpaceByte isJsonSpace where
  plain := fun _ hc => isSpaceByte_byte hc
  high := fun _ hb => isSpaceByte_high hb
  ascii := by
    intro c hc
    unfold isJsonSpace at hc
    simp only [Bool.or_eq_true, decide_eq_true_eq] at hc
    rcases hc with ((rfl | rfl) | rfl) | rfl
    · decide
    · decide
    · decide
    · decide

theorem digitClass : SameClass (inRange '0' '9') Char.isDigit where
  plain := by
    intro c hc
    unfold inRange Char.isDigit
    rw [toNat_byte hc]
    rfl
  high := by
    intro b hb
    have h9 : ('9' : Char).toNat = 57 := rfl
    unfold inRange
    simp only [Bool.and_eq_false_iff, decide_eq_false_iff_not]
    omega
  ascii := by
    intro c hc
    have := isDigit_toNat hc
    omega

theorem whitespace_utf8 (s : List Char) : whitespace (utf8 s) = utf8 (s.dropWhile isJsonSpace) :=
  spaceClass.dropWhile s

theorem take_utf8 {c : Char} (hc : c.toNat < 128) {s : List Char} {r : Bytes} :
    take c (utf8 s) = some r ↔ ∃ t, s.dropWhile isJsonSpace = c :: t ∧ r = utf8 t := by
  unfold take
  rw [whitespace_utf8]
  constructor
  · intro h
    split at h
    · cases h
    · rename_i d r' heq
      split at h
      · rename_i hd
        subst hd
        obtain rfl := Option.some.inj h
        obtain ⟨d, t, hs, hd, hbyte, rfl⟩ := utf8_head heq (by rw [toNat_byte hc]; exact hc)
        obtain rfl := byte_inj hc hd hbyte
        exact ⟨t, hs, rfl⟩
      · cases h
  · rintro ⟨t, hs, rfl⟩
    rw [hs, utf8_plain hc]
    exact if_pos rfl

/-- White space before a character that is taken. -/
theorem take_sound {c : Char} (hc : c.toNat < 128) {s : List Char} {r : Bytes}
    (h : take c (utf8 s) = some r) : ∃ w t, Blank w ∧ s = w ++ c :: t ∧ r = utf8 t := by
  obtain ⟨t, hs, rfl⟩ := (take_utf8 hc).mp h
  refine ⟨_, t, blank_takeWhile s, ?_, rfl⟩
  conv => lhs; rw [space_append s, hs]

theorem take_complete {c : Char} (hc : c.toNat < 128) (hspace : isJsonSpace c = false)
    {w : List Char} (hw : Blank w) (t : List Char) :
    take c (utf8 (w ++ c :: t)) = some (utf8 t) := by
  refine (take_utf8 hc).mpr ⟨t, ?_, rfl⟩
  rw [dropWhile_blank hw, List.dropWhile_cons_of_neg (by rw [hspace]; exact Bool.false_ne_true)]

/-- Another character is not taken. -/
theorem take_other {c d : Char} (hc : c.toNat < 128) (hspace : isJsonSpace d = false)
    (hne : d ≠ c) {w : List Char} (hw : Blank w) (t : List Char) :
    take c (utf8 (w ++ d :: t)) = none := by
  cases h : take c (utf8 (w ++ d :: t)) with
  | none => rfl
  | some r =>
    obtain ⟨t', hs, -⟩ := (take_utf8 hc).mp h
    rw [dropWhile_blank hw,
      List.dropWhile_cons_of_neg (by rw [hspace]; exact Bool.false_ne_true)] at hs
    exact absurd (List.cons.inj hs).1 hne

/-! ## What is taken is of the grammar -/

theorem string_sound {cs : List Char} {out r : Bytes} (h : string (utf8 cs) = some (out, r)) :
    ∃ w b t s, Blank w ∧ cs = w ++ '\"' :: (b ++ '\"' :: s) ∧ StringBody b t ∧ Whole t ∧
      out = encode t ∧ r = utf8 s := by
  unfold string at h
  split at h
  · cases h
  rename_i r' htake
  obtain ⟨w, s', hw, rfl, rfl⟩ := take_sound (by decide) htake
  rw [characters_utf8 le_rfl] at h
  obtain ⟨⟨t, s⟩, hread, hmap⟩ := Option.bind_eq_some_iff.mp h
  obtain ⟨chars, hchars, hpair⟩ := Option.map_eq_some_iff.mp hmap
  obtain ⟨rfl, rfl⟩ := Prod.mk.inj hpair
  obtain rfl := chars?_eq_some.mp hchars
  obtain ⟨b, hb, rfl⟩ := stringBody_of_readString hread
  exact ⟨w, b, _, s, hw, rfl, hb, whole_ofChars chars, (encode_ofChars chars).symm, rfl⟩

/-- A word is a prefix of the bytes when it is one of the text. -/
theorem word_sound {w : List Char} (hw : Ascii w) {s : List Char}
    (h : (bytesOf w).isPrefixOf (utf8 s) = true) :
    ∃ t, s = w ++ t ∧ (utf8 s).drop w.length = utf8 t := by
  induction w generalizing s with
  | nil => exact ⟨s, rfl, rfl⟩
  | cons c w ih =>
    obtain ⟨hc, hw⟩ := List.forall_mem_cons.mp hw
    obtain ⟨r, hr⟩ := List.isPrefixOf_iff_prefix.mp h
    have hbyte : (byte c).toNat < 128 := by
      rw [toNat_byte hc]
      exact hc
    obtain ⟨d, s', rfl, hd, hcd, hr'⟩ := utf8_head (b := byte c) hr.symm hbyte
    obtain rfl := byte_inj hc hd hcd
    obtain ⟨t, rfl, hdrop⟩ := ih hw (List.isPrefixOf_iff_prefix.mpr ⟨r, hr'⟩)
    refine ⟨t, rfl, ?_⟩
    rw [utf8_plain hc, List.length_cons, List.drop_succ_cons, hdrop]

/-- A number that is read is in its one spelling. -/
theorem number_sound {cs : List Char} {number : Nat}
    (h : safe_integer (utf8 (cs.takeWhile Char.isDigit)) = some number) :
    ∃ n : NumberToken, n.val = cs.takeWhile Char.isDigit ∧ SafeNumeral n.val ∧
      number = Nat.ofDigitChars 10 n.val 0 := by
  obtain ⟨hmax, hbytes⟩ := safe_integer_ok.mp h
  rw [← utf8_ascii (ascii_toDigits number)] at hbytes
  have htoken := utf8_injective hbytes
  have hnumeral := isNumeral_toDigits number
  have hvalue : Nat.ofDigitChars 10 (Nat.toDigits 10 number) 0 = number :=
    Nat.ofDigitChars_ten_toDigits
  refine ⟨⟨_, (isNumberToken_numeral hnumeral).1⟩, htoken.symm, ⟨hnumeral, ?_⟩, hvalue.symm⟩
  dsimp only
  rw [hvalue]
  exact hmax

/-- What each function of the parser takes, within some number of calls. -/
structure Sound (n : Nat) : Prop where
  value : ∀ {cs : List Char} {d : Nat} {out : Value} {r : Bytes}, d ≤ 5 →
    value n (utf8 cs) d = some (out, r) → ∃ w t v s, Blank w ∧ cs = w ++ (t ++ s) ∧ r = utf8 s ∧
      Spells t (.value v) ∧ Fits d v ∧ out = denoted v
  object : ∀ {cs : List Char} {d : Nat} {out : Value} {r : Bytes},
    object n (utf8 cs) d = some (out, r) → ∃ w t l s, Blank w ∧ cs = w ++ (t ++ s) ∧ r = utf8 s ∧
      Spells t (.value (.object l)) ∧ Fits d (.object l) ∧ out = denoted (.object l)
  member : ∀ {cs : List Char} {d : Nat} {out : Bytes × Value} {r : Bytes}, d ≤ 4 →
    member n (utf8 cs) d = some (out, r) → ∃ t m s, cs = t ++ s ∧ r = utf8 s ∧
      Spells t (.member m) ∧ MemberFits d m ∧ out = (encode m.1, denoted m.2)
  members : ∀ {cs : List Char} {d : Nat} {fields out : List (Bytes × Value)} {r : Bytes}, d ≤ 4 →
    members n (utf8 cs) d fields = some (out, r) → ∃ t l s, cs = t ++ '\x7d' :: s ∧ r = utf8 s ∧
      Spells t (.members l) ∧ (∀ m ∈ l, MemberFits d m) ∧ (l.map fun m => encode m.1).Nodup ∧
      (∀ m ∈ l, encode m.1 ∉ fields.map (·.1)) ∧ fields.length + l.length ≤ 32 ∧
      out = fields ++ denotedMembers l

theorem sound_value {n : Nat} (ih : Sound n) {cs : List Char} {d : Nat} {out : Value} {r : Bytes}
    (hd : d ≤ 5) (h : value (n + 1) (utf8 cs) d = some (out, r)) : ∃ w t v s, Blank w ∧
      cs = w ++ (t ++ s) ∧ r = utf8 s ∧ Spells t (.value v) ∧ Fits d v ∧ out = denoted v := by
  obtain ⟨w₀, rest, hblank, hspace, hrest₀⟩ : ∃ w₀ rest, Blank w₀ ∧ cs = w₀ ++ rest ∧
      whitespace (utf8 cs) = utf8 rest :=
    ⟨_, _, blank_takeWhile cs, space_append cs, whitespace_utf8 cs⟩
  unfold value at h
  rw [hrest₀] at h
  split at h
  · cases h
  rename_i first r' heq
  rw [← heq] at h
  split at h
  · obtain ⟨w, t, l, s, hw, hrest, hr, hspells, hfits, hout⟩ := ih.object h
    refine ⟨_, t, _, s, hblank.append hw, ?_, hr, hspells, hfits, hout⟩
    rw [hspace, hrest, List.append_assoc]
  split at h
  · obtain ⟨⟨text, after⟩, hstring, hpair⟩ := Option.map_eq_some_iff.mp h
    obtain ⟨rfl, rfl⟩ := Prod.mk.inj hpair
    obtain ⟨w, b, t, s, hw, hrest, hb, hwhole, htext, hr⟩ := string_sound hstring
    refine ⟨_, _, _, s, hblank.append hw, ?_, hr, .string hb,
      ⟨hd, everywhere_string.mpr hwhole⟩, ?_⟩
    · rw [hspace, hrest]
      simp
    · dsimp only
      rw [htext]
      rfl
  split at h
  · rename_i hword
    obtain ⟨rfl, rfl⟩ := Prod.mk.inj (Option.some.inj h)
    obtain ⟨s, hrest, hdrop⟩ := word_sound (ascii_of_all rfl) hword
    refine ⟨_, _, _, s, hblank, ?_, hdrop, .true, ⟨hd, everywhere_bool.mpr trivial⟩, rfl⟩
    rw [hspace, hrest]
  split at h
  · rename_i hword
    obtain ⟨rfl, rfl⟩ := Prod.mk.inj (Option.some.inj h)
    obtain ⟨s, hrest, hdrop⟩ := word_sound (ascii_of_all rfl) hword
    refine ⟨_, _, _, s, hblank, ?_, hdrop, .false, ⟨hd, everywhere_bool.mpr trivial⟩, rfl⟩
    rw [hspace, hrest]
  · obtain ⟨number, hnumber, hpair⟩ := Option.map_eq_some_iff.mp h
    obtain ⟨rfl, rfl⟩ := Prod.mk.inj hpair
    unfold digits at hnumber
    rw [digitClass.takeWhile] at hnumber
    obtain ⟨token, htoken, hsafe, hvalue⟩ := number_sound hnumber
    refine ⟨_, _, _, rest.dropWhile Char.isDigit, hblank, ?_, digitClass.dropWhile rest,
      .number token, ⟨hd, everywhere_number.mpr hsafe⟩, ?_⟩
    · rw [htoken, List.takeWhile_append_dropWhile]
      exact hspace
    · rw [hvalue]
      rfl

theorem sound_object {n : Nat} (ih : Sound n) {cs : List Char} {d : Nat} {out : Value}
    {r : Bytes} (h : object (n + 1) (utf8 cs) d = some (out, r)) : ∃ w t l s, Blank w ∧
      cs = w ++ (t ++ s) ∧ r = utf8 s ∧ Spells t (.value (.object l)) ∧ Fits d (.object l) ∧
      out = denoted (.object l) := by
  unfold object at h
  split at h
  · cases h
  rename_i hd
  split at h
  · cases h
  rename_i inner hopen
  obtain ⟨w, t, hw, rfl, rfl⟩ := take_sound (by decide) hopen
  split at h
  · rename_i after hclose
    obtain ⟨rfl, rfl⟩ := Prod.mk.inj (Option.some.inj h)
    obtain ⟨w', s, hw', rfl, rfl⟩ := take_sound (by decide) hclose
    refine ⟨w, _, [], s, hw, ?_, rfl, .emptyObject hw', ?_, rfl⟩
    · simp
    · exact fits_object.mpr ⟨by omega, List.nodup_nil, by simp, by simp⟩
  · obtain ⟨⟨fields, after⟩, hmembers, hpair⟩ := Option.map_eq_some_iff.mp h
    obtain ⟨rfl, rfl⟩ := Prod.mk.inj hpair
    obtain ⟨t', l, s, rfl, hr, hspells, hfits, hnodup, -, hlen, hout⟩ :=
      ih.members (by omega) hmembers
    refine ⟨w, _, l, s, hw, ?_, hr, .object hspells, ?_, ?_⟩
    · simp
    · have hnames := (names_nodup fun m hm => (hfits m hm).1).mp hnodup
      exact fits_object.mpr ⟨by omega, hnames, by simpa using hlen, hfits⟩
    · dsimp only
      rw [hout, List.nil_append]
      rfl

theorem sound_member {n : Nat} (ih : Sound n) {cs : List Char} {d : Nat} {out : Bytes × Value}
    {r : Bytes} (hd : d ≤ 4) (h : member (n + 1) (utf8 cs) d = some (out, r)) : ∃ t m s,
      cs = t ++ s ∧ r = utf8 s ∧ Spells t (.member m) ∧ MemberFits d m ∧
      out = (encode m.1, denoted m.2) := by
  unfold member at h
  split at h
  · cases h
  rename_i key after hstring
  obtain ⟨w, b, name, rest, hw, rfl, hb, hwhole, rfl, rfl⟩ := string_sound hstring
  split at h
  · cases h
  rename_i hlen
  split at h
  · cases h
  rename_i inner hcolon
  obtain ⟨w', rest', hw', rfl, rfl⟩ := take_sound (by decide) hcolon
  obtain ⟨⟨item, after⟩, hvalue, hpair⟩ := Option.map_eq_some_iff.mp h
  obtain ⟨rfl, rfl⟩ := Prod.mk.inj hpair
  obtain ⟨w'', t, v, s, hw'', rfl, hr, hspells, hfits, hout⟩ := ih.value (by omega) hvalue
  have helement : Spells (w'' ++ (t ++ [])) (.element v) := .element hw'' blank_nil hspells
  refine ⟨_, (name, v), s, ?_, hr, .named hw hb hw' helement,
    ⟨hwhole, Nat.not_lt.mp hlen, hfits⟩, ?_⟩
  · simp
  · dsimp only
    rw [hout]

theorem sound_members {n : Nat} (ih : Sound n) {cs : List Char} {d : Nat}
    {fields out : List (Bytes × Value)} {r : Bytes} (hd : d ≤ 4)
    (h : members (n + 1) (utf8 cs) d fields = some (out, r)) : ∃ t l s,
      cs = t ++ '\x7d' :: s ∧ r = utf8 s ∧ Spells t (.members l) ∧ (∀ m ∈ l, MemberFits d m) ∧
      (l.map fun m => encode m.1).Nodup ∧ (∀ m ∈ l, encode m.1 ∉ fields.map (·.1)) ∧
      fields.length + l.length ≤ 32 ∧ out = fields ++ denotedMembers l := by
  unfold members at h
  split at h
  · cases h
  rename_i key item after hmember
  obtain ⟨t, m, rest, rfl, rfl, hspells, hfits, hentry⟩ := ih.member hd hmember
  obtain ⟨rfl, rfl⟩ := Prod.mk.inj hentry
  split at h
  · cases h
  rename_i fields' hemplace
  unfold emplace at hemplace
  split at hemplace
  · cases hemplace
  rename_i hnew
  obtain rfl := Option.some.inj hemplace
  split at h
  · cases h
  rename_i hlen
  rw [List.length_append, List.length_singleton, not_lt] at hlen
  split at h
  · rename_i inner hclose
    obtain ⟨rfl, rfl⟩ := Prod.mk.inj (Option.some.inj h)
    obtain ⟨w, s, hw, rfl, rfl⟩ := take_sound (by decide) hclose
    refine ⟨_, [m], s, ?_, rfl, .member (hspells.member_append hw), by simpa using hfits, by simp,
      by simpa using hnew, hlen, ?_⟩
    · simp
    · rw [denotedMembers_eq]
      rfl
  · split at h
    · cases h
    rename_i inner hcomma
    obtain ⟨w, s, hw, rfl, rfl⟩ := take_sound (by decide) hcomma
    obtain ⟨t', l, s', rfl, hr, hspells', hfits', hnodup, hfresh, hlen', hout⟩ := ih.members hd h
    have hkey : ∀ m' ∈ l, encode m'.1 ∉ fields.map (·.1) ∧ encode m'.1 ≠ encode m.1 := by
      intro m' hm'
      have hnot := hfresh m' hm'
      simp only [List.map_append, List.map_cons, List.map_nil, List.mem_append,
        List.mem_singleton, not_or] at hnot
      exact hnot
    refine ⟨_, m :: l, s', ?_, hr, .members (hspells.member_append hw) hspells',
      List.forall_mem_cons.mpr ⟨hfits, hfits'⟩, ?_,
      List.forall_mem_cons.mpr ⟨hnew, fun m' hm' => (hkey m' hm').1⟩, ?_, ?_⟩
    · simp
    · rw [List.map_cons, List.nodup_cons]
      refine ⟨?_, hnodup⟩
      intro hmem
      obtain ⟨m', hm', heq⟩ := List.mem_map.mp hmem
      exact (hkey m' hm').2 heq
    · simp only [List.length_append, List.length_cons, List.length_nil] at hlen' ⊢
      omega
    · rw [hout, List.append_assoc]
      rfl

theorem sound (n : Nat) : Sound n := by
  induction n with
  | zero =>
    refine ⟨fun _ h => ?_, fun h => ?_, fun _ h => ?_, fun _ h => ?_⟩
    · rw [value] at h
      cases h
    · rw [object] at h
      cases h
    · rw [member] at h
      cases h
    · rw [members] at h
      cases h
  | succ n ih =>
    exact ⟨fun hd h => sound_value ih hd h, fun h => sound_object ih h,
      fun hd h => sound_member ih hd h, fun hd h => sound_members ih hd h⟩

/-! ## What is of the grammar is taken -/

theorem string_complete {w b : List Char} {t : JsText} (hw : Blank w) (hb : StringBody b t)
    (ht : Whole t) (s : List Char) :
    string (utf8 (w ++ '\"' :: (b ++ '\"' :: s))) = some (encode t, utf8 s) := by
  have hchars : chars? t = some (scalars t) := chars?_eq_some.mpr (ofChars_scalars_iff.mpr ht).symm
  unfold string
  rw [take_complete (by decide) (by decide) hw]
  dsimp only
  rw [characters_utf8 le_rfl]
  unfold wholeString
  rw [readString_of_stringBody hb, Option.bind_some, hchars]
  rfl

theorem word_complete {w : List Char} (hw : Ascii w) (s : List Char) :
    (bytesOf w).isPrefixOf (utf8 (w ++ s)) = true ∧ (utf8 (w ++ s)).drop w.length = utf8 s := by
  rw [utf8_append, utf8_ascii hw]
  refine ⟨List.isPrefixOf_iff_prefix.mpr ⟨_, rfl⟩, ?_⟩
  rw [← length_bytesOf w, List.drop_left]

theorem number_complete {n : NumberToken} (hn : SafeNumeral n.val) :
    safe_integer (utf8 n.val) = some (Nat.ofDigitChars 10 n.val 0) := by
  have hdigits := toDigits_value hn.1
  refine safe_integer_ok.mpr ⟨hn.2, ?_⟩
  rw [hdigits]
  apply utf8_ascii
  intro c hc
  exact digitClass.ascii c ((isNumeral_iff.mp hn.1).2.1 c hc)

/-- What follows a number is no digit. -/
def NoDigit (s : List Char) : Prop := ∀ c ∈ s.head?, c.isDigit = false

theorem noDigit_cons {c : Char} {s : List Char} (h : c.isDigit = false) : NoDigit (c :: s) := by
  intro d hd
  obtain rfl := Option.some.inj hd
  exact h

theorem noDigit_blank {w s : List Char} (hw : Blank w) (hs : NoDigit s) : NoDigit (w ++ s) := by
  cases w with
  | nil => exact hs
  | cons c w =>
    apply noDigit_cons
    have hspace := List.all_eq_true.mp hw c List.mem_cons_self
    unfold isJsonSpace at hspace
    simp only [Bool.or_eq_true, decide_eq_true_eq] at hspace
    rcases hspace with ((rfl | rfl) | rfl) | rfl
    · decide
    · decide
    · decide
    · decide

theorem whitespace_value {w : List Char} {c : Char} (hw : Blank w) (hc : c.toNat < 128)
    (hspace : isJsonSpace c = false) (s : List Char) :
    whitespace (utf8 (w ++ c :: s)) = byte c :: utf8 s := by
  rw [whitespace_utf8, dropWhile_blank hw,
    List.dropWhile_cons_of_neg (by rw [hspace]; exact Bool.false_ne_true), utf8_plain hc]

theorem value_word {w word : List Char} {b : Bool} (hw : Blank w)
    (hword : word = if b then "true".toList else "false".toList) (n d : Nat) (s : List Char) :
    value (n + 1) (utf8 (w ++ (word ++ s))) d = some (denoted (.bool b), utf8 s) := by
  subst hword
  cases b with
  | true =>
    obtain ⟨hstarts, hdrop⟩ := @word_complete "true".toList (ascii_of_all rfl) s
    have hbytes : utf8 ("true".toList ++ s) = byte 't' :: utf8 ("rue".toList ++ s) :=
      utf8_plain (by decide) _
    unfold value
    rw [if_pos rfl, show "true".toList ++ s = 't' :: ("rue".toList ++ s) from rfl,
      whitespace_value hw (by decide) (by decide)]
    dsimp only
    rw [← hbytes, if_neg (by decide), if_neg (by decide), if_pos hstarts]
    exact congrArg some (Prod.ext rfl hdrop)
  | false =>
    obtain ⟨hstarts, hdrop⟩ := @word_complete "false".toList (ascii_of_all rfl) s
    have hbytes : utf8 ("false".toList ++ s) = byte 'f' :: utf8 ("alse".toList ++ s) :=
      utf8_plain (by decide) _
    have hnot : (bytesOf "true".toList).isPrefixOf (utf8 ("false".toList ++ s)) = false := by
      rw [hbytes]
      rfl
    unfold value
    rw [if_neg Bool.false_ne_true, show "false".toList ++ s = 'f' :: ("alse".toList ++ s) from rfl,
      whitespace_value hw (by decide) (by decide)]
    dsimp only
    rw [← hbytes, if_neg (by decide), if_neg (by decide),
      if_neg (by rw [hnot]; exact Bool.false_ne_true), if_pos hstarts]
    exact congrArg some (Prod.ext rfl hdrop)

theorem value_string {w b : List Char} {t : JsText} (hw : Blank w) (hb : StringBody b t)
    (ht : Whole t) (n d : Nat) (s : List Char) :
    value (n + 1) (utf8 (w ++ '\"' :: (b ++ '\"' :: s))) d =
      some (denoted (.string t), utf8 s) := by
  have hstring := string_complete blank_nil hb ht s
  rw [List.nil_append, utf8_plain (by decide)] at hstring
  unfold value
  rw [whitespace_value hw (by decide) (by decide)]
  dsimp only
  rw [if_neg (by decide), if_pos rfl, hstring]
  rfl

theorem value_number {w : List Char} {token : NumberToken} (hw : Blank w)
    (hsafe : SafeNumeral token.val) (n d : Nat) {s : List Char} (hs : NoDigit s) :
    value (n + 1) (utf8 (w ++ (token.val ++ s))) d = some (denoted (.number token), utf8 s) := by
  have hdigits := (isNumeral_iff.mp hsafe.1).2.1
  have htake : (token.val ++ s).takeWhile Char.isDigit = token.val ∧
      (token.val ++ s).dropWhile Char.isDigit = s := by
    rw [List.takeWhile_append_of_pos hdigits, List.dropWhile_append_of_pos hdigits]
    cases s with
    | nil => simp
    | cons c s =>
      have hc := hs c rfl
      simp [hc]
  have hnumber := number_complete hsafe
  obtain ⟨c, t, htoken⟩ := List.exists_cons_of_ne_nil (isNumeral_iff.mp hsafe.1).1
  have hc := hdigits c (by rw [htoken]; exact List.mem_cons_self)
  have hascii := digitClass.ascii c hc
  have hrange := isDigit_toNat hc
  have hne : ∀ e : Char, e.isDigit = false → e.toNat < 128 → byte c ≠ byte e := by
    intro e he hlt heq
    obtain rfl := byte_inj hascii hlt heq
    rw [hc] at he
    cases he
  have hspace : isJsonSpace c = false := by
    rw [← isSpaceByte_byte hascii]
    unfold isSpaceByte
    rw [decide_eq_false (hne _ (by decide) (by decide)),
      decide_eq_false (hne _ (by decide) (by decide)),
      decide_eq_false (hne _ (by decide) (by decide)),
      decide_eq_false (hne _ (by decide) (by decide))]
    rfl
  have hbytes : utf8 (token.val ++ s) = byte c :: utf8 (t ++ s) := by
    rw [htoken, List.cons_append, utf8_plain hascii]
  have hstarts : ∀ (e : Char) (l r : Bytes), e.isDigit = false → e.toNat < 128 →
      (byte e :: l).isPrefixOf (byte c :: r) = false := by
    intro e l r he hlt
    simp only [List.isPrefixOf, Bool.and_eq_false_iff, beq_eq_false_iff_ne]
    exact Or.inl (hne e he hlt).symm
  have hwhite : whitespace (utf8 (w ++ (token.val ++ s))) = byte c :: utf8 (t ++ s) := by
    rw [htoken, List.cons_append]
    exact whitespace_value hw hascii hspace _
  unfold value
  rw [hwhite]
  dsimp only
  rw [if_neg (hne _ (by decide) (by decide)), if_neg (hne _ (by decide) (by decide)),
    if_neg (by rw [Bool.not_eq_true]; exact hstarts 't' _ _ (by decide) (by decide)),
    if_neg (by rw [Bool.not_eq_true]; exact hstarts 'f' _ _ (by decide) (by decide)), ← hbytes]
  unfold digits
  rw [digitClass.takeWhile, digitClass.dropWhile, htake.1, htake.2, hnumber]
  rfl

/-- How the parser takes a part of a text, with enough calls for its length. -/
def Taken (s : List Char) : Part → Prop
  | .value v => ∀ n d w rest, Blank w → 3 * s.length ≤ n → Fits d v → NoDigit rest →
      value n (utf8 (w ++ (s ++ rest))) d = some (denoted v, utf8 rest)
  | .element v => ∀ n d rest, 3 * s.length ≤ n → Fits d v → NoDigit rest →
      ∃ w, Blank w ∧ value n (utf8 (s ++ rest)) d = some (denoted v, utf8 (w ++ rest))
  | .items _ => True
  | .member m => ∀ n d rest, 3 * s.length ≤ n → MemberFits d m → NoDigit rest →
      ∃ w, Blank w ∧
        member n (utf8 (s ++ rest)) d = some ((encode m.1, denoted m.2), utf8 (w ++ rest))
  | .members l => ∀ n d fields rest, 3 * (s.length + 1) ≤ n → (∀ m ∈ l, MemberFits d m) →
      (l.map fun m => encode m.1).Nodup → (∀ m ∈ l, encode m.1 ∉ fields.map (·.1)) →
      fields.length + l.length ≤ 32 →
      members n (utf8 (s ++ '\x7d' :: rest)) d fields =
        some (fields ++ denotedMembers l, utf8 rest)

/-- The text of some members begins with a name, so it does not close the object. -/
theorem members_head {s : List Char} {l : List (JsText × Json.Tree)} (h : Spells s (.members l)) :
    ∃ w t, Blank w ∧ s = w ++ '\"' :: t := by
  cases h with
  | member h =>
    cases h with
    | named hw _ _ _ => exact ⟨_, _, hw, rfl⟩
  | members h _ =>
    cases h with
    | named hw _ _ _ => exact ⟨_, _, hw, by rw [List.append_assoc]; rfl⟩

theorem object_empty {w w' : List Char} (hw : Blank w) (hw' : Blank w') {d : Nat} (hd : d ≤ 4)
    (n : Nat) (rest : List Char) :
    object (n + 1) (utf8 (w ++ '\x7b' :: (w' ++ '\x7d' :: rest))) d =
      some (denoted (.object []), utf8 rest) := by
  unfold object
  rw [if_neg (by omega), take_complete (by decide) (by decide) hw]
  dsimp only
  rw [take_complete (by decide) (by decide) hw']
  rfl

theorem object_members {s w : List Char} {l : List (JsText × Json.Tree)}
    (h : Spells s (.members l)) (ih : Taken s (.members l)) (hw : Blank w) {n d : Nat}
    (hn : 3 * (s.length + 1) ≤ n) (hfits : Fits d (.object l)) (rest : List Char) :
    object (n + 1) (utf8 (w ++ '\x7b' :: (s ++ '\x7d' :: rest))) d =
      some (denoted (.object l), utf8 rest) := by
  obtain ⟨hd, hnodup, hlen, hmembers⟩ := fits_object.mp hfits
  have hnames := (names_nodup fun m hm => (hmembers m hm).1).mpr hnodup
  have hread := ih n d [] rest hn hmembers hnames (by simp) (by simpa using hlen)
  have hclose : take '\x7d' (utf8 (s ++ '\x7d' :: rest)) = none := by
    obtain ⟨w', t, hw', rfl⟩ := members_head h
    rw [List.append_assoc, List.cons_append]
    exact take_other (by decide) (by decide) (by decide) hw' _
  unfold object
  rw [if_neg (by omega), take_complete (by decide) (by decide) hw]
  dsimp only
  rw [hclose]
  dsimp only
  rw [hread]
  rfl

/-- A value that begins with a brace is an object. -/
theorem value_object {w : List Char} (hw : Blank w) (n d : Nat) (s : List Char) :
    value (n + 1) (utf8 (w ++ '\x7b' :: s)) d = object n (utf8 ('\x7b' :: s)) d := by
  unfold value
  rw [whitespace_value hw (by decide) (by decide)]
  dsimp only
  rw [if_pos rfl, utf8_plain (by decide)]

theorem member_complete {w b w' s : List Char} {name : JsText} {v : Json.Tree} (hw : Blank w)
    (hb : StringBody b name) (hw' : Blank w') (ih : Taken s (.element v)) :
    Taken (w ++ '\"' :: (b ++ '\"' :: (w' ++ ':' :: s))) (.member (name, v)) := by
  rintro n d rest hn ⟨hwhole, hlen, hfits⟩ hrest
  simp only [List.length_append, List.length_cons] at hn
  obtain ⟨n, rfl⟩ : ∃ k, n = k + 1 := ⟨n - 1, by omega⟩
  obtain ⟨w'', hw'', hvalue⟩ := ih n (d + 1) rest (by omega) hfits hrest
  refine ⟨w'', hw'', ?_⟩
  simp only [List.append_assoc, List.cons_append]
  unfold member
  rw [string_complete hw hb hwhole]
  dsimp only at hlen ⊢
  rw [if_neg (by omega), take_complete (by decide) (by decide) hw']
  dsimp only
  rw [hvalue]
  rfl

/-- One turn of the loop puts the member in. -/
theorem members_turn {s : List Char} {m : JsText × Json.Tree} {n d : Nat}
    {fields : List (Bytes × Value)} {r : Bytes}
    (hmember : member n (utf8 s) d = some ((encode m.1, denoted m.2), r))
    (hnew : encode m.1 ∉ fields.map (·.1)) (hlen : fields.length + 1 ≤ 32) :
    members (n + 1) (utf8 s) d fields =
      match take '\x7d' r with
      | some r => some (fields ++ [(encode m.1, denoted m.2)], r)
      | none =>
        match take ',' r with
        | none => none
        | some r => members n r d (fields ++ [(encode m.1, denoted m.2)]) := by
  conv => lhs; unfold members
  rw [hmember]
  dsimp only
  unfold emplace
  rw [if_neg hnew]
  exact if_neg (by rw [List.length_append, List.length_singleton]; omega)

theorem members_last {s : List Char} {m : JsText × Json.Tree} (ih : Taken s (.member m)) :
    Taken s (.members [m]) := by
  intro n d fields rest hn hfits _ hnew hlen
  obtain ⟨n, rfl⟩ : ∃ k, n = k + 1 := ⟨n - 1, by omega⟩
  obtain ⟨w, hw, hmember⟩ := ih n d ('\x7d' :: rest) (by omega)
    (hfits m List.mem_cons_self) (noDigit_cons (by decide))
  rw [members_turn hmember (hnew m List.mem_cons_self) hlen,
    take_complete (by decide) (by decide) hw]
  rfl

theorem members_more {s r : List Char} {m : JsText × Json.Tree} {l : List (JsText × Json.Tree)}
    (ihm : Taken s (.member m)) (ihl : Taken r (.members l)) :
    Taken (s ++ ',' :: r) (.members (m :: l)) := by
  intro n d fields rest hn hfits hnodup hnew hlen
  simp only [List.length_append, List.length_cons] at hn
  obtain ⟨n, rfl⟩ : ∃ k, n = k + 1 := ⟨n - 1, by omega⟩
  obtain ⟨hm, hl⟩ := List.forall_mem_cons.mp hfits
  obtain ⟨hmnew, hlnew⟩ := List.forall_mem_cons.mp hnew
  rw [List.map_cons, List.nodup_cons] at hnodup
  rw [List.length_cons] at hlen
  simp only [List.append_assoc, List.cons_append]
  obtain ⟨w, hw, hmember⟩ := ihm n d (',' :: (r ++ '\x7d' :: rest)) (by omega) hm
    (noDigit_cons (by decide))
  have hfresh : ∀ m' ∈ l, encode m'.1 ∉
      (fields ++ [(encode m.1, denoted m.2)]).map (·.1) := by
    intro m' hm' hmem
    rw [List.map_append, List.mem_append] at hmem
    rcases hmem with hmem | hmem
    · exact hlnew m' hm' hmem
    · rw [List.map_singleton, List.mem_singleton] at hmem
      exact hnodup.1 (List.mem_map.mpr ⟨m', hm', hmem⟩)
  have hrest := ihl n d (fields ++ [(encode m.1, denoted m.2)]) rest (by omega) hl hnodup.2 hfresh
    (by rw [List.length_append, List.length_singleton]; omega)
  rw [members_turn hmember hmnew (by omega),
    take_other (by decide) (by decide) (by decide) hw]
  dsimp only
  rw [take_complete (by decide) (by decide) hw]
  dsimp only
  rw [hrest, List.append_assoc]
  rfl

/-- Each part of a text is taken. -/
theorem taken_of_spells {s : List Char} {p : Part} (h : Spells s p) : Taken s p := by
  induction h with
  | null =>
    rintro n d w rest _ _ ⟨-, h⟩ _
    exact (everywhere_null.mp h).elim
  | true =>
    intro n d w rest hw hn _ _
    obtain ⟨n, rfl⟩ : ∃ k, n = k + 1 := ⟨n - 1, by simp at hn; omega⟩
    exact @value_word w _ true hw rfl n d rest
  | false =>
    intro n d w rest hw hn _ _
    obtain ⟨n, rfl⟩ : ∃ k, n = k + 1 := ⟨n - 1, by simp at hn; omega⟩
    exact @value_word w _ false hw rfl n d rest
  | number token =>
    rintro n d w rest hw hn ⟨-, h⟩ hrest
    obtain ⟨c, t, htoken, -⟩ := isNumberToken_head token.property
    rw [htoken, List.length_cons] at hn
    obtain ⟨n, rfl⟩ : ∃ k, n = k + 1 := ⟨n - 1, by omega⟩
    exact value_number hw (everywhere_number.mp h) n d hrest
  | string hb =>
    rintro n d w rest hw hn ⟨-, h⟩ _
    rw [List.length_cons] at hn
    obtain ⟨n, rfl⟩ : ∃ k, n = k + 1 := ⟨n - 1, by omega⟩
    simp only [List.cons_append, List.append_assoc, List.nil_append]
    exact value_string hw hb (everywhere_string.mp h) n d rest
  | emptyArray _ =>
    rintro n d w rest _ _ ⟨-, h⟩ _
    exact (everywhere_array.mp h).1.elim
  | array _ _ =>
    rintro n d w rest _ _ ⟨-, h⟩ _
    exact (everywhere_array.mp h).1.elim
  | emptyObject hw' =>
    intro n d w rest hw hn hfits _
    simp only [List.length_cons, List.length_append] at hn
    obtain ⟨n, rfl⟩ : ∃ k, n = k + 2 := ⟨n - 2, by omega⟩
    simp only [List.cons_append, List.append_assoc, List.nil_append]
    rw [value_object hw]
    exact object_empty blank_nil hw' (fits_object.mp hfits).1 n rest
  | object h ih =>
    intro n d w rest hw hn hfits _
    simp only [List.length_cons, List.length_append] at hn
    obtain ⟨n, rfl⟩ : ∃ k, n = k + 2 := ⟨n - 2, by omega⟩
    simp only [List.cons_append, List.append_assoc, List.nil_append]
    rw [value_object hw]
    exact object_members h ih blank_nil (by omega) hfits rest
  | @element w s w' v hw hw' _ ih =>
    intro n d rest hn hfits hrest
    simp only [List.length_append] at hn
    refine ⟨w', hw', ?_⟩
    simp only [List.append_assoc]
    exact ih n d w _ hw (by omega) hfits (noDigit_blank hw' hrest)
  | item _ _ => trivial
  | items _ _ _ _ => trivial
  | named hw hb hw' _ ih => exact member_complete hw hb hw' ih
  | member _ ih => exact members_last ih
  | members _ _ ihm ihl => exact members_more ihm ihl

/-! ## The parser -/

theorem length_le_utf8 (s : List Char) : s.length ≤ (utf8 s).length := by
  induction s with
  | nil => exact le_rfl
  | cons c s ih =>
    have := c.utf8Size_pos
    rw [utf8_cons, List.length_append, String.length_utf8EncodeChar, List.length_cons]
    omega

theorem run_sound {cs : List Char} {out : Value} (h : run (utf8 cs) = some out) :
    ∃ l, Spells cs (.element (.object l)) ∧ Fits 1 (.object l) ∧ out = denoted (.object l) := by
  unfold run at h
  split at h
  · cases h
  rename_i out' r hobject
  split at h
  · rename_i hend
    obtain rfl := Option.some.inj h
    obtain ⟨w, t, l, s, hw, rfl, rfl, hspells, hfits, hout⟩ := (sound _).object hobject
    rw [whitespace_utf8, utf8_eq_nil] at hend
    have hs : Blank s := by
      rw [space_append s, hend, List.append_nil]
      exact blank_takeWhile s
    exact ⟨l, .element hw hs hspells, hfits, hout⟩
  · cases h

theorem run_complete {cs : List Char} {l : List (JsText × Json.Tree)}
    (h : Spells cs (.element (.object l))) (hfits : Fits 1 (.object l)) :
    run (utf8 cs) = some (denoted (.object l)) := by
  have hlen := length_le_utf8 cs
  cases h with
  | @element w s w' v hw hw' h =>
    have hobject : object (3 * (utf8 (w ++ (s ++ w'))).length) (utf8 (w ++ (s ++ w'))) 1 =
        some (denoted (.object l), utf8 w') := by
      generalize (utf8 (w ++ (s ++ w'))).length = len at hlen
      cases h with
      | @emptyObject w'' hw'' =>
        simp only [List.length_append, List.length_cons] at hlen
        obtain ⟨n, hn⟩ : ∃ n, 3 * len = n + 1 := ⟨3 * len - 1, by omega⟩
        rw [hn]
        simp only [List.cons_append, List.append_assoc, List.nil_append]
        exact object_empty hw hw'' (by decide) n w'
      | @object s _ hmembers =>
        simp only [List.length_append, List.length_cons] at hlen
        obtain ⟨n, hn⟩ : ∃ n, 3 * len = n + 1 := ⟨3 * len - 1, by omega⟩
        rw [hn]
        simp only [List.cons_append, List.append_assoc, List.nil_append]
        exact object_members hmembers (taken_of_spells hmembers) hw (by omega) hfits w'
    unfold run
    rw [hobject]
    dsimp only
    rw [whitespace_utf8, List.dropWhile_eq_nil_iff.mpr (List.all_eq_true.mp hw')]
    rfl

/-- A reply is a text that the parser runs through. -/
theorem run_iff {source : Bytes} {out : Value} :
    (utf8_text source 16384 = true ∧ run source = some out) ↔
      ∃ tree, Reply source tree ∧ out = denoted tree := by
  rw [utf8_text_ok]
  constructor
  · rintro ⟨⟨-, hlen, cs, rfl⟩, hrun⟩
    obtain ⟨l, hspells, ⟨hdepth, hadmitted⟩, hout⟩ := run_sound hrun
    exact ⟨_, ⟨⟨cs, rfl, hspells⟩, hlen, ⟨l, rfl⟩, by omega, hadmitted⟩, hout⟩
  · rintro ⟨tree, h, rfl⟩
    obtain ⟨cs, rfl, hspells⟩ := h.text
    obtain ⟨l, rfl⟩ := h.object
    have hrun := run_complete hspells ⟨by have := h.depth; omega, h.admitted⟩
    refine ⟨⟨?_, h.length, cs, rfl⟩, hrun⟩
    intro hnil
    rw [hnil] at hrun
    simp [run, object] at hrun

/-- The parser succeeds exactly on the replies, and gives the value that the text stands
for. Where it fails the output stays as it was. -/
theorem replies_are_parsed (source : Bytes) (out : Value) :
    ((parse source out).1 = true ↔ ∃ tree, Reply source tree) ∧
      (∀ tree, Reply source tree → (parse source out).2 = denoted tree) ∧
      ((parse source out).1 = false → (parse source out).2 = out) := by
  unfold parse
  cases htext : utf8_text source 16384 with
  | false =>
    have hno : ¬∃ tree, Reply source tree := by
      rintro ⟨tree, h⟩
      have := (run_iff.mpr ⟨tree, h, rfl⟩).1
      rw [htext] at this
      cases this
    refine ⟨?_, ?_, fun _ => rfl⟩
    · exact iff_of_false Bool.false_ne_true hno
    · intro tree h
      exact absurd ⟨tree, h⟩ hno
  | true =>
    cases hrun : run source with
    | none =>
      have hno : ¬∃ tree, Reply source tree := by
        rintro ⟨tree, h⟩
        have := (run_iff.mpr ⟨tree, h, rfl⟩).2
        rw [hrun] at this
        cases this
      refine ⟨?_, ?_, fun _ => rfl⟩
      · exact iff_of_false Bool.false_ne_true hno
      · intro tree h
        exact absurd ⟨tree, h⟩ hno
    | some candidate =>
      obtain ⟨tree, htree, -⟩ := run_iff.mp ⟨htext, hrun⟩
      refine ⟨?_, ?_, ?_⟩
      · exact iff_of_true rfl ⟨tree, htree⟩
      · intro tree' h
        have hrun' := (run_iff.mpr ⟨tree', h, rfl⟩).2
        rw [hrun] at hrun'
        exact Option.some.inj hrun'
      · intro h
        cases h

end Licensecc.Identity.BoundJson
