-- The laws of the UTF-8 of lines and fields: where an ASCII character ends a
-- line or spells a key, the bytes have the same lines and fields as the text.
import Licensecc.Codec.Fields
import Licensecc.Codec.Utf8
import Mathlib.Data.List.Induction

namespace Licensecc.Codec

/-- The byte of an ASCII character. -/
def asciiByte (c : Char) : UInt8 := UInt8.ofNat c.toNat

theorem toNat_asciiByte {c : Char} (h : c.toNat < 128) : (asciiByte c).toNat = c.toNat := by
  unfold asciiByte
  rw [UInt8.toNat_ofNat']
  omega

theorem asciiByte_injective {c d : Char} (hc : c.toNat < 128) (hd : d.toNat < 128)
    (h : asciiByte c = asciiByte d) : c = d := by
  have := congrArg UInt8.toNat h
  rw [toNat_asciiByte hc, toNat_asciiByte hd] at this
  exact Char.toNat_inj.mp this

theorem utf8_cons_asciiByte {c : Char} (h : c.toNat < 128) (s : List Char) :
    utf8 (c :: s) = asciiByte c :: utf8 s := by
  rw [utf8_cons, utf8EncodeChar_ascii h]
  rfl

/-- An ASCII character is in a text exactly when its byte is in the bytes. -/
theorem asciiByte_mem_utf8 {c : Char} (hc : c.toNat < 128) {s : List Char} :
    asciiByte c ∈ utf8 s ↔ c ∈ s := by
  induction s with
  | nil => simp
  | cons d s ih =>
    by_cases hd : d.toNat < 128
    · rw [utf8_cons_asciiByte hd, List.mem_cons, List.mem_cons, ih]
      refine or_congr_left ⟨asciiByte_injective hc hd, ?_⟩
      rintro rfl
      rfl
    · have hne : c ≠ d := by
        rintro rfl
        exact hd hc
      rw [utf8_cons, List.mem_append, List.mem_cons, ih]
      refine or_congr_left ⟨fun h => ?_, fun h => absurd h hne⟩
      have := utf8EncodeChar_high hd _ h
      rw [toNat_asciiByte hc] at this
      omega

theorem utf8_intercalate {nl : Char} (hnl : nl.toNat < 128) (ls : List (List Char)) :
    utf8 (List.intercalate [nl] ls) = List.intercalate [asciiByte nl] (ls.map utf8) := by
  induction ls with
  | nil => rfl
  | cons l ls ih =>
    cases ls with
    | nil => simp
    | cons m ls =>
      rw [List.intercalate_cons_cons, utf8_append, utf8_append, utf8_cons_asciiByte hnl, ih]
      simp [List.intercalate_cons_cons]

/-- The bytes are split where the text is. -/
theorem splitOn_utf8 {nl : Char} (hnl : nl.toNat < 128) (s : List Char) :
    (utf8 s).splitOn (asciiByte nl) = (s.splitOn nl).map utf8 := by
  have hjoin : utf8 s = List.intercalate [asciiByte nl] ((s.splitOn nl).map utf8) := by
    rw [← utf8_intercalate hnl, List.intercalate_splitOn]
  rw [hjoin]
  refine List.splitOn_intercalate _ ?_ ?_
  · intro l hl
    obtain ⟨m, hm, rfl⟩ := List.mem_map.mp hl
    rw [asciiByte_mem_utf8 hnl]
    exact not_mem_of_mem_splitOn hm
  · intro h
    exact List.splitOn_ne_nil nl s (List.map_eq_nil_iff.mp h)

/-- The bytes start with an ASCII text when the text does. -/
theorem isPrefixOf_utf8 {p : List Char} (hp : Ascii p) (s : List Char) :
    (utf8 p).isPrefixOf (utf8 s) = p.isPrefixOf s := by
  induction p generalizing s with
  | nil => simp
  | cons c p ih =>
    have hc := hp c List.mem_cons_self
    have ih' := ih fun d hd => hp d (List.mem_cons_of_mem _ hd)
    rw [utf8_cons_asciiByte hc]
    cases s with
    | nil => rfl
    | cons d s =>
      by_cases hd : d.toNat < 128
      · rw [utf8_cons_asciiByte hd, List.isPrefixOf_cons_cons, List.isPrefixOf_cons_cons, ih']
        congr 1
        by_cases hcd : c = d
        · simp [hcd]
        · have : asciiByte c ≠ asciiByte d := fun h => hcd (asciiByte_injective hc hd h)
          simp [hcd, this]
      · have hne : c ≠ d := by
          rintro rfl
          exact hd hc
        obtain ⟨b, bs, hb⟩ := List.exists_cons_of_ne_nil (utf8EncodeChar_ne_nil d)
        have hhigh := utf8EncodeChar_high hd b (hb ▸ List.mem_cons_self)
        have hb' : asciiByte c ≠ b := by
          rintro rfl
          rw [toNat_asciiByte hc] at hhigh
          omega
        have h1 : (asciiByte c == b) = false := by simpa using hb'
        have h2 : (c == d) = false := by simpa using hne
        rw [utf8_cons, hb, List.cons_append, List.isPrefixOf_cons_cons, List.isPrefixOf_cons_cons, h1,
          h2, Bool.false_and, Bool.false_and]

theorem endedLines_utf8 {nl : Char} (hnl : nl.toNat < 128) (s : List Char) :
    endedLines (asciiByte nl) (utf8 s) = (endedLines nl s).map utf8 := by
  unfold endedLines
  rw [splitOn_utf8 hnl, List.map_dropLast]

/-- The first field of the bytes is that of the text. -/
theorem firstField_utf8 {nl : Char} (hnl : nl.toNat < 128) {p : List Char} (hp : Ascii p)
    (s : List Char) :
    firstField (asciiByte nl) (utf8 p) (utf8 s) = (firstField nl p s).map utf8 := by
  unfold firstField
  have hfind : ∀ ls : List (List Char), (ls.map utf8).find? (utf8 p).isPrefixOf =
      (ls.find? p.isPrefixOf).map utf8 := by
    intro ls
    rw [List.find?_map]
    congr 2
    funext l
    exact isPrefixOf_utf8 hp l
  rw [endedLines_utf8 hnl, hfind, Option.map_map, Option.map_map]
  cases h : (endedLines nl s).find? p.isPrefixOf with
  | none => rfl
  | some l =>
    obtain ⟨t, rfl⟩ := List.isPrefixOf_iff_prefix.mp (List.find?_some h)
    simp

/-- The first line of the bytes is that of the text. -/
theorem takeLine_utf8 {nl : Char} (hnl : nl.toNat < 128) (s : List Char) :
    takeLine (asciiByte nl) (utf8 s) = (takeLine nl s).map fun r => (utf8 r.1, utf8 r.2) := by
  cases h : takeLine nl s with
  | some r =>
    obtain ⟨l, rest⟩ := r
    obtain ⟨hl, rfl⟩ := takeLine_eq_some.mp h
    refine takeLine_eq_some.mpr ⟨?_, ?_⟩
    · rw [asciiByte_mem_utf8 hnl]
      exact hl
    · rw [utf8_append, utf8_cons_asciiByte hnl]
  | none =>
    cases hbytes : takeLine (asciiByte nl) (utf8 s) with
    | none => rfl
    | some r =>
      obtain ⟨l, rest⟩ := r
      obtain ⟨-, heq⟩ := takeLine_eq_some.mp hbytes
      have hmem : nl ∈ s := by
        rw [← asciiByte_mem_utf8 hnl, heq]
        simp
      obtain ⟨a, b, rfl, ha⟩ := List.eq_append_cons_of_mem hmem
      rw [takeLine_eq_some.mpr ⟨ha, rfl⟩] at h
      cases h

theorem valueAfter_utf8 {p : List Char} (hp : Ascii p) (l : List Char) :
    valueAfter (utf8 p) (utf8 l) = (valueAfter p l).map utf8 := by
  unfold valueAfter
  rw [isPrefixOf_utf8 hp]
  by_cases h : p.isPrefixOf l = true
  · obtain ⟨t, rfl⟩ := List.isPrefixOf_iff_prefix.mp h
    simp
  · rw [if_neg h, if_neg h]
    rfl

/-- The fields of the bytes are those of the text. -/
theorem parseFields_utf8 {κ : Type} {nl : Char} (hnl : nl.toNat < 128) {spell : κ → List Char}
    {keys : List κ} (hspell : ∀ key ∈ keys, Ascii (spell key)) (bad : Bytes → Bool)
    (s : List Char) :
    parseFields (asciiByte nl) (fun key => utf8 (spell key)) bad keys (utf8 s) =
      (parseFields nl spell (fun v => bad (utf8 v)) keys s).map (·.map utf8) := by
  induction keys generalizing s with
  | nil =>
    unfold parseFields
    by_cases hs : s = []
    · subst hs
      rfl
    · have hs' : utf8 s ≠ [] := fun h => hs (utf8_eq_nil.mp h)
      rw [if_neg hs, if_neg hs']
      rfl
  | cons key keys ih =>
    have hkey := hspell key List.mem_cons_self
    have ih' := ih fun k hk => hspell k (List.mem_cons_of_mem _ hk)
    rw [parseFields, parseFields, takeLine_utf8 hnl]
    cases takeLine nl s with
    | none => rfl
    | some r =>
      simp only [Option.map_some, valueAfter_utf8 hkey]
      cases valueAfter (spell key) r.1 with
      | none => rfl
      | some v =>
        simp only [Option.map_some, ih']
        by_cases hbad : bad (utf8 v) = true
        · rw [if_pos hbad, if_pos hbad]
          rfl
        · rw [if_neg hbad, if_neg hbad]
          cases parseFields nl spell (fun v => bad (utf8 v)) keys r.2 with
          | error e => rfl
          | ok vs => rfl

/-- The last byte is that of the last character, when this is an ASCII character. -/
theorem getLast_utf8 {c : Char} (hc : c.toNat < 128) (s : List Char) :
    (utf8 s).getLast? = some (asciiByte c) ↔ s.getLast? = some c := by
  induction s using List.reverseRecOn with
  | nil => simp
  | append_singleton s d _ =>
    rw [utf8_append, List.getLast?_concat, Option.some.injEq]
    by_cases hd : d.toNat < 128
    · rw [utf8_cons_asciiByte hd, utf8_nil, List.getLast?_concat, Option.some.injEq]
      refine ⟨asciiByte_injective hd hc, ?_⟩
      rintro rfl
      rfl
    · have hne : utf8 [d] ≠ [] := fun h => by simpa using utf8_eq_nil.mp h
      rw [List.getLast?_append_of_ne_nil _ hne]
      constructor
      · intro h
        have hmem := (asciiByte_mem_utf8 hc).mp (List.mem_of_getLast? h)
        exact (List.mem_singleton.mp hmem).symm
      · rintro rfl
        exact absurd hc hd

end Licensecc.Codec
