-- The textual addresses of the internet. A text is an IPv4 address, or an IPv6 address
-- with any spelling of its groups, with zeros left out at one place, and with its end as
-- an IPv4 address.
import Licensecc.Codec.Json
import Licensecc.Sql.Table
import Mathlib.Data.List.SplitOn

open Licensecc.Codec

namespace Licensecc.Http

/-! ## IPv4 -/

/-- Four octets. -/
def Quad (octets : List Nat) : Prop := octets.length = 4 ∧ ∀ o ∈ octets, o < 256

def dotted (octets : List Nat) : List Char := List.intercalate ['.'] (octets.map (Nat.toDigits 10))

/-! ## IPv6 -/

def isLowerHex (c : Char) : Bool := c.isDigit || ('a' ≤ c && c ≤ 'f')

def hexNumber (t : List Char) : Nat := t.foldl (fun v c => 16 * v + hexValue c) 0

/-- A text of one group. -/
structure Hextet (t : List Char) (n : Nat) : Prop where
  nonempty : t ≠ []
  short : t.length ≤ 4
  digits : ∀ c ∈ t, isLowerHex c = true
  value : hexNumber t = n

/-- Any number of groups with a colon between each two. -/
def Side (s : List Char) (groups : List Nat) : Prop :=
  s = [] ∧ groups = [] ∨
    ∃ ts, ts ≠ [] ∧ s = List.intercalate [':'] ts ∧ List.Forall₂ Hextet ts groups

/-- The two groups of an IPv4 address. -/
def pairGroups : List Nat → List Nat
  | [a, b, c, d] => [a * 256 + b, c * 256 + d]
  | _ => []

/-- A text before the IPv4 address at the end. -/
def withColon (body : List Char) : List Char := if body = [] then [] else body ++ [':']

/-- Groups that can end in an IPv4 address. -/
def LastSide (s : List Char) (groups : List Nat) : Prop :=
  Side s groups ∨ ∃ body front octets, Side body front ∧ Quad octets ∧
    s = withColon body ++ dotted octets ∧ groups = front ++ pairGroups octets

/-- The groups with zeros between the two sides. -/
def fillZeros (front back : List Nat) : List Nat :=
  front ++ List.replicate (8 - (front.length + back.length)) 0 ++ back

/-- A text in lower case of the eight groups. -/
def Ipv6 (s : List Char) (groups : List Nat) : Prop :=
  LastSide s groups ∧ groups.length = 8 ∨
    ∃ left right front back, Side left front ∧ LastSide right back ∧ s = left ++ ':' :: ':' :: right ∧
      front.length + back.length ≤ 7 ∧ groups = fillZeros front back

/-! ## Texts with brackets and zones -/

/-- A character that ends a line. -/
def isLineBreak (c : Char) : Bool := c = '\n' || c = '\r' || c = '\u2028' || c = '\u2029'

/-- Nothing, or a zone on one line. -/
def Zone (s : List Char) : Prop := s = [] ∨ ∃ z, s = '%' :: z ∧ ∀ c ∈ z, isLineBreak c = false

/-- The text with a zone or in brackets, or as it is. -/
def Framed (s core : List Char) : Prop :=
  ∃ zone, Zone zone ∧ (s = core ++ zone ∨ s = '[' :: (core ++ zone) ++ [']'])

inductive Address where
  | v4 (octets : List Nat)
  | v6 (groups : List Nat)

/-- The text is the address, in any case of its letters. -/
def Spells (s : List Char) : Address → Prop
  | .v4 octets => Quad octets ∧ s = dotted octets
  | .v6 groups => ∃ core, Framed s core ∧ Ipv6 (core.map Char.toLower) groups

/-! ## Sources -/

/-- What addresses of one source have in common. -/
inductive Source where
  | ipv4 (octets : List Nat)
  | prefix64 (groups : List Nat)

/-- An IPv4-mapped address is its IPv4 address, and any other IPv6 address is of the source
of its first four groups. -/
def Address.source : Address → Source
  | .v4 octets => .ipv4 octets
  | .v6 [0, 0, 0, 0, 0, 0xffff, g, h] => .ipv4 [g / 256, g % 256, h / 256, h % 256]
  | .v6 groups => .prefix64 (groups.take 4)

def Source.text : Source → List Char
  | .ipv4 octets => dotted octets
  | .prefix64 groups => List.intercalate [':'] (groups.map (Nat.toDigits 16)) ++ "::/64".toList

/-- The notation of a prefix of 64 bits, in hexadecimal without leading zeros. -/
def PrefixNotation (s : List Char) : Prop :=
  ∃ groups : List Nat, groups.length = 4 ∧ (∀ g ∈ groups, g < 65536) ∧
    s = List.intercalate [':'] (groups.map (Nat.toDigits 16)) ++ "::/64".toList

/-! ## Characters -/

/-- A character of an IPv6 address in lower case. -/
def addressChar (c : Char) : Bool := isLowerHex c || c = ':' || c = '.'

variable {s : List Char} {groups octets : List Nat}

theorem Side.chars (h : Side s groups) : ∀ c ∈ s, isLowerHex c = true ∨ c = ':' := by
  intro c hc
  rcases h with ⟨rfl, -⟩ | ⟨ts, -, rfl, hall⟩
  · cases hc
  · induction hall with
    | nil => cases hc
    | @cons t n ts ns ht hall ih =>
      cases ts with
      | nil =>
        rw [List.intercalate_singleton] at hc
        exact Or.inl (ht.digits c hc)
      | cons u ts =>
        rw [List.intercalate_cons_cons] at hc
        rcases List.mem_append.mp hc with hc | hc
        · rcases List.mem_append.mp hc with hc | hc
          · exact Or.inl (ht.digits c hc)
          · exact Or.inr (List.mem_singleton.mp hc)
        · exact ih hc

/-- The groups of a side have a group at the end. -/
theorem Side.last (h : Side s groups) : s.getLast? ≠ some ':' := by
  rcases h with ⟨rfl, -⟩ | ⟨ts, -, rfl, hall⟩
  · simp
  · induction hall with
    | nil => simp [List.intercalate]
    | @cons t n ts ns ht hall ih =>
      cases ts with
      | nil =>
        rw [List.intercalate_singleton]
        intro hlast
        have hmem := List.mem_of_getLast? hlast
        exact absurd (ht.digits ':' hmem) (by decide)
      | cons u ts =>
        rw [List.intercalate_cons_cons]
        intro hlast
        obtain ⟨hu⟩ : Nonempty (u ≠ []) := by
          cases hall with
          | cons hu _ => exact ⟨hu.nonempty⟩
        have hne : List.intercalate [':'] (u :: ts) ≠ [] := by
          cases ts with
          | nil => rwa [List.intercalate_singleton]
          | cons v ts => simp [List.intercalate_cons_cons]
        rw [List.getLast?_append_of_ne_nil _ hne] at hlast
        exact ih hlast

theorem dotted_chars (octets : List Nat) : ∀ c ∈ dotted octets, c.isDigit = true ∨ c = '.' := by
  intro c hc
  unfold dotted at hc
  induction octets with
  | nil => cases hc
  | cons o octets ih =>
    have hdigits : c ∈ Nat.toDigits 10 o → c.isDigit = true :=
      Nat.isDigit_of_mem_toDigits (by omega) (by omega)
    cases octets with
    | nil =>
      simp only [List.map_cons, List.map_nil, List.intercalate_singleton] at hc
      exact Or.inl (hdigits hc)
    | cons p octets =>
      simp only [List.map_cons, List.intercalate_cons_cons] at hc ih
      rcases List.mem_append.mp hc with hc | hc
      · rcases List.mem_append.mp hc with hc | hc
        · exact Or.inl (hdigits hc)
        · exact Or.inr (List.mem_singleton.mp hc)
      · exact ih hc

theorem addressChar_of_isDigit {c : Char} (h : c.isDigit = true) : addressChar c = true := by
  unfold addressChar isLowerHex
  simp [h]

theorem LastSide.chars (h : LastSide s groups) : ∀ c ∈ s, addressChar c = true := by
  have hside : ∀ {t ns}, Side t ns → ∀ c ∈ t, addressChar c = true := by
    intro t ns ht c hc
    unfold addressChar
    rcases ht.chars c hc with hhex | rfl
    · simp [hhex]
    · decide
  intro c hc
  rcases h with h | ⟨body, front, octets, hbody, -, rfl, -⟩
  · exact hside h c hc
  · rcases List.mem_append.mp hc with hc | hc
    · unfold withColon at hc
      split at hc
      · cases hc
      · rcases List.mem_append.mp hc with hc | hc
        · exact hside hbody c hc
        · rw [List.mem_singleton.mp hc]
          decide
    · rcases dotted_chars octets c hc with hdigit | rfl
      · exact addressChar_of_isDigit hdigit
      · decide

theorem Ipv6.chars (h : Ipv6 s groups) : ∀ c ∈ s, addressChar c = true := by
  rcases h with ⟨h, -⟩ | ⟨left, right, front, back, hleft, hright, rfl, -⟩
  · exact h.chars
  · intro c hc
    rcases List.mem_append.mp hc with hc | hc
    · exact LastSide.chars (Or.inl hleft) c hc
    · rcases List.mem_cons.mp hc with rfl | hc
      · decide
      · rcases List.mem_cons.mp hc with rfl | hc
        · decide
        · exact hright.chars c hc

theorem length_pairGroups (h : Quad octets) : (pairGroups octets).length = 2 := by
  obtain ⟨hlen, -⟩ := h
  match octets, hlen with
  | [a, b, c, d], _ => rfl

theorem Ipv6.length (h : Ipv6 s groups) : groups.length = 8 := by
  rcases h with ⟨-, h⟩ | ⟨left, right, front, back, -, -, -, hle, rfl⟩
  · exact h
  · unfold fillZeros
    simp only [List.length_append, List.length_replicate]
    omega

/-! ## Groups -/

theorem hexNumber_append (t : List Char) (c : Char) :
    hexNumber (t ++ [c]) = 16 * hexNumber t + hexValue c := by
  unfold hexNumber
  rw [List.foldl_append]
  rfl

theorem hexValue_lt {c : Char} (h : isLowerHex c = true) : hexValue c < 16 := by
  unfold isLowerHex at h
  unfold hexValue
  split
  · rename_i hdigit
    have := isDigit_toNat hdigit
    omega
  · rename_i hdigit
    simp only [hdigit, Bool.false_or, Bool.and_eq_true, decide_eq_true_eq] at h
    have h1 : 'a'.toNat ≤ c.toNat := h.1
    have h2 : c.toNat ≤ 'f'.toNat := h.2
    have ha : 'a'.toNat = 97 := rfl
    have hf : 'f'.toNat = 102 := rfl
    omega

theorem Hextet.small {t : List Char} {n : Nat} (h : Hextet t n) : n < 65536 := by
  have hall : ∀ t : List Char, (∀ c ∈ t, isLowerHex c = true) → hexNumber t < 16 ^ t.length := by
    intro t
    induction t using List.reverseRecOn with
    | nil =>
      intro _
      decide
    | append_singleton t c ih =>
      intro ht
      have hfront := ih fun d hd => ht d (List.mem_append_left _ hd)
      have hc := hexValue_lt (ht c (by simp))
      rw [hexNumber_append, List.length_append, List.length_singleton, Nat.pow_succ]
      omega
  have hlt := hall t h.digits
  have hle : 16 ^ t.length ≤ 16 ^ 4 := Nat.pow_le_pow_right (by decide) h.short
  rw [h.value] at hlt
  omega

theorem Side.small (h : Side s groups) : ∀ g ∈ groups, g < 65536 := by
  intro g hg
  rcases h with ⟨-, rfl⟩ | ⟨ts, -, -, hall⟩
  · cases hg
  · obtain ⟨t, -, ht⟩ := Sql.forall₂_right hall hg
    exact ht.small

theorem pairGroups_small (h : Quad octets) : ∀ g ∈ pairGroups octets, g < 65536 := by
  obtain ⟨hlen, hsmall⟩ := h
  match octets, hlen with
  | [a, b, c, d], _ =>
    have ha := hsmall a (by simp)
    have hb := hsmall b (by simp)
    have hc := hsmall c (by simp)
    have hd := hsmall d (by simp)
    intro g hg
    simp only [pairGroups, List.mem_cons, List.not_mem_nil, or_false] at hg
    omega

theorem LastSide.small (h : LastSide s groups) : ∀ g ∈ groups, g < 65536 := by
  rcases h with h | ⟨body, front, octets, hbody, hquad, -, rfl⟩
  · exact h.small
  · intro g hg
    rcases List.mem_append.mp hg with hg | hg
    · exact hbody.small g hg
    · exact pairGroups_small hquad g hg

theorem Ipv6.small (h : Ipv6 s groups) : ∀ g ∈ groups, g < 65536 := by
  rcases h with ⟨h, -⟩ | ⟨left, right, front, back, hleft, hright, -, -, rfl⟩
  · exact h.small
  · intro g hg
    unfold fillZeros at hg
    simp only [List.mem_append, List.mem_replicate] at hg
    rcases hg with (hg | ⟨-, rfl⟩) | hg
    · exact hleft.small g hg
    · decide
    · exact hright.small g hg

theorem toDigits_hex (n : Nat) :
    (∀ c ∈ Nat.toDigits 16 n, isLowerHex c = true) ∧ hexNumber (Nat.toDigits 16 n) = n := by
  have hchar : ∀ d < 16, isLowerHex (Nat.digitChar d) = true ∧ hexValue (Nat.digitChar d) = d := by
    decide
  induction n using Nat.strongRecOn with
  | _ n ih =>
    by_cases hn : n < 16
    · rw [Nat.toDigits_of_lt_base hn]
      refine ⟨fun c hc => ?_, ?_⟩
      · rw [List.mem_singleton.mp hc]
        exact (hchar n hn).1
      · simpa [hexNumber] using (hchar n hn).2
    · obtain ⟨hdigits, hvalue⟩ := ih (n / 16) (by omega)
      have hlast := hchar (n % 16) (by omega)
      rw [@Nat.toDigits_of_base_le 16 n (by omega) (by omega)]
      refine ⟨fun c hc => ?_, ?_⟩
      · rcases List.mem_append.mp hc with hc | hc
        · exact hdigits c hc
        · rw [List.mem_singleton.mp hc]
          exact hlast.1
      · rw [hexNumber_append, hvalue, hlast.2]
        omega

theorem hextet_toDigits {n : Nat} (h : n < 65536) : Hextet (Nat.toDigits 16 n) n where
  nonempty := Nat.toDigits_ne_nil
  short := (Nat.length_toDigits_le_iff (by decide) (by decide)).mpr h
  digits := (toDigits_hex n).1
  value := (toDigits_hex n).2

/-! ## Texts of sources -/

/-- The numbers of a source are those of an address. -/
def Source.Proper : Source → Prop
  | .ipv4 octets => Quad octets
  | .prefix64 groups => groups.length = 4

theorem colon_not_mem_dotted (octets : List Nat) : ':' ∉ dotted octets := by
  intro h
  rcases dotted_chars octets _ h with hdigit | hpoint
  · exact absurd hdigit (by decide)
  · exact absurd hpoint (by decide)

theorem colon_mem_prefix (groups : List Nat) : ':' ∈ (Source.prefix64 groups).text := by
  unfold Source.text
  simp

theorem prefix_injective {x y : List Nat} (hx : x.length = 4) (hy : y.length = 4)
    (h : (Source.prefix64 x).text = (Source.prefix64 y).text) : x = y := by
  have hsplit : ∀ {l : List Nat}, l.length = 4 →
      (List.intercalate [':'] (l.map (Nat.toDigits 16))).splitOn ':' = l.map (Nat.toDigits 16) := by
    intro l hl
    apply List.splitOn_intercalate
    · intro t ht hcolon
      obtain ⟨n, -, rfl⟩ := List.mem_map.mp ht
      exact absurd ((toDigits_hex n).1 ':' hcolon) (by decide)
    · rintro hnil
      rw [List.map_eq_nil_iff] at hnil
      rw [hnil] at hl
      cases hl
  have hbody := List.append_cancel_right h
  have hlists := congrArg (List.splitOn ':') hbody
  rw [hsplit hx, hsplit hy] at hlists
  apply List.map_injective_iff.mpr ?_ hlists
  intro m n hmn
  rw [← (toDigits_hex m).2, hmn, (toDigits_hex n).2]

end Licensecc.Http
