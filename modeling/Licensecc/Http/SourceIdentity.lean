-- The client identity that a rate limit keys on, from the value of the header.
import Licensecc.Http.Address
import Licensecc.Webhook.Source

open Licensecc.Codec Licensecc.Sql

namespace Licensecc.Http

open Webhook (trim)

/-! ## The parser -/

/-- `25[0-5]|2[0-4]\d|1\d\d|[1-9]?\d` -/
def octetText : List Char → Bool
  | [c] => c.isDigit
  | [b, c] => '1' ≤ b && b ≤ '9' && c.isDigit
  | [a, b, c] =>
    (a = '2' && b = '5' && '0' ≤ c && c ≤ '5') || (a = '2' && '0' ≤ b && b ≤ '4' && c.isDigit) ||
      (a = '1' && b.isDigit && c.isDigit)
  | _ => false

def IPV4 (s : List Char) : Bool := (s.splitOn '.').length = 4 && (s.splitOn '.').all octetText

def HEXTET (s : List Char) : Bool := 1 ≤ s.length && s.length ≤ 4 && s.all isLowerHex

/-- `text.split("::")` -/
def splitDouble : List Char → List (List Char)
  | ':' :: ':' :: r => [] :: splitDouble r
  | c :: r => (splitDouble r).modifyHead (c :: ·)
  | [] => [[]]

/-- The groups of a part. It has no value when one of them is no number. -/
def parsePart (part : List Char) : Option (List Nat) :=
  if part = [] then some []
  else (part.splitOn ':').mapM fun group => if HEXTET group then some (hexNumber group) else none

/-- The groups of what is left before an embedded IPv4 address, with the two of the address. -/
def bodyGroups (body : List Char) (tail : List Nat) : Option (List Nat) :=
  match splitDouble body with
  | [whole] => do
    let head ← parsePart whole
    if head.length + tail.length ≠ 8 then none else some (head ++ tail)
  | [left, right] => do
    let head ← parsePart left
    let rest ← parsePart right
    let explicit := head.length + rest.length + tail.length
    if 7 < explicit then none else some (head ++ List.replicate (8 - explicit) 0 ++ rest ++ tail)
  | _ => none

def ipv6Groups (text : List Char) : Option (List Nat) :=
  if text.contains '.' then
    let v4 := text.rtakeWhile (· ≠ ':')
    let body := text.rdropWhile (· ≠ ':')
    if !IPV4 v4 then none
    else
      let tail := pairGroups ((v4.splitOn '.').map fun part => Nat.ofDigitChars 10 part 0)
      bodyGroups (if [':', ':'].isSuffixOf body then body else body.dropLast) tail
  else bodyGroups text []

/-! ## The identity -/

/-- `s.toLowerCase()`. Outside ASCII only its effect on addresses matters: what is not ASCII
leaves a character that no address has. -/
structure LowerCase where
  lower : List Char → List Char
  ascii : ∀ s, Ascii s → lower s = s.map Char.toLower
  foreign : ∀ s, ¬ Ascii s → ∃ c ∈ lower s, addressChar c = false

/-- `value.replace(/^\[(.*)\]$/, "$1")` -/
def unbracket (value : List Char) : List Char :=
  match value with
  | '[' :: r =>
    if r.getLast? = some ']' ∧ r.dropLast.all (fun c => !isLineBreak c) then r.dropLast else value
  | _ => value

/-- `value.replace(/%.*$/, "")` -/
def dropZone : List Char → List Char
  | [] => []
  | c :: r => if c = '%' ∧ r.all (fun c => !isLineBreak c) then [] else c :: dropZone r

def isMapped (groups : List Nat) : Bool :=
  (groups.take 5).all (· = 0) && groups[5]? = some 0xffff

def mappedText (groups : List Nat) : List Char :=
  let g := groups.getD 6 0
  let h := groups.getD 7 0
  List.intercalate ['.'] ([g >>> 8, g &&& 0xff, h >>> 8, h &&& 0xff].map (Nat.toDigits 10))

def prefixText (groups : List Nat) : List Char :=
  List.intercalate [':'] ((groups.take 4).map (Nat.toDigits 16)) ++ "::/64".toList

def sourceIdentity (L : LowerCase) (raw : List Char) : List Char :=
  let value := trim raw
  if IPV4 value then value
  else
    let address := L.lower (dropZone (unbracket value))
    if !address.contains ':' then value
    else
      match ipv6Groups address with
      | none => value
      | some groups => if isMapped groups then mappedText groups else prefixText groups

/-! ## Octets -/

theorem isNumeral_of_octetText {t : List Char} (h : octetText t = true) :
    isNumeral t = true ∧ Nat.ofDigitChars 10 t 0 < 256 := by
  have hchar : ∀ {c d : Char}, c ≤ d → c.toNat ≤ d.toNat := fun h => h
  have hdigit : ∀ {c : Char}, c.isDigit = true → 48 ≤ c.toNat ∧ c.toNat ≤ 57 := isDigit_toNat
  have hback : ∀ {c : Char}, 48 ≤ c.toNat → c.toNat ≤ 57 → c.isDigit = true := by
    intro c h1 h2
    simp only [Char.isDigit, ge_iff_le, Bool.and_eq_true, decide_eq_true_eq]
    exact ⟨h1, h2⟩
  have hzero : ∀ {c : Char}, 49 ≤ c.toNat → c ≠ '0' := by
    rintro c h rfl
    exact absurd h (by decide)
  unfold octetText at h
  split at h
  · rename_i c
    have hc := hdigit h
    refine ⟨isNumeral_iff.mpr ⟨by simp, by simpa using h, Or.inl rfl⟩, ?_⟩
    simp only [Nat.ofDigitChars_cons, Nat.ofDigitChars_nil, Char.reduceToNat]
    omega
  · rename_i b c
    simp only [Bool.and_eq_true, decide_eq_true_eq] at h
    obtain ⟨⟨hb1, hb9⟩, hc⟩ := h
    have h1 : 49 ≤ b.toNat := hchar hb1
    have h9 : b.toNat ≤ 57 := hchar hb9
    have hc' := hdigit hc
    refine ⟨isNumeral_iff.mpr ⟨by simp, ?_, Or.inr (by simpa using hzero h1)⟩, ?_⟩
    · simp only [List.forall_mem_cons, List.not_mem_nil, IsEmpty.forall_iff, implies_true, and_true]
      exact ⟨hback (by omega) h9, hc⟩
    · simp only [Nat.ofDigitChars_cons, Nat.ofDigitChars_nil, Char.reduceToNat]
      omega
  · rename_i a b c
    simp only [Bool.or_eq_true, Bool.and_eq_true, decide_eq_true_eq] at h
    have hall : 49 ≤ a.toNat ∧ a.toNat ≤ 50 ∧ (48 ≤ b.toNat ∧ b.toNat ≤ 57) ∧
        (48 ≤ c.toNat ∧ c.toNat ≤ 57) ∧
        (a.toNat = 50 → b.toNat < 53 ∨ b.toNat = 53 ∧ c.toNat ≤ 53) := by
      rcases h with (⟨⟨⟨rfl, rfl⟩, h0⟩, h5⟩ | ⟨⟨⟨rfl, h0⟩, h4⟩, hc⟩) | ⟨⟨rfl, hb⟩, hc⟩
      · have h0 : 48 ≤ c.toNat := hchar h0
        have h5 : c.toNat ≤ 53 := hchar h5
        exact ⟨by decide, by decide, ⟨by decide, by decide⟩, ⟨h0, by omega⟩, fun _ => Or.inr ⟨rfl, h5⟩⟩
      · have h0 : 48 ≤ b.toNat := hchar h0
        have h4 : b.toNat ≤ 52 := hchar h4
        have hc := hdigit hc
        simp only [Char.reduceToNat]
        omega
      · have hb := hdigit hb
        have hc := hdigit hc
        simp only [Char.reduceToNat]
        omega
    obtain ⟨ha1, ha2, hb, hc, hlarge⟩ := hall
    refine ⟨isNumeral_iff.mpr ⟨by simp, ?_, Or.inr (by simpa using hzero ha1)⟩, ?_⟩
    · simp only [List.forall_mem_cons, List.not_mem_nil, IsEmpty.forall_iff, implies_true, and_true]
      exact ⟨hback (by omega) (by omega), hback hb.1 hb.2, hback hc.1 hc.2⟩
    · simp only [Nat.ofDigitChars_cons, Nat.ofDigitChars_nil, Char.reduceToNat]
      omega
  · cases h

set_option maxRecDepth 10000 in
theorem octetText_toDigits {n : Nat} (h : n < 256) : octetText (Nat.toDigits 10 n) = true := by
  have hall : ∀ n < 256, octetText (Nat.toDigits 10 n) = true := by decide
  exact hall n h

theorem point_not_mem_toDigits (n : Nat) : '.' ∉ Nat.toDigits 10 n := by
  intro h
  exact absurd (Nat.isDigit_of_mem_toDigits (b := 10) (by omega) (by omega) h) (by decide)

theorem splitOn_dotted {octets : List Nat} (h : octets ≠ []) :
    (dotted octets).splitOn '.' = octets.map (Nat.toDigits 10) := by
  unfold dotted
  apply List.splitOn_intercalate
  · intro t ht
    obtain ⟨n, -, rfl⟩ := List.mem_map.mp ht
    exact point_not_mem_toDigits n
  · simpa using h

/-- The pattern matches the texts of four octets. -/
theorem IPV4_iff {s : List Char} : IPV4 s = true ↔ ∃ octets, Quad octets ∧ s = dotted octets := by
  unfold IPV4
  rw [Bool.and_eq_true, decide_eq_true_eq, List.all_eq_true]
  constructor
  · rintro ⟨hlen, hall⟩
    refine ⟨(s.splitOn '.').map fun t => Nat.ofDigitChars 10 t 0, ⟨by simpa using hlen, ?_⟩, ?_⟩
    · intro o ho
      obtain ⟨t, ht, rfl⟩ := List.mem_map.mp ho
      exact (isNumeral_of_octetText (hall t ht)).2
    · unfold dotted
      rw [List.map_map]
      have hsame : (s.splitOn '.').map (Nat.toDigits 10 ∘ fun t => Nat.ofDigitChars 10 t 0) =
          s.splitOn '.' := by
        conv => rhs; rw [← List.map_id (s.splitOn '.')]
        apply List.map_congr_left
        intro t ht
        exact toDigits_value (isNumeral_of_octetText (hall t ht)).1
      rw [hsame, List.intercalate_splitOn]
  · rintro ⟨octets, ⟨hlen, hsmall⟩, rfl⟩
    have hne : octets ≠ [] := by
      rintro rfl
      cases hlen
    rw [splitOn_dotted hne]
    refine ⟨by simpa using hlen, ?_⟩
    intro t ht
    obtain ⟨o, ho, rfl⟩ := List.mem_map.mp ht
    exact octetText_toDigits (hsmall o ho)

theorem octets_dotted {octets : List Nat} (h : Quad octets) :
    ((dotted octets).splitOn '.').map (fun part => Nat.ofDigitChars 10 part 0) = octets := by
  have hne : octets ≠ [] := by
    rintro rfl
    cases h.1
  rw [splitOn_dotted hne, List.map_map]
  conv => rhs; rw [← List.map_id octets]
  apply List.map_congr_left
  intro n _
  exact Nat.ofDigitChars_ten_toDigits

theorem dotted_injective {x y : List Nat} (hx : Quad x) (hy : Quad y) (h : dotted x = dotted y) :
    x = y := by
  rw [← octets_dotted hx, h, octets_dotted hy]

/-! ## Parts -/

theorem HEXTET_iff {t : List Char} : HEXTET t = true ↔ Hextet t (hexNumber t) := by
  unfold HEXTET
  simp only [Bool.and_eq_true, decide_eq_true_eq, List.all_eq_true]
  constructor
  · rintro ⟨⟨h1, h4⟩, hall⟩
    refine ⟨?_, h4, hall, rfl⟩
    rintro rfl
    cases h1
  · intro h
    exact ⟨⟨List.length_pos_iff.mpr h.nonempty, h.short⟩, h.digits⟩

/-- The groups of a part are those of a side. -/
theorem parsePart_eq_some {part : List Char} {groups : List Nat} :
    parsePart part = some groups ↔ Side part groups := by
  have hmap : ∀ {ts : List (List Char)} {ns : List Nat},
      ts.mapM (fun group => if HEXTET group then some (hexNumber group) else none) = some ns ↔
        List.Forall₂ Hextet ts ns := by
    intro ts
    induction ts with
    | nil =>
      intro ns
      cases ns <;> simp
    | cons t ts ih =>
      intro ns
      rw [List.mapM_cons]
      constructor
      · intro h
        obtain ⟨n, hn, h⟩ := Option.bind_eq_some_iff.mp h
        obtain ⟨ms, hms, h⟩ := Option.bind_eq_some_iff.mp h
        obtain rfl := Option.some.inj h
        split at hn
        · rename_i ht
          obtain rfl := Option.some.inj hn
          exact .cons (HEXTET_iff.mp ht) (ih.mp hms)
        · cases hn
      · intro h
        cases h with
        | cons ht hts =>
          obtain rfl := ht.value
          rw [if_pos (HEXTET_iff.mpr ht), ih.mpr hts]
          rfl
  unfold parsePart Side
  by_cases hpart : part = []
  · subst hpart
    rw [if_pos rfl]
    constructor
    · intro h
      exact Or.inl ⟨rfl, (Option.some.inj h).symm⟩
    · rintro (⟨-, rfl⟩ | ⟨ts, hne, hs, hall⟩)
      · rfl
      · cases hall with
        | nil => exact absurd rfl hne
        | @cons t n ts ns ht hts =>
          exfalso
          apply ht.nonempty
          cases ts with
          | nil => simpa using hs.symm
          | cons u ts => simp [List.intercalate_cons_cons] at hs
  · rw [if_neg hpart, hmap]
    constructor
    · intro h
      exact Or.inr ⟨part.splitOn ':', List.splitOn_ne_nil _ _, (List.intercalate_splitOn _).symm, h⟩
    · rintro (⟨rfl, -⟩ | ⟨ts, hne, rfl, hall⟩)
      · exact absurd rfl hpart
      · rw [List.splitOn_intercalate]
        · exact hall
        · intro t ht hcolon
          obtain ⟨n, -, htn⟩ := forall₂_left hall ht
          exact absurd (htn.digits ':' hcolon) (by decide)
        · exact hne

/-! ## The two colons -/

theorem splitDouble_cons {c : Char} {r : List Char} (h : c ≠ ':') :
    splitDouble (c :: r) = (splitDouble r).modifyHead (c :: ·) := by
  rw [splitDouble]
  intro r' hc
  exact absurd hc h

theorem splitDouble_colon {c : Char} {r : List Char} (h : c ≠ ':') :
    splitDouble (':' :: c :: r) = (splitDouble (c :: r)).modifyHead (':' :: ·) := by
  rw [splitDouble]
  intro r' _ hr
  exact h (List.cons.inj hr).1

theorem modifyHead_nil_append (l : List (List Char)) : l.modifyHead ([] ++ ·) = l := by
  cases l <;> rfl

theorem splitDouble_append {t : List Char} (ht : ':' ∉ t) (r : List Char) :
    splitDouble (t ++ r) = (splitDouble r).modifyHead (t ++ ·) := by
  induction t with
  | nil => exact (modifyHead_nil_append _).symm
  | cons c t ih =>
    rw [List.mem_cons, not_or] at ht
    rw [List.cons_append, splitDouble_cons (Ne.symm ht.1), ih ht.2, List.modifyHead_modifyHead]
    rfl

/-- No colons of a side are taken for the two colons. -/
theorem splitDouble_side {l : List Char} {groups : List Nat} (h : Side l groups) (r : List Char) :
    splitDouble (l ++ r) = (splitDouble r).modifyHead (l ++ ·) := by
  rcases h with ⟨rfl, -⟩ | ⟨ts, -, rfl, hall⟩
  · exact (modifyHead_nil_append _).symm
  · induction hall with
    | nil => exact (modifyHead_nil_append _).symm
    | @cons t n ts ns ht hall ih =>
      have hcolon : ':' ∉ t := fun hmem => absurd (ht.digits ':' hmem) (by decide)
      cases hall with
      | nil =>
        rw [List.intercalate_singleton]
        exact splitDouble_append hcolon r
      | @cons u m ts ns hu hall =>
        have hfront : ∃ d rest, List.intercalate [':'] (u :: ts) = d :: rest ∧ d ≠ ':' := by
          obtain ⟨d, u', rfl⟩ := List.exists_cons_of_ne_nil hu.nonempty
          have hd : d ≠ ':' := by
            rintro rfl
            exact absurd (hu.digits ':' List.mem_cons_self) (by decide)
          cases ts with
          | nil => exact ⟨d, u', by simp, hd⟩
          | cons v ts => exact ⟨d, _, by rw [List.intercalate_cons_cons]; rfl, hd⟩
        obtain ⟨d, rest, hfront, hd⟩ := hfront
        rw [List.intercalate_cons_cons, List.append_assoc, List.append_assoc,
          splitDouble_append hcolon, List.singleton_append]
        rw [hfront] at ih ⊢
        rw [List.cons_append, splitDouble_colon hd, ← List.cons_append, ih,
          List.modifyHead_modifyHead, List.modifyHead_modifyHead]
        congr 1
        funext x
        simp

theorem splitDouble_ne_nil (s : List Char) : splitDouble s ≠ [] := by
  induction s using splitDouble.induct with
  | case1 r ih =>
    rw [splitDouble]
    simp
  | case2 c r h ih =>
    rw [splitDouble]
    · simpa using ih
    · exact h
  | case3 => simp [splitDouble]

theorem intercalate_splitDouble (s : List Char) : List.intercalate [':', ':'] (splitDouble s) = s := by
  induction s using splitDouble.induct with
  | case1 r ih =>
    rw [splitDouble]
    obtain ⟨x, xs, hx⟩ := List.exists_cons_of_ne_nil (splitDouble_ne_nil r)
    rw [hx] at ih ⊢
    rw [List.intercalate_cons_cons, ih]
    rfl
  | case2 c r h ih =>
    rw [splitDouble]
    · obtain ⟨x, xs, hx⟩ := List.exists_cons_of_ne_nil (splitDouble_ne_nil r)
      rw [hx] at ih ⊢
      rw [List.modifyHead_cons]
      cases xs with
      | nil => simpa using ih
      | cons y ys =>
        rw [List.intercalate_cons_cons] at ih ⊢
        rw [List.cons_append, List.cons_append, ih]
    · exact h
  | case3 => rfl

/-- The groups of a body are those of one side, or of two with zeros between them. -/
theorem bodyGroups_eq_some {body : List Char} {tail groups : List Nat} :
    bodyGroups body tail = some groups ↔
      (∃ front, Side body front ∧ front.length + tail.length = 8 ∧ groups = front ++ tail) ∨
      ∃ left right front back, Side left front ∧ Side right back ∧
        body = left ++ ':' :: ':' :: right ∧ front.length + (back ++ tail).length ≤ 7 ∧
        groups = fillZeros front (back ++ tail) := by
  have hjoin := intercalate_splitDouble body
  constructor
  · intro h
    unfold bodyGroups at h
    split at h
    · rename_i whole hsplit
      rw [hsplit, List.intercalate_singleton] at hjoin
      subst hjoin
      obtain ⟨head, hhead, h⟩ := Option.bind_eq_some_iff.mp h
      split_ifs at h with hlen
      exact Or.inl ⟨head, parsePart_eq_some.mp hhead, by omega, (Option.some.inj h).symm⟩
    · rename_i left right hsplit
      rw [hsplit, List.intercalate_cons_cons, List.intercalate_singleton] at hjoin
      obtain ⟨head, hhead, h⟩ := Option.bind_eq_some_iff.mp h
      obtain ⟨rest, hrest, h⟩ := Option.bind_eq_some_iff.mp h
      dsimp only at h
      split_ifs at h with hlen
      refine Or.inr ⟨left, right, head, rest, parsePart_eq_some.mp hhead,
        parsePart_eq_some.mp hrest, by simpa using hjoin.symm, ?_, ?_⟩
      · rw [List.length_append]
        omega
      · rw [← Option.some.inj h]
        unfold fillZeros
        rw [List.length_append, ← Nat.add_assoc]
        simp
    · cases h
  · rintro (⟨front, hside, hlen, rfl⟩ | ⟨left, right, front, back, hleft, hright, rfl, hle, rfl⟩)
    · have hsplit : splitDouble body = [body] := by
        have h := splitDouble_side hside []
        rw [List.append_nil] at h
        rw [h]
        simp [splitDouble]
      unfold bodyGroups
      rw [hsplit]
      simp only [parsePart_eq_some.mpr hside, Option.bind_eq_bind, Option.bind_some]
      rw [if_neg (by omega)]
    · have hsplit : splitDouble (left ++ ':' :: ':' :: right) = [left, right] := by
        have h := splitDouble_side hright []
        rw [List.append_nil] at h
        rw [splitDouble_side hleft, splitDouble, h]
        simp [splitDouble]
      rw [List.length_append] at hle
      unfold bodyGroups
      rw [hsplit]
      simp only [parsePart_eq_some.mpr hleft, parsePart_eq_some.mpr hright, Option.bind_eq_bind,
        Option.bind_some]
      rw [if_neg (by omega)]
      unfold fillZeros
      rw [List.length_append, ← Nat.add_assoc]
      simp

/-! ## The embedded address -/

/-- Nothing, or a text that ends in a colon. -/
def UpToColon (s : List Char) : Prop := s = [] ∨ ∃ p, s = p ++ [':']

theorem split_at_last_colon {u v : List Char} (hu : UpToColon u) (hv : ':' ∉ v) :
    (u ++ v).rdropWhile (· ≠ ':') = u ∧ (u ++ v).rtakeWhile (· ≠ ':') = v := by
  induction v using List.reverseRecOn with
  | nil =>
    rw [List.append_nil]
    rcases hu with rfl | ⟨p, rfl⟩
    · exact ⟨rfl, rfl⟩
    · exact ⟨List.rdropWhile_concat_neg _ _ _ (by simp), List.rtakeWhile_concat_neg _ _ _ (by simp)⟩
  | append_singleton v c ih =>
    rw [List.mem_append, not_or, List.mem_singleton] at hv
    obtain ⟨hdrop, htake⟩ := ih hv.1
    have hc : decide (c ≠ ':') = true := by simpa using Ne.symm hv.2
    rw [← List.append_assoc]
    rw [List.rdropWhile_concat_pos (· ≠ ':') (u ++ v) c hc,
      List.rtakeWhile_concat_pos (· ≠ ':') (u ++ v) c hc, hdrop, htake]
    exact ⟨rfl, rfl⟩

theorem upToColon_rdropWhile (s : List Char) : UpToColon (s.rdropWhile (· ≠ ':')) := by
  by_cases h : s.rdropWhile (· ≠ ':') = []
  · exact Or.inl h
  · have hlast := List.rdropWhile_last_not (· ≠ ':') s h
    refine Or.inr ⟨(s.rdropWhile (· ≠ ':')).dropLast, ?_⟩
    have hcolon : (s.rdropWhile (· ≠ ':')).getLast h = ':' := by simpa using hlast
    have hconcat := List.dropLast_concat_getLast h
    rw [hcolon] at hconcat
    exact hconcat.symm

theorem point_mem_dotted {octets : List Nat} (h : Quad octets) : '.' ∈ dotted octets := by
  obtain ⟨hlen, -⟩ := h
  match octets, hlen with
  | [a, b, c, d], _ =>
    unfold dotted
    rw [List.map_cons, List.map_cons, List.intercalate_cons_cons]
    simp

theorem point_not_mem_side {s : List Char} {groups : List Nat} (h : Side s groups) : '.' ∉ s := by
  intro hmem
  rcases h.chars _ hmem with hhex | hcolon
  · exact absurd hhex (by decide)
  · exact absurd hcolon (by decide)

theorem lastSide_of_no_point {s : List Char} {groups : List Nat} (h : '.' ∉ s) :
    LastSide s groups ↔ Side s groups := by
  constructor
  · rintro (hside | ⟨body, front, octets, -, hquad, rfl, -⟩)
    · exact hside
    · exact absurd (List.mem_append_right _ (point_mem_dotted hquad)) h
  · exact Or.inl

/-- Without an embedded address. -/
theorem ipv6_of_no_point {s : List Char} {groups : List Nat} (h : '.' ∉ s) :
    Ipv6 s groups ↔ bodyGroups s [] = some groups := by
  rw [bodyGroups_eq_some]
  unfold Ipv6
  simp only [List.append_nil, List.length_nil, Nat.add_zero, lastSide_of_no_point h]
  constructor
  · rintro (⟨hside, hlen⟩ | ⟨left, right, front, back, hleft, hright, rfl, hle, rfl⟩)
    · exact Or.inl ⟨groups, hside, hlen, rfl⟩
    · have hpoint : '.' ∉ right := fun hmem => h (by simp [hmem])
      exact Or.inr ⟨left, right, front, back, hleft, (lastSide_of_no_point hpoint).mp hright, rfl,
        hle, rfl⟩
  · rintro (⟨front, hside, hlen, rfl⟩ | ⟨left, right, front, back, hleft, hright, rfl, hle, rfl⟩)
    · exact Or.inl ⟨hside, hlen⟩
    · exact Or.inr ⟨left, right, front, back, hleft, Or.inl hright, rfl, hle, rfl⟩

/-- What is left before the embedded address. -/
def bodyBefore (upTo : List Char) : List Char :=
  if [':', ':'].isSuffixOf upTo then upTo else upTo.dropLast

theorem bodyBefore_double (p : List Char) : bodyBefore (p ++ [':', ':']) = p ++ [':', ':'] := by
  unfold bodyBefore
  rw [if_pos (by simp)]

theorem bodyBefore_single {p : List Char} (h : p.getLast? ≠ some ':') :
    bodyBefore (p ++ [':']) = p := by
  unfold bodyBefore
  rw [if_neg, List.dropLast_concat]
  intro hsuffix
  obtain ⟨q, hq⟩ := List.isSuffixOf_iff_suffix.mp hsuffix
  have hp : q ++ [':'] = p := by
    have : (q ++ [':']) ++ [':'] = p ++ [':'] := by simpa using hq
    exact List.append_cancel_right this
  rw [← hp] at h
  simp at h

theorem Side.nil {groups : List Nat} (h : Side [] groups) : groups = [] := by
  rcases h with ⟨-, rfl⟩ | ⟨ts, hne, hs, hall⟩
  · rfl
  · cases hall with
    | nil => rfl
    | @cons t n ts ns ht hts =>
      exfalso
      apply ht.nonempty
      cases ts with
      | nil => simpa using hs.symm
      | cons u ts => simp [List.intercalate_cons_cons] at hs

section
variable {upTo : List Char} {octets groups : List Nat}

/-- Where the text ends in a dotted address, its last side does. -/
theorem lastSide_dotted (hu : UpToColon upTo) (hquad : Quad octets) {front right : List Char}
    {back : List Nat} (hfront : UpToColon front) (hpoint : '.' ∉ front) (hright : LastSide right back)
    (heq : front ++ right = upTo ++ dotted octets) :
    ∃ body ns, Side body ns ∧ front ++ withColon body = upTo ∧ back = ns ++ pairGroups octets := by
  rcases hright with hside | ⟨body, ns, octets', hbody, hquad', rfl, rfl⟩
  · have hmem : '.' ∈ front ++ right := heq ▸ List.mem_append_right _ (point_mem_dotted hquad)
    rcases List.mem_append.mp hmem with hmem | hmem
    · exact absurd hmem hpoint
    · exact absurd hmem (point_not_mem_side hside)
  · have hbefore : UpToColon (front ++ withColon body) := by
      unfold withColon
      split
      · rwa [List.append_nil]
      · exact Or.inr ⟨front ++ body, (List.append_assoc ..).symm⟩
    have h1 := split_at_last_colon hbefore (colon_not_mem_dotted octets')
    have h2 := split_at_last_colon hu (colon_not_mem_dotted octets)
    rw [List.append_assoc, heq] at h1
    obtain rfl := dotted_injective hquad' hquad (h1.2.symm.trans h2.2)
    exact ⟨body, ns, hbody, h1.1.symm.trans h2.1, rfl⟩

theorem bodyGroups_of_ipv6 (hu : UpToColon upTo) (hquad : Quad octets)
    (h : Ipv6 (upTo ++ dotted octets) groups) :
    bodyGroups (bodyBefore upTo) (pairGroups octets) = some groups := by
  have htail := length_pairGroups hquad
  rw [bodyGroups_eq_some]
  rcases h with ⟨hlast, hlen⟩ | ⟨left, right, front, back, hleft, hright, heq, hle, rfl⟩
  · obtain ⟨body, ns, hbody, hupTo, rfl⟩ := lastSide_dotted hu hquad (Or.inl rfl) (by simp) hlast
      (List.nil_append _)
    rw [List.length_append] at hlen
    have hne : body ≠ [] := by
      rintro rfl
      rw [hbody.nil, List.length_nil] at hlen
      omega
    unfold withColon at hupTo
    rw [if_neg hne, List.nil_append] at hupTo
    rw [← hupTo, bodyBefore_single hbody.last]
    exact Or.inl ⟨ns, hbody, hlen, rfl⟩
  · have hpoint : '.' ∉ left ++ [':', ':'] := by
      rw [List.mem_append, not_or]
      exact ⟨point_not_mem_side hleft, by decide⟩
    obtain ⟨body, ns, hbody, hupTo, rfl⟩ := lastSide_dotted hu hquad
      (Or.inr ⟨left ++ [':'], by simp⟩) hpoint hright (by simpa using heq.symm)
    right
    by_cases hne : body = []
    · subst hne
      obtain rfl := hbody.nil
      rw [← hupTo]
      unfold withColon
      rw [if_pos rfl, List.append_nil, bodyBefore_double]
      exact ⟨left, [], front, [], hleft, hbody, rfl, hle, rfl⟩
    · unfold withColon at hupTo
      rw [if_neg hne, ← List.append_assoc] at hupTo
      have hlast : (left ++ [':', ':'] ++ body).getLast? ≠ some ':' := by
        rw [List.getLast?_append_of_ne_nil _ hne]
        exact hbody.last
      rw [← hupTo, bodyBefore_single hlast]
      exact ⟨left, body, front, ns, hleft, hbody, by simp, hle, rfl⟩

theorem ipv6_of_bodyGroups (hu : UpToColon upTo) (hquad : Quad octets)
    (h : bodyGroups (bodyBefore upTo) (pairGroups octets) = some groups) :
    Ipv6 (upTo ++ dotted octets) groups := by
  have htail := length_pairGroups hquad
  rw [bodyGroups_eq_some] at h
  rcases hu with rfl | ⟨p, rfl⟩
  · -- Nothing comes before the dotted address.
    rcases h with ⟨front, hside, hlen, -⟩ | ⟨left, right, -, -, -, -, heq, -⟩
    · rw [hside.nil, List.length_nil] at hlen
      omega
    · cases left <;> cases heq
  · by_cases hp : p.getLast? = some ':'
    · -- The two colons stand right before the dotted address.
      obtain ⟨q, rfl⟩ := List.getLast?_eq_some_iff.mp hp
      rw [show q ++ [':'] ++ [':'] = q ++ [':', ':'] by simp] at h ⊢
      rw [bodyBefore_double] at h
      rcases h with ⟨front, hside, -⟩ | ⟨left, right, front, back, hleft, hright, heq, hle, rfl⟩
      · exact absurd (by simp) hside.last
      · have hnil : right = [] := by
          by_contra hne
          apply hright.last
          have hlast := congrArg List.getLast? heq
          rw [show left ++ ':' :: ':' :: right = left ++ [':', ':'] ++ right by simp,
            List.getLast?_append_of_ne_nil _ hne] at hlast
          rw [← hlast]
          simp
        subst hnil
        obtain rfl := hright.nil
        refine Or.inr ⟨left, dotted octets, front, pairGroups octets, hleft, ?_, ?_, hle, rfl⟩
        · exact Or.inr ⟨[], [], octets, hright, hquad, rfl, rfl⟩
        · rw [heq]
          simp
    · -- A group stands right before the dotted address.
      rw [bodyBefore_single hp] at h
      rcases h with ⟨front, hside, hlen, rfl⟩ | ⟨left, right, front, back, hleft, hright, rfl, hle, rfl⟩
      · have hne : p ≠ [] := by
          rintro rfl
          rw [hside.nil, List.length_nil] at hlen
          omega
        refine Or.inl ⟨Or.inr ⟨p, front, octets, hside, hquad, ?_, rfl⟩, by simpa using hlen⟩
        unfold withColon
        rw [if_neg hne]
      · have hne : right ≠ [] := by
          rintro rfl
          exact hp (by simp)
        refine Or.inr ⟨left, right ++ [':'] ++ dotted octets, front, back ++ pairGroups octets, hleft,
          Or.inr ⟨right, back, octets, hright, hquad, ?_, rfl⟩, by simp, hle, rfl⟩
        unfold withColon
        rw [if_neg hne]

end

/-- An address with a point ends in a dotted address. -/
theorem ipv6_with_point {s : List Char} {groups : List Nat} (hpoint : '.' ∈ s) (h : Ipv6 s groups) :
    ∃ upTo octets, UpToColon upTo ∧ Quad octets ∧ s = upTo ++ dotted octets := by
  have hlast : ∀ {front right : List Char} {back : List Nat}, UpToColon front → '.' ∉ front →
      '.' ∈ front ++ right → LastSide right back →
      ∃ upTo octets, UpToColon upTo ∧ Quad octets ∧ front ++ right = upTo ++ dotted octets := by
    intro front right back hfront hno hmem hright
    rcases hright with hside | ⟨body, ns, octets, -, hquad, rfl, -⟩
    · rcases List.mem_append.mp hmem with hmem | hmem
      · exact absurd hmem hno
      · exact absurd hmem (point_not_mem_side hside)
    · refine ⟨front ++ withColon body, octets, ?_, hquad, (List.append_assoc ..).symm⟩
      unfold withColon
      split
      · rwa [List.append_nil]
      · exact Or.inr ⟨front ++ body, (List.append_assoc ..).symm⟩
  rcases h with ⟨hright, -⟩ | ⟨left, right, front, back, hleft, hright, rfl, -⟩
  · exact hlast (Or.inl rfl) (by simp) hpoint hright
  · have hno : '.' ∉ left ++ [':', ':'] := by
      rw [List.mem_append, not_or]
      exact ⟨point_not_mem_side hleft, by decide⟩
    have h := hlast (Or.inr ⟨left ++ [':'], by simp⟩) hno (by simpa using hpoint) hright
    simpa using h

/-- The parser takes the texts of addresses, and gives their groups. -/
theorem ipv6Groups_eq_some {s : List Char} {groups : List Nat} :
    ipv6Groups s = some groups ↔ Ipv6 s groups := by
  unfold ipv6Groups
  by_cases hpoint : '.' ∈ s
  · rw [if_pos (by simpa using hpoint)]
    have hu := upToColon_rdropWhile s
    have hv : ':' ∉ s.rtakeWhile (· ≠ ':') := by
      intro hmem
      exact absurd (List.mem_rtakeWhile_imp hmem) (by decide)
    have hs : s.rdropWhile (· ≠ ':') ++ s.rtakeWhile (· ≠ ':') = s :=
      List.rdropWhile_append_rtakeWhile ..
    dsimp only
    by_cases hv4 : IPV4 (s.rtakeWhile (· ≠ ':')) = true
    · obtain ⟨octets, hquad, hdotted⟩ := IPV4_iff.mp hv4
      rw [hdotted] at hs
      rw [if_neg (by simpa using hv4), hdotted, octets_dotted hquad]
      conv => rhs; rw [← hs]
      exact ⟨ipv6_of_bodyGroups hu hquad, bodyGroups_of_ipv6 hu hquad⟩
    · rw [if_pos (by simpa using hv4)]
      constructor
      · intro h
        cases h
      · intro h
        obtain ⟨upTo, octets, hupTo, hquad, rfl⟩ := ipv6_with_point hpoint h
        rw [(split_at_last_colon hupTo (colon_not_mem_dotted octets)).2] at hv4
        exact absurd (IPV4_iff.mpr ⟨octets, hquad, rfl⟩) hv4
  · rw [if_neg (by simpa using hpoint)]
    exact (ipv6_of_no_point hpoint).symm

end Licensecc.Http
