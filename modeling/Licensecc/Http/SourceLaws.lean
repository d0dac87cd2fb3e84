-- The laws of the source identity. Two addresses have one identity when they are of one
-- source, and a value that is no address has the identity of one exactly when it is the
-- notation of a prefix.
import Licensecc.Http.SourceIdentity

open Licensecc.Codec

namespace Licensecc.Http

open Webhook (trim whitespace)

variable {L : LowerCase} {s v core : List Char} {groups octets : List Nat}

/-! ## Lower case -/

theorem addressChar_ascii {c : Char} (h : addressChar c = true) : c.toNat < 128 := by
  unfold addressChar isLowerHex at h
  simp only [Bool.or_eq_true, Bool.and_eq_true, decide_eq_true_eq] at h
  rcases h with ((hdigit | ⟨-, hf⟩) | rfl) | rfl
  · have := isDigit_toNat hdigit
    omega
  · have hf : c.toNat ≤ 'f'.toNat := hf
    have : 'f'.toNat = 102 := rfl
    omega
  · decide
  · decide

/-- A character whose lower case is one of an address. -/
theorem addressChar_toLower {c : Char} (h : addressChar c.toLower = true) :
    c.toNat < 128 ∧ c ≠ '%' ∧ c ≠ '[' ∧ isLineBreak c = false := by
  have hascii : c.toNat < 128 := by
    have heq : c.isUpper = decide (c.val ≥ 'A'.val ∧ c.val ≤ 'Z'.val) := rfl
    by_cases hupper : c.isUpper = true
    · simp only [heq, decide_eq_true_eq] at hupper
      have h2 : c.toNat ≤ 'Z'.toNat := hupper.2
      have : 'Z'.toNat = 90 := rfl
      omega
    · have hsame : c.toLower = c := by
        unfold Char.toLower
        rw [dif_neg (by simpa [heq] using hupper)]
      rw [hsame] at h
      exact addressChar_ascii h
  refine ⟨hascii, ?_, ?_, ?_⟩
  · rintro rfl
    exact absurd h (by decide)
  · rintro rfl
    exact absurd h (by decide)
  · by_contra hbreak
    rw [Bool.not_eq_false] at hbreak
    unfold isLineBreak at hbreak
    simp only [Bool.or_eq_true, decide_eq_true_eq] at hbreak
    rcases hbreak with ((rfl | rfl) | rfl) | rfl
    · exact absurd h (by decide)
    · exact absurd h (by decide)
    · exact absurd h (by decide)
    · exact absurd h (by decide)

theorem core_chars (h : Ipv6 (core.map Char.toLower) groups) :
    ∀ c ∈ core, c.toNat < 128 ∧ c ≠ '%' ∧ c ≠ '[' ∧ isLineBreak c = false :=
  fun _ hc => addressChar_toLower (h.chars _ (List.mem_map_of_mem hc))

/-! ## Brackets and zones -/

theorem dropZone_append {zone : List Char} (hcore : '%' ∉ core) (hzone : Zone zone) :
    dropZone (core ++ zone) = core := by
  induction core with
  | nil =>
    rcases hzone with rfl | ⟨z, rfl, hz⟩
    · rfl
    · have hall : z.all (fun c => !isLineBreak c) = true := by
        rw [List.all_eq_true]
        intro c hc
        rw [hz c hc]
        rfl
      rw [List.nil_append, dropZone, if_pos ⟨rfl, hall⟩]
  | cons c core ih =>
    rw [List.mem_cons, not_or] at hcore
    rw [List.cons_append, dropZone, if_neg, ih hcore.2]
    exact fun h => hcore.1 h.1.symm

theorem exists_zone (t : List Char) : ∃ zone, Zone zone ∧ t = dropZone t ++ zone := by
  induction t with
  | nil => exact ⟨[], Or.inl rfl, rfl⟩
  | cons c t ih =>
    rw [dropZone]
    split
    · rename_i h
      obtain ⟨rfl, hall⟩ := h
      refine ⟨_, Or.inr ⟨t, rfl, fun d hd => ?_⟩, rfl⟩
      simpa using List.all_eq_true.mp hall d hd
    · obtain ⟨zone, hzone, ht⟩ := ih
      refine ⟨zone, hzone, ?_⟩
      rw [List.cons_append, ← ht]

theorem unbracket_bracket {t : List Char} (h : ∀ c ∈ t, isLineBreak c = false) :
    unbracket ('[' :: t ++ [']']) = t := by
  unfold unbracket
  rw [List.cons_append]
  split
  swap
  · rename_i hno
    exact absurd rfl (hno _)
  rename_i heq
  obtain ⟨-, rfl⟩ := List.cons.inj heq
  rw [if_pos, List.dropLast_concat]
  refine ⟨by simp, ?_⟩
  rw [List.dropLast_concat, List.all_eq_true]
  intro c hc
  rw [h c hc]
  rfl

theorem unbracket_plain {c : Char} {t : List Char} (h : c ≠ '[') : unbracket (c :: t) = c :: t := by
  unfold unbracket
  split
  · rename_i heq
    exact absurd (List.cons.inj heq).1 h
  · rfl

theorem unbracket_cases (v : List Char) : v = unbracket v ∨ v = '[' :: unbracket v ++ [']'] := by
  unfold unbracket
  split
  · rename_i r
    split
    · rename_i h
      right
      obtain ⟨t, ht⟩ := List.getLast?_eq_some_iff.mp h.1
      rw [ht, List.dropLast_concat]
      rfl
    · exact Or.inl rfl
  · exact Or.inl rfl

theorem ipv6_ne_nil (h : Ipv6 s groups) : s ≠ [] := by
  rintro rfl
  rcases h with ⟨hside | ⟨body, front, octets, -, hquad, heq, -⟩, hlen⟩ |
    ⟨left, right, -, -, -, -, heq, -⟩
  · rw [hside.nil] at hlen
    cases hlen
  · have hmem := List.mem_append_right (withColon body) (point_mem_dotted hquad)
    rw [← heq] at hmem
    cases hmem
  · cases left <;> cases heq

/-- The text in its frame is what is left of the value. -/
theorem dropZone_unbracket (hcore : Ipv6 (core.map Char.toLower) groups) (h : Framed v core) :
    dropZone (unbracket v) = core := by
  have hchars := core_chars hcore
  have hpercent : '%' ∉ core := fun hmem => (hchars _ hmem).2.1 rfl
  obtain ⟨zone, hzone, rfl | rfl⟩ := h
  · have hne : core ≠ [] := by
      rintro rfl
      exact ipv6_ne_nil hcore rfl
    obtain ⟨c, t, rfl⟩ := List.exists_cons_of_ne_nil hne
    rw [List.cons_append, unbracket_plain (hchars c List.mem_cons_self).2.2.1, ← List.cons_append]
    exact dropZone_append hpercent hzone
  · have hline : ∀ c ∈ core ++ zone, isLineBreak c = false := by
      intro c hc
      rcases List.mem_append.mp hc with hc | hc
      · exact (hchars c hc).2.2.2
      · rcases hzone with rfl | ⟨z, rfl, hz⟩
        · cases hc
        · rcases List.mem_cons.mp hc with rfl | hc
          · decide
          · exact hz c hc
    rw [unbracket_bracket hline]
    exact dropZone_append hpercent hzone

/-- The parser finds the address of a value. -/
theorem spells_v6_iff : Spells v (.v6 groups) ↔
    ipv6Groups (L.lower (dropZone (unbracket v))) = some groups := by
  rw [ipv6Groups_eq_some]
  constructor
  · rintro ⟨core, hframed, hcore⟩
    rw [dropZone_unbracket hcore hframed, L.ascii core fun c hc => (core_chars hcore c hc).1]
    exact hcore
  · intro h
    have hascii : Ascii (dropZone (unbracket v)) := by
      by_contra hnot
      obtain ⟨c, hc, hforeign⟩ := L.foreign _ hnot
      rw [h.chars c hc] at hforeign
      cases hforeign
    rw [L.ascii _ hascii] at h
    refine ⟨_, ?_, h⟩
    obtain ⟨zone, hzone, heq⟩ := exists_zone (unbracket v)
    refine ⟨zone, hzone, ?_⟩
    rw [← heq]
    exact unbracket_cases v

theorem spells_v4_iff : (∃ octets, Spells v (.v4 octets)) ↔ IPV4 v = true := IPV4_iff.symm

/-! ## Identities of addresses -/

theorem Side.length_le_one (h : Side s groups) (hcolon : ':' ∉ s) : groups.length ≤ 1 := by
  rcases h with ⟨-, rfl⟩ | ⟨ts, -, rfl, hall⟩
  · exact Nat.zero_le _
  · rw [← hall.length_eq]
    match ts with
    | [] => exact Nat.zero_le _
    | [t] => exact Nat.le_refl _
    | t :: u :: ts =>
      exfalso
      apply hcolon
      rw [List.intercalate_cons_cons]
      simp

theorem colon_mem_ipv6 (h : Ipv6 s groups) : ':' ∈ s := by
  by_contra hcolon
  rcases h with ⟨hside | ⟨body, front, octets, hbody, hquad, rfl, rfl⟩, hlen⟩ |
    ⟨left, right, -, -, -, -, rfl, -⟩
  · have := Side.length_le_one hside hcolon
    omega
  · have hnil : body = [] := by
      by_contra hne
      apply hcolon
      unfold withColon
      rw [if_neg hne]
      simp
    subst hnil
    rw [hbody.nil, List.length_append, length_pairGroups hquad] at hlen
    cases hlen
  · exact hcolon (by simp)

theorem colon_mem_of_spells (h : Spells v (.v6 groups)) : ':' ∈ v := by
  obtain ⟨core, hframed, hcore⟩ := h
  obtain ⟨c, hc, hlower⟩ := List.mem_map.mp (colon_mem_ipv6 hcore)
  have hascii : ∀ n < 128, (Char.ofNat n).toLower = ':' → Char.ofNat n = ':' := by decide
  have hcolon := hascii c.toNat (core_chars hcore c hc).1
  rw [Char.ofNat_toNat] at hcolon
  rw [hcolon hlower] at hc
  obtain ⟨zone, -, rfl | rfl⟩ := hframed
  · exact List.mem_append_left _ hc
  · simp [hc]

theorem shift_and (n : Nat) : n >>> 8 = n / 256 ∧ n &&& 0xff = n % 256 := by
  refine ⟨Nat.shiftRight_eq_div_pow n 8, ?_⟩
  exact Nat.and_two_pow_sub_one_eq_mod n 8

/-- What the service writes for groups is the text of their source. -/
theorem groups_text (hlen : groups.length = 8) (hsmall : ∀ g ∈ groups, g < 65536) :
    (if isMapped groups then mappedText groups else prefixText groups) =
        (Address.v6 groups).source.text ∧
      (Address.v6 groups).source.Proper := by
  match groups, hlen with
  | [a, b, c, d, e, f, g, h], _ =>
    have hg := hsmall g (by simp)
    have hh := hsmall h (by simp)
    by_cases hmapped : a = 0 ∧ b = 0 ∧ c = 0 ∧ d = 0 ∧ e = 0 ∧ f = 0xffff
    · obtain ⟨rfl, rfl, rfl, rfl, rfl, rfl⟩ := hmapped
      rw [if_pos (by simp [isMapped])]
      unfold mappedText
      simp only [List.getD_cons_succ, List.getD_cons_zero, shift_and]
      refine ⟨rfl, rfl, fun o ho => ?_⟩
      simp only [List.mem_cons, List.not_mem_nil, or_false] at ho
      omega
    · have hno : isMapped [a, b, c, d, e, f, g, h] = false := by
        rw [Bool.eq_false_iff]
        intro hyes
        apply hmapped
        simpa [isMapped, and_assoc] using hyes
      have hsource : (Address.v6 [a, b, c, d, e, f, g, h]).source = .prefix64 [a, b, c, d] := by
        unfold Address.source
        split
        · rename_i heq
          cases heq
        · rename_i heq
          exfalso
          apply hmapped
          simp only [Address.v6.injEq, List.cons.injEq, and_true] at heq
          tauto
        · rename_i heq
          obtain rfl := Address.v6.inj heq
          rfl
      rw [hno, hsource]
      exact ⟨rfl, rfl⟩

theorem identity_of_spells {raw : List Char} {a : Address} (h : Spells (trim raw) a) :
    sourceIdentity L raw = a.source.text ∧ a.source.Proper := by
  unfold sourceIdentity
  cases a with
  | v4 octets =>
    rw [if_pos (IPV4_iff.mpr ⟨octets, h⟩)]
    exact ⟨h.2, h.1⟩
  | v6 groups =>
    have hno : ¬ IPV4 (trim raw) = true := by
      intro hyes
      obtain ⟨octets, -, heq⟩ := IPV4_iff.mp hyes
      have hcolon := colon_mem_of_spells h
      rw [heq] at hcolon
      exact colon_not_mem_dotted octets hcolon
    have hgroups := spells_v6_iff (L := L) |>.mp h
    have haddress := ipv6Groups_eq_some.mp hgroups
    rw [if_neg hno]
    dsimp only
    rw [if_neg (by simpa using colon_mem_ipv6 haddress), hgroups]
    exact groups_text haddress.length haddress.small

theorem identity_of_no_address {raw : List Char} (h : ∀ a, ¬ Spells (trim raw) a) :
    sourceIdentity L raw = trim raw := by
  have hno : ¬ IPV4 (trim raw) = true := by
    intro hyes
    obtain ⟨octets, hspells⟩ := IPV4_iff.mp hyes
    exact h (.v4 octets) hspells
  unfold sourceIdentity
  rw [if_neg hno]
  dsimp only
  split
  · rfl
  · cases hgroups : ipv6Groups (L.lower (dropZone (unbracket (trim raw)))) with
    | none => rfl
    | some groups => exact absurd (spells_v6_iff.mpr hgroups) (h (.v6 groups))

theorem text_injective {x y : Source} (hx : x.Proper) (hy : y.Proper) (h : x.text = y.text) :
    x = y := by
  cases x with
  | ipv4 octets =>
    cases y with
    | ipv4 octets' => rw [dotted_injective hx hy h]
    | prefix64 groups =>
      have hcolon := colon_mem_prefix groups
      rw [← h] at hcolon
      exact absurd hcolon (colon_not_mem_dotted octets)
  | prefix64 groups =>
    cases y with
    | ipv4 octets =>
      have hcolon := colon_mem_prefix groups
      rw [h] at hcolon
      exact absurd hcolon (colon_not_mem_dotted octets)
    | prefix64 groups' => rw [prefix_injective hx hy h]

/-! ## Prefixes -/

theorem trim_eq_self {t : List Char} (h : ∀ c ∈ t, whitespace c = false) : trim t = t := by
  have hdrop : t.dropWhile whitespace = t := by
    cases t with
    | nil => rfl
    | cons c t => simp [h c List.mem_cons_self]
  unfold Webhook.trim
  rw [hdrop]
  apply List.rdropWhile_eq_self_iff.mpr
  intro hne
  rw [h _ (List.getLast_mem hne)]
  exact Bool.false_ne_true

theorem side_of_groups (hsmall : ∀ g ∈ groups, g < 65536) (hne : groups ≠ []) :
    Side (List.intercalate [':'] (groups.map (Nat.toDigits 16))) groups := by
  refine Or.inr ⟨_, by simpa using hne, rfl, ?_⟩
  rw [List.forall₂_map_left_iff]
  exact List.forall₂_same.mpr fun g hg => hextet_toDigits (hsmall g hg)

theorem addressChar_plain {c : Char} (h : addressChar c = true) :
    c.toLower = c ∧ whitespace c = false := by
  have hall : ∀ n < 128, addressChar (Char.ofNat n) = true →
      (Char.ofNat n).toLower = Char.ofNat n ∧ whitespace (Char.ofNat n) = false := by decide
  have hc := hall c.toNat (addressChar_ascii h)
  rw [Char.ofNat_toNat] at hc
  exact hc h

/-- Every prefix is that of an address. -/
theorem exists_address_of_prefix (h : PrefixNotation v) :
    ∃ y a, Spells (trim y) a ∧ a.source.text = v := by
  obtain ⟨groups, hlen, hsmall, rfl⟩ := h
  have hne : groups ≠ [] := by
    rintro rfl
    cases hlen
  have haddress : Ipv6 (List.intercalate [':'] (groups.map (Nat.toDigits 16)) ++ [':', ':'])
      (fillZeros groups []) :=
    Or.inr ⟨_, [], groups, [], side_of_groups hsmall hne, Or.inl (Or.inl ⟨rfl, rfl⟩), rfl,
      by simp [hlen], rfl⟩
  refine ⟨List.intercalate [':'] (groups.map (Nat.toDigits 16)) ++ [':', ':'],
    .v6 (fillZeros groups []), ?_, ?_⟩
  · rw [trim_eq_self fun c hc => (addressChar_plain (haddress.chars c hc)).2]
    refine ⟨_, ⟨[], Or.inl rfl, Or.inl (List.append_nil _).symm⟩, ?_⟩
    have hlower : (List.intercalate [':'] (groups.map (Nat.toDigits 16)) ++ [':', ':']).map
        Char.toLower = List.intercalate [':'] (groups.map (Nat.toDigits 16)) ++ [':', ':'] := by
      conv => rhs; rw [← List.map_id (_ ++ _)]
      exact List.map_congr_left fun c hc => (addressChar_plain (haddress.chars c hc)).1
    rw [hlower]
    exact haddress
  · match groups, hlen with
    | [a, b, c, d], _ =>
      have hsource : (Address.v6 (fillZeros [a, b, c, d] [])).source = .prefix64 [a, b, c, d] := by
        unfold Address.source
        split
        · rename_i heq
          cases heq
        · rename_i heq
          simp [fillZeros] at heq
        · rename_i heq
          obtain rfl := Address.v6.inj heq
          rfl
      rw [hsource]
      rfl

theorem notation_of_text {a : Address} (h : Spells v a) (hno : ∀ octets, ¬ Spells s (.v4 octets))
    (htext : a.source.text = s) (hproper : a.source.Proper) : PrefixNotation s := by
  cases hsource : a.source with
  | ipv4 octets =>
    rw [hsource] at htext hproper
    exact absurd ⟨hproper, htext.symm⟩ (hno octets)
  | prefix64 groups =>
    rw [hsource] at htext hproper
    refine ⟨groups, hproper, ?_, htext.symm⟩
    cases a with
    | v4 octets => cases hsource
    | v6 all =>
      obtain ⟨core, -, haddress⟩ := h
      have hsmall := haddress.small
      unfold Address.source at hsource
      split at hsource
      · cases hsource
      · cases hsource
      · rename_i heq
        obtain rfl := Address.v6.inj heq
        obtain rfl := Source.prefix64.inj hsource
        exact fun g hg => hsmall g (List.mem_of_mem_take hg)

/-- The notation of a prefix is no address. -/
theorem not_spells_prefix (h : PrefixNotation s) (a : Address) : ¬ Spells s a := by
  obtain ⟨groups, hlen, hsmall, rfl⟩ := h
  have hne : groups ≠ [] := by
    rintro rfl
    cases hlen
  have hslash : '/' ∈ List.intercalate [':'] (groups.map (Nat.toDigits 16)) ++ "::/64".toList := by
    simp
  have hfront := (side_of_groups hsmall hne).chars
  have hno : ∀ c, isLowerHex c = false → c ≠ ':' → c ∉ "::/64".toList →
      c ∉ List.intercalate [':'] (groups.map (Nat.toDigits 16)) ++ "::/64".toList := by
    intro c hhex hcolon hend hc
    rcases List.mem_append.mp hc with hc | hc
    · rcases hfront c hc with hc | hc
      · rw [hhex] at hc
        cases hc
      · exact hcolon hc
    · exact hend hc
  intro hspells
  cases a with
  | v4 octets =>
    rw [hspells.2] at hslash
    rcases dotted_chars octets _ hslash with hdigit | hpoint
    · exact absurd hdigit (by decide)
    · exact absurd hpoint (by decide)
  | v6 gs =>
    obtain ⟨core, ⟨zone, hzone, heq | heq⟩, hcore⟩ := hspells
    · rcases hzone with rfl | ⟨z, rfl, -⟩
      · rw [List.append_nil] at heq
        rw [heq] at hslash
        exact absurd (hcore.chars _ (List.mem_map_of_mem hslash)) (by decide)
      · apply hno '%' (by decide) (by decide) (by decide)
        rw [heq]
        simp
    · apply hno '[' (by decide) (by decide) (by decide)
      rw [heq]
      simp

/-! ## The law -/

variable (L) in
/-- No value that is no address has the identity of one. -/
def Apart (x : List Char) : Prop :=
  (∀ a, ¬ Spells (trim x) a) →
    ∀ y b, Spells (trim y) b → sourceIdentity L x ≠ sourceIdentity L y

theorem identities_eq_iff {x y : List Char} {a b : Address} (hx : Spells (trim x) a)
    (hy : Spells (trim y) b) : sourceIdentity L x = sourceIdentity L y ↔ a.source = b.source := by
  obtain ⟨htextx, hproperx⟩ := identity_of_spells (L := L) hx
  obtain ⟨htexty, hpropery⟩ := identity_of_spells (L := L) hy
  rw [htextx, htexty]
  constructor
  · exact text_injective hproperx hpropery
  · intro h
    rw [h]

theorem apart_iff {x : List Char} : Apart L x ↔ ¬ PrefixNotation (trim x) := by
  constructor
  · intro hapart hnotation
    obtain ⟨y, a, hy, htext⟩ := exists_address_of_prefix hnotation
    have hx := not_spells_prefix hnotation
    apply hapart hx y a hy
    rw [identity_of_no_address hx, (identity_of_spells hy).1, htext]
  · intro hnotation hx y b hy h
    obtain ⟨htext, hproper⟩ := identity_of_spells (L := L) hy
    rw [identity_of_no_address hx, htext] at h
    exact hnotation (notation_of_text hy (fun octets => hx (.v4 octets)) h.symm hproper)

/-- Addresses have one identity when they are of one source. A value has the identity of an
address without being one exactly when it is the notation of a prefix. -/
theorem source_identities_agree_iff (L : LowerCase) :
    (∀ x y a b, Spells (trim x) a → Spells (trim y) b →
        (sourceIdentity L x = sourceIdentity L y ↔ a.source = b.source)) ∧
      ∀ x, Apart L x ↔ ¬ PrefixNotation (trim x) :=
  ⟨fun _ _ _ _ hx hy => identities_eq_iff hx hy, fun _ => apart_iff⟩

/-- The lower case of ASCII, which leaves every other character as it is. -/
def asciiLower : LowerCase where
  lower s := s.map Char.toLower
  ascii _ _ := rfl
  foreign s h := by
    by_contra hall
    apply h
    intro c hc
    have hlower : addressChar c.toLower = true := by
      by_contra hno
      exact hall ⟨_, List.mem_map_of_mem hc, Bool.not_eq_true _ ▸ hno⟩
    exact (addressChar_toLower hlower).1

theorem addresses_of_one_prefix_share_an_identity :
    sourceIdentity asciiLower "[2001:DB8::1%eth0]".toList =
        sourceIdentity asciiLower "2001:0db8:0:0:ffff::".toList ∧
      Apart asciiLower "unknown".toList := by
  have hx : Spells (trim "[2001:DB8::1%eth0]".toList) (.v6 [0x2001, 0xdb8, 0, 0, 0, 0, 0, 1]) :=
    (spells_v6_iff (L := asciiLower)).mpr (by decide)
  have hy : Spells (trim "2001:0db8:0:0:ffff::".toList) (.v6 [0x2001, 0xdb8, 0, 0, 0xffff, 0, 0, 0]) :=
    (spells_v6_iff (L := asciiLower)).mpr (by decide)
  refine ⟨((source_identities_agree_iff asciiLower).1 _ _ _ _ hx hy).mpr rfl,
    ((source_identities_agree_iff asciiLower).2 _).mpr ?_⟩
  rintro ⟨groups, -, -, heq⟩
  have hslash : '/' ∈ trim "unknown".toList := by
    rw [heq]
    simp
  exact absurd hslash (by decide)

/-- A header value with the notation of a prefix shares the budget of the prefix. -/
theorem a_prefix_has_the_identity_of_an_address :
    ¬ ∀ (L : LowerCase) (x : List Char), Apart L x := by
  intro h
  apply apart_iff.mp (h asciiLower "2001:db8:1:2::/64".toList)
  exact ⟨[0x2001, 0xdb8, 1, 2], rfl, by decide, by decide⟩

end Licensecc.Http
