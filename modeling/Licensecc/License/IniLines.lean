-- The INI parser read line by line: a text without stray carriage returns is
-- loaded as the sequence of its lines.
import Licensecc.License.SimpleIni

open Licensecc.Codec Licensecc.V201
open Licensecc.Protocol (byte inRange)

namespace Licensecc.License

/-! ## Lines -/

/-- What one line is to the parser. -/
inductive IniLine where
  | skipped
  | header (name : Bytes)
  | unclosed
  | value (key value : Bytes)
  deriving DecidableEq

def iniLine (line : Bytes) : IniLine :=
  match line.dropWhile IsSpace with
  | [] => .skipped
  | ch :: tail =>
    if IsComment ch then .skipped
    else if ch = byte '[' then
      if byte ']' ∈ tail.dropWhile IsSpace then
        .header (trimTrail ((tail.dropWhile IsSpace).takeWhile (· ≠ byte ']')))
      else .unclosed
    else if byte '=' ∉ tail ∨ ch = byte '=' then .skipped
    else
      .value (trimTrail ((ch :: tail).takeWhile (· ≠ byte '=')))
        (trimTrail ((tail.dropWhile (· ≠ byte '=')).tail.dropWhile IsSpace))

/-- The section and the table after a line. -/
def lineStep (m_bAllowMultiKey : Bool) (s : Bytes × Ini) (line : Bytes) : Bytes × Ini :=
  match iniLine line with
  | .header name => (name, AddEntry m_bAllowMultiKey s.2 name none)
  | .value key value => (s.1, AddEntry m_bAllowMultiKey s.2 s.1 (some (key, value)))
  | _ => s

/-- A line without a carriage return at its end. -/
def stripReturn (line : Bytes) : Bytes :=
  if line.getLast? = some (byte '\r') then line.dropLast else line

/-- The lines that `getline` reads, without a carriage return at their ends. -/
def rawLines (license_text : Bytes) : List Bytes :=
  (getlines (byte '\n') license_text).map stripReturn

/-! ## Turns -/

section
variable {multi : Bool}

theorem length_dropWhile_le {α : Type} (p : α → Bool) (l : List α) :
    (l.dropWhile p).length ≤ l.length := (List.dropWhile_sublist p).length_le

theorem length_SkipNewLine_le (l : Bytes) : (SkipNewLine l).length ≤ l.length - 1 := by
  cases l with
  | nil => simp [SkipNewLine]
  | cons a rest =>
    simp only [SkipNewLine]
    split
    · simp
    · simp

theorem isSpace_of_newLine {ch : UInt8} (h : IsNewLineChar ch = true) : IsSpace ch = true := by
  unfold IsNewLineChar at h
  unfold IsSpace
  simp only [Bool.or_eq_true, decide_eq_true_eq] at h ⊢
  rcases h with rfl | rfl
  · simp
  · simp

theorem comment_not_space : ∀ ch, IsComment ch = true → IsSpace ch = false ∧
    IsNewLineChar ch = false := by
  intro ch h
  unfold IsComment at h
  simp only [Bool.or_eq_true, decide_eq_true_eq] at h
  rcases h with rfl | rfl
  · decide
  · decide

/-- A comment does not grow. -/
theorem LoadMultiLineText_le (b : Bool) (n : Nat) (data done : Bytes) :
    (LoadMultiLineText b n data done).2.length ≤ data.length := by
  induction n generalizing data done with
  | zero => exact Nat.le_refl _
  | succ n ih =>
    unfold LoadMultiLineText
    split
    · simp only
      split
      · exact Nat.zero_le _
      · refine Nat.le_trans (ih _ _) (Nat.le_trans (length_SkipNewLine_le _) ?_)
        exact Nat.le_trans (Nat.sub_le _ _) (length_dropWhile_le _ _)
    · simp only
      split
      · exact Nat.le_trans (ih _ _) (length_dropWhile_le _ _)
      · exact Nat.le_refl _

/-- A text that begins with a comment, after the line of that comment. -/
theorem LoadMultiLineText_comment {b : Bool} {n : Nat} {ch : UInt8} {tail done : Bytes}
    (h : IsComment ch = true) :
    (LoadMultiLineText b (n + 1) (ch :: tail) done).2 =
      if tail.dropWhile (fun ch => !IsNewLineChar ch) = [] then []
      else (LoadMultiLineText b n (SkipNewLine (tail.dropWhile fun ch => !IsNewLineChar ch))
        (done ++ (ch :: tail.takeWhile fun ch => !IsNewLineChar ch) ++ [byte '\n'])).2 := by
  conv => lhs; unfold LoadMultiLineText
  have hline := (comment_not_space ch h).2
  simp only [List.headD_cons, h, if_true, List.dropWhile_cons, List.takeWhile_cons, hline,
    Bool.not_false]
  split
  · rfl
  · rfl

theorem readComment_lt {ch : UInt8} {tail : Bytes} {s : SectionName} {ini : Ini}
    (h : IsComment ch = true) : (readComment (ch :: tail) s ini).1.length < tail.length + 1 := by
  unfold readComment
  simp only [LoadMultiLineText_comment h]
  split
  · simp
  · refine Nat.lt_succ_of_le (Nat.le_trans (LoadMultiLineText_le _ _ _ _) ?_)
    refine Nat.le_trans (length_SkipNewLine_le _) ?_
    exact Nat.le_trans (Nat.sub_le _ _) (length_dropWhile_le _ _)

theorem readSection_le (name : Bytes) (ini : Ini) :
    (readSection multi name ini).1.length ≤ name.length := by
  unfold readSection
  simp only
  split
  · refine Nat.le_trans (length_dropWhile_le _ _) ?_
    rw [List.length_tail]
    exact Nat.le_trans (Nat.sub_le _ _) (length_dropWhile_le _ _)
  · exact length_dropWhile_le _ _

theorem readValue_lt {ch : UInt8} {tail : Bytes} {s : SectionName} {ini : Ini}
    (h : IsSpace ch = false) : (readValue multi (ch :: tail) s ini).1.length < tail.length + 1 := by
  have hline : IsNewLineChar ch = false := by
    cases hn : IsNewLineChar ch with
    | false => rfl
    | true => rw [isSpace_of_newLine hn] at h; cases h
  have hdrop : ∀ p : UInt8 → Bool, p ch = true →
      ((ch :: tail).dropWhile p).length < tail.length + 1 := by
    intro p hp
    rw [List.dropWhile_cons, if_pos hp]
    exact Nat.lt_succ_of_le (length_dropWhile_le _ _)
  unfold readValue
  simp only
  split
  · rename_i hne
    by_cases heq : ch = byte '='
    · exact absurd (by simp [heq]) hne
    · apply hdrop
      simp [heq, hline]
  · split
    · apply hdrop
      simp [hline]
    · refine Nat.lt_succ_of_le ?_
      refine Nat.le_trans (length_SkipNewLine_le _) ?_
      refine Nat.le_trans (Nat.sub_le_sub_right (length_dropWhile_le _ _) 1) ?_
      refine Nat.le_trans (Nat.sub_le_sub_right (length_dropWhile_le _ _) 1) ?_
      rw [List.length_tail]
      have := length_dropWhile_le (fun ch => ch ≠ byte '=' && !IsNewLineChar ch) (ch :: tail)
      rw [List.length_cons] at this
      omega

/-- Each turn reads something. -/
theorem readNext_lt {state next : LoadState} (h : readNext multi state = some next) :
    next.1.length < state.1.length := by
  unfold readNext at h
  split at h
  · cases h
  · rename_i ch tail hdrop
    have hlen : tail.length + 1 ≤ state.1.length := by
      have := length_dropWhile_le IsSpace state.1
      rw [hdrop] at this
      simpa using this
    have hspace : IsSpace ch = false := by
      have := List.head_dropWhile_not IsSpace (l := state.1) (by simp [hdrop])
      simpa [hdrop] using this
    refine Nat.lt_of_lt_of_le ?_ hlen
    split at h
    · rename_i hcomment
      obtain rfl := Option.some.inj h
      exact readComment_lt hcomment
    · split at h
      · obtain rfl := Option.some.inj h
        refine Nat.lt_succ_of_le (Nat.le_trans (readSection_le _ _) ?_)
        exact length_dropWhile_le _ _
      · obtain rfl := Option.some.inj h
        exact readValue_lt hspace

/-! ## Loading without fuel -/

/-- Fuel for the length of the text is enough. -/
theorem loadLoop_fuel {m n : Nat} {state : LoadState} (hm : state.1.length < m)
    (hn : state.1.length < n) : loadLoop multi m state = loadLoop multi n state := by
  induction m generalizing n state with
  | zero => exact absurd hm (Nat.not_lt_zero _)
  | succ m ih =>
    cases n with
    | zero => exact absurd hn (Nat.not_lt_zero _)
    | succ n =>
      unfold loadLoop
      cases hnext : readNext multi state with
      | none => rfl
      | some next =>
        have hlt := readNext_lt hnext
        exact ih (by omega) (by omega)

/-- The table that is loaded from a state. -/
def load (multi : Bool) (state : LoadState) : Ini := loadLoop multi (state.1.length + 1) state

theorem load_eq (state : LoadState) : load multi state =
    match readNext multi state with
    | none => state.2.2
    | some next => load multi next := by
  unfold load
  conv => lhs; unfold loadLoop
  cases hnext : readNext multi state with
  | none => rfl
  | some next => exact loadLoop_fuel (readNext_lt hnext) (Nat.lt_succ_self _)

theorem load_nil (s : SectionName) (ini : Ini) : load multi ([], s, ini) = ini := rfl

/-- Spaces before a turn are skipped. -/
theorem load_spaces (data : Bytes) (s : SectionName) (ini : Ini) :
    load multi (data.dropWhile IsSpace, s, ini) = load multi (data, s, ini) := by
  have hsame : readNext multi (data.dropWhile IsSpace, s, ini) = readNext multi (data, s, ini) := by
    unfold readNext
    simp only [List.dropWhile_idempotent]
  rw [load_eq, load_eq (data, s, ini), hsame]

/-- The rest of a comment is read like its lines one by one. -/
theorem load_comments {b : Bool} {n : Nat} {data done s : Bytes} {ini : Ini}
    (hn : data.length < n) :
    load multi ((LoadMultiLineText b n data done).2, .closed s, ini) =
      load multi (data, .closed s, ini) := by
  induction hlen : data.length using Nat.strongRecOn generalizing b n data done with
  | _ len ih =>
    obtain ⟨n, rfl⟩ : ∃ k, n = k + 1 := ⟨n - 1, by omega⟩
    by_cases hcomment : IsComment (data.headD 0) = true
    · cases data with
      | nil => exact absurd hcomment (by decide)
      | cons ch tail =>
        rw [List.headD_cons] at hcomment
        have hspace := (comment_not_space ch hcomment).1
        have hnext : readNext multi (ch :: tail, .closed s, ini) =
            some (readComment (ch :: tail) (.closed s) ini) := by
          unfold readNext
          simp [hspace, hcomment]
        rw [load_eq (ch :: tail, .closed s, ini), hnext]
        unfold readComment
        simp only [SectionName.close]
        rw [LoadMultiLineText_comment hcomment, LoadMultiLineText_comment hcomment]
        have hshort := length_SkipNewLine_le (tail.dropWhile fun ch => !IsNewLineChar ch)
        have hdrop := length_dropWhile_le (fun ch => !IsNewLineChar ch) tail
        simp only [List.length_cons] at hlen hn
        split
        · rfl
        · rw [ih _ (by omega) (by omega) rfl, ih _ (by omega) (by rw [List.length_cons]; omega) rfl]
    · conv => lhs; unfold LoadMultiLineText
      simp only [hcomment, Bool.false_eq_true, if_false]
      split
      · rename_i hahead
        have hlt : (data.dropWhile IsSpace).length < data.length := by
          cases data with
          | nil => exact absurd hahead.2 (by decide)
          | cons ch tail =>
            have hspace : IsSpace ch = true := by
              by_contra hne
              rw [List.dropWhile_cons, if_neg hne] at hahead
              exact hcomment hahead.2
            rw [List.dropWhile_cons, if_pos hspace]
            exact Nat.lt_succ_of_le (length_dropWhile_le _ _)
        rw [ih _ (by omega) (by omega) rfl, load_spaces]
      · rfl

/-- A comment line is skipped. -/
theorem load_comment {ch : UInt8} {tail s : Bytes} {ini : Ini} (h : IsComment ch = true) :
    load multi (ch :: tail, .closed s, ini) =
      load multi (SkipNewLine (tail.dropWhile fun ch => !IsNewLineChar ch), .closed s, ini) := by
  rw [← @load_comments multi true (tail.length + 2) (ch :: tail) [] s ini (by simp),
    LoadMultiLineText_comment h]
  split
  · rename_i hnil
    rw [hnil]
    rfl
  · rename_i hne
    have hshort := length_SkipNewLine_le (tail.dropWhile fun ch => !IsNewLineChar ch)
    have hdrop := length_dropWhile_le (fun ch => !IsNewLineChar ch) tail
    exact load_comments (by omega)

/-! ## One line -/

/-- The end of a line, and what follows it. -/
inductive LineEnd : Bytes → Bytes → Prop
  | none : LineEnd [] []
  | cr : LineEnd [byte '\r'] []
  | lf (rest : Bytes) : LineEnd [byte '\n'] rest
  | crlf (rest : Bytes) : LineEnd [byte '\r', byte '\n'] rest

theorem LineEnd.skipNewLine {e rest : Bytes} (h : LineEnd e rest) : SkipNewLine (e ++ rest) = rest := by
  cases h <;> simp [SkipNewLine, show byte '\n' ≠ byte '\r' by decide]

theorem LineEnd.spaces {e rest : Bytes} (h : LineEnd e rest) :
    (e ++ rest).dropWhile IsSpace = rest.dropWhile IsSpace := by
  have hcr : IsSpace (byte '\r') = true := by decide
  have hlf : IsSpace (byte '\n') = true := by decide
  cases h <;> simp [hcr, hlf]

/-- A scan that stops at the ends of lines stops here. -/
theorem LineEnd.stop {e rest : Bytes} (h : LineEnd e rest) {p : UInt8 → Bool}
    (hp : ∀ ch, IsNewLineChar ch = true → p ch = false) :
    (e ++ rest).dropWhile p = e ++ rest ∧ (e ++ rest).takeWhile p = [] := by
  have hcr := hp (byte '\r') (by decide)
  have hlf := hp (byte '\n') (by decide)
  cases h <;> simp [hcr, hlf]

/-- There is no end of a line in the line. -/
def OneLine (line : Bytes) : Prop := ∀ ch ∈ line, IsNewLineChar ch = false

theorem OneLine.dropWhile {line : Bytes} (h : OneLine line) (p : UInt8 → Bool) :
    OneLine (line.dropWhile p) :=
  fun ch hch => h ch ((List.dropWhile_sublist p).subset hch)

theorem dropWhile_line {line e rest : Bytes} (hline : OneLine line) (hend : LineEnd e rest) :
    (line ++ (e ++ rest)).dropWhile (fun ch => !IsNewLineChar ch) = e ++ rest := by
  rw [List.dropWhile_append_of_pos (by simpa using fun ch hch => hline ch hch)]
  exact (hend.stop (by simp)).1

theorem takeWhile_line {line e rest : Bytes} (hline : OneLine line) (hend : LineEnd e rest) :
    (line ++ (e ++ rest)).takeWhile (fun ch => !IsNewLineChar ch) = line := by
  rw [List.takeWhile_append_of_pos (by simpa using fun ch hch => hline ch hch), (hend.stop (by simp)).2,
    List.append_nil]

/-- A scan for a mark stops at the mark in the line, if it is there. -/
theorem scan_mark {mark : UInt8} {line x : Bytes} (hline : OneLine line) (hmem : mark ∈ line) :
    (line ++ x).dropWhile (fun ch => ch ≠ mark && !IsNewLineChar ch) =
        line.dropWhile (· ≠ mark) ++ x ∧
      (line ++ x).takeWhile (fun ch => ch ≠ mark && !IsNewLineChar ch) =
        line.takeWhile (· ≠ mark) := by
  induction line with
  | nil => cases hmem
  | cons ch line ih =>
    have hch := hline ch List.mem_cons_self
    by_cases hmark : ch = mark
    · subst hmark
      simp
    · have hmem' : mark ∈ line := by
        rcases List.mem_cons.mp hmem with h | h
        · exact absurd h.symm hmark
        · exact h
      obtain ⟨hd, ht⟩ := ih (fun c hc => hline c (List.mem_cons_of_mem _ hc)) hmem'
      simp only [List.cons_append, List.dropWhile_cons, List.takeWhile_cons, ne_eq, hmark,
        not_false_eq_true, decide_true, hch, Bool.not_false, Bool.and_self, if_true]
      exact ⟨hd, congrArg _ ht⟩

theorem scan_no_mark {mark : UInt8} {line e rest : Bytes} (hline : OneLine line)
    (hend : LineEnd e rest) (hmem : mark ∉ line) :
    (line ++ (e ++ rest)).dropWhile (fun ch => ch ≠ mark && !IsNewLineChar ch) = e ++ rest := by
  rw [List.dropWhile_append_of_pos]
  · exact (hend.stop (by simp +contextual)).1
  · intro ch hch
    have hne : ch ≠ mark := by
      rintro rfl
      exact hmem hch
    simp [hne, hline ch hch]

/-- The mark is the first character after a scan for it. -/
theorem dropWhile_mark {mark : UInt8} {line : Bytes} (hmem : mark ∈ line) :
    ∃ after, line.dropWhile (· ≠ mark) = mark :: after ∧ ∀ ch ∈ after, ch ∈ line := by
  induction line with
  | nil => cases hmem
  | cons ch line ih =>
    by_cases hmark : ch = mark
    · subst hmark
      exact ⟨line, by simp, fun c hc => List.mem_cons_of_mem _ hc⟩
    · obtain ⟨after, hafter, hsub⟩ := ih ((List.mem_cons.mp hmem).resolve_left (Ne.symm hmark))
      exact ⟨after, by simpa [hmark] using hafter, fun c hc => List.mem_cons_of_mem _ (hsub c hc)⟩

/-- After the end of a line the next one is read. -/
theorem load_end {e rest : Bytes} (hend : LineEnd e rest) (s : SectionName) (ini : Ini) :
    load multi (e ++ rest, s, ini) = load multi (rest, s, ini) := by
  rw [← load_spaces (e ++ rest), hend.spaces, load_spaces]

theorem load_header {tail e rest s : Bytes} {ini : Ini} (hline : OneLine tail)
    (hend : LineEnd e rest) (hclose : byte ']' ∈ tail.dropWhile IsSpace) :
    load multi (byte '[' :: (tail ++ (e ++ rest)), .closed s, ini) =
      load multi (rest, .closed (trimTrail ((tail.dropWhile IsSpace).takeWhile (· ≠ byte ']'))),
        AddEntry multi ini (trimTrail ((tail.dropWhile IsSpace).takeWhile (· ≠ byte ']'))) none) := by
  have hname : (tail ++ (e ++ rest)).dropWhile IsSpace = tail.dropWhile IsSpace ++ (e ++ rest) := by
    rw [List.dropWhile_append, if_neg]
    intro h
    rw [List.isEmpty_iff.mp h] at hclose
    cases hclose
  have hnext : readNext multi (byte '[' :: (tail ++ (e ++ rest)), .closed s, ini) =
      some (readSection multi (tail.dropWhile IsSpace ++ (e ++ rest)) ini) := by
    unfold readNext
    simp [show IsSpace (byte '[') = false by decide, show IsComment (byte '[') = false by decide,
      hname]
  rw [load_eq, hnext]
  have hone := hline.dropWhile IsSpace
  obtain ⟨after, hafter, hsub⟩ := dropWhile_mark hclose
  obtain ⟨hd, ht⟩ := scan_mark (x := e ++ rest) hone hclose
  unfold readSection
  simp only [hd, ht, hafter, List.cons_append, List.head?_cons, if_true, List.tail_cons]
  rw [dropWhile_line (fun c hc => hone c (hsub c hc)) hend, load_end hend]

/-- The spaces before a value are those of its line. -/
theorem dropSpaces_line {line e rest : Bytes} (hline : OneLine line) (hend : LineEnd e rest) :
    (line ++ (e ++ rest)).dropWhile (fun ch => !IsNewLineChar ch && IsSpace ch) =
      line.dropWhile IsSpace ++ (e ++ rest) := by
  induction line with
  | nil => exact (hend.stop (by simp +contextual)).1
  | cons ch line ih =>
    have hch := hline ch List.mem_cons_self
    have hrest : OneLine line := fun c hc => hline c (List.mem_cons_of_mem _ hc)
    by_cases hspace : IsSpace ch = true
    · simpa [List.dropWhile_cons, hch, hspace] using ih hrest
    · simp [hspace]

/-- A turn at a character that begins neither a comment nor a section. -/
theorem readNext_value {ch : UInt8} {tail : Bytes} {s : SectionName} {ini : Ini}
    (hspace : IsSpace ch = false) (hcomment : IsComment ch = false) (hopen : ch ≠ byte '[') :
    readNext multi (ch :: tail, s, ini) = some (readValue multi (ch :: tail) s ini) := by
  unfold readNext
  simp [hspace, hcomment, hopen]

theorem load_value {ch : UInt8} {tail e rest s : Bytes} {ini : Ini} (hline : OneLine (ch :: tail))
    (hend : LineEnd e rest) (hspace : IsSpace ch = false) (hcomment : IsComment ch = false)
    (hopen : ch ≠ byte '[') (hmark : ch ≠ byte '=') (hmem : byte '=' ∈ tail) :
    load multi (ch :: (tail ++ (e ++ rest)), .closed s, ini) =
      load multi (rest, .closed s, AddEntry multi ini s
        (some (trimTrail ((ch :: tail).takeWhile (· ≠ byte '=')),
          trimTrail ((tail.dropWhile (· ≠ byte '=')).tail.dropWhile IsSpace)))) := by
  rw [load_eq, readNext_value hspace hcomment hopen]
  have hmem' : byte '=' ∈ ch :: tail := List.mem_cons_of_mem _ hmem
  obtain ⟨hd, ht⟩ := scan_mark (x := e ++ rest) hline hmem'
  obtain ⟨after, hafter, hsub⟩ := dropWhile_mark hmem
  have hafter' : (ch :: tail).dropWhile (· ≠ byte '=') = byte '=' :: after := by
    rw [List.dropWhile_cons, if_pos (by simpa using hmark), hafter]
  rw [List.cons_append] at hd ht
  have hone : OneLine after := fun c hc => hline c (List.mem_cons_of_mem _ (hsub c hc))
  have hone' := hone.dropWhile IsSpace
  unfold readValue
  simp only [hd, ht, hafter', hafter, List.cons_append, List.head?_cons, ne_eq, not_true_eq_false,
    if_false, Option.some.injEq, hmark, List.tail_cons, SectionName.close]
  rw [dropSpaces_line hone hend, takeWhile_line hone' hend, dropWhile_line hone' hend,
    hend.skipNewLine]

theorem load_skipped {ch : UInt8} {tail e rest s : Bytes} {ini : Ini} (hline : OneLine (ch :: tail))
    (hend : LineEnd e rest) (hspace : IsSpace ch = false) (hcomment : IsComment ch = false)
    (hopen : ch ≠ byte '[') (hskip : byte '=' ∉ tail ∨ ch = byte '=') :
    load multi (ch :: (tail ++ (e ++ rest)), .closed s, ini) =
      load multi (rest, .closed s, ini) := by
  rw [load_eq, readNext_value hspace hcomment hopen]
  have hnext : readValue multi (ch :: (tail ++ (e ++ rest))) (.closed s) ini =
      (e ++ rest, .closed s, ini) := by
    unfold readValue
    by_cases hmark : ch = byte '='
    · have hd := dropWhile_line hline hend
      rw [List.cons_append] at hd
      simp only [hmark] at hd ⊢
      simp [hd]
    · have hmem : byte '=' ∉ ch :: tail := by
        intro h
        rcases List.mem_cons.mp h with h | h
        · exact hmark h.symm
        · rcases hskip with hskip | hskip
          · exact hskip h
          · exact hmark hskip
      have hd := scan_no_mark hline hend hmem
      have hhead : (e ++ rest).head? ≠ some (byte '=') := by
        cases hend <;> simp [show byte '\r' ≠ byte '=' by decide, show byte '\n' ≠ byte '=' by decide]
      rw [List.cons_append] at hd
      simp only [hd, ne_eq, hhead, not_false_eq_true, if_true]
  rw [hnext]
  exact load_end hend (.closed s) ini

/-- The line before the end of a line is read as one line. -/
theorem load_line {line e rest : Bytes} {s : Bytes × Ini} (hline : OneLine line)
    (hend : LineEnd e rest) (hclosed : iniLine line ≠ .unclosed) :
    load multi (line ++ (e ++ rest), .closed s.1, s.2) =
      load multi (rest, .closed (lineStep multi s line).1, (lineStep multi s line).2) := by
  rw [← load_spaces]
  unfold lineStep
  unfold iniLine at hclosed ⊢
  cases hdrop : line.dropWhile IsSpace with
  | nil =>
    simp only
    rw [List.dropWhile_append, hdrop, List.isEmpty_nil, if_pos rfl, load_spaces, load_end hend]
  | cons ch tail =>
    have hone : OneLine (ch :: tail) := hdrop ▸ hline.dropWhile IsSpace
    have htail : OneLine tail := fun c hc => hone c (List.mem_cons_of_mem _ hc)
    have hspace : IsSpace ch = false := by
      have := List.head_dropWhile_not IsSpace (l := line) (by simp [hdrop])
      simpa [hdrop] using this
    have hsplit : (line ++ (e ++ rest)).dropWhile IsSpace = ch :: (tail ++ (e ++ rest)) := by
      rw [List.dropWhile_append, hdrop]
      rfl
    rw [hsplit]
    simp only [hdrop] at hclosed ⊢
    by_cases hcomment : IsComment ch = true
    · rw [load_comment hcomment, dropWhile_line htail hend, hend.skipNewLine]
      simp [hcomment]
    · rw [Bool.not_eq_true] at hcomment
      by_cases hopen : ch = byte '['
      · subst hopen
        by_cases hclose : byte ']' ∈ tail.dropWhile IsSpace
        · rw [load_header htail hend hclose]
          simp [hcomment, hclose]
        · simp [hcomment, hclose] at hclosed
      · by_cases hskip : byte '=' ∉ tail ∨ ch = byte '='
        · rw [load_skipped hone hend hspace hcomment hopen hskip]
          simp [hcomment, hopen, hskip]
        · have hboth := not_or.mp hskip
          rw [load_value hone hend hspace hcomment hopen hboth.2 (not_not.mp hboth.1)]
          simp only [hcomment, Bool.false_eq_true, if_false, hopen, hskip]

/-! ## All lines -/

theorem getlines_nil (delim : UInt8) : getlines delim [] = [] := rfl

theorem getlines_line {delim : UInt8} {raw rest : Bytes} (h : delim ∉ raw) :
    getlines delim (raw ++ delim :: rest) = raw :: getlines delim rest := by
  have hsplit : (raw ++ delim :: rest).splitOn delim = raw :: rest.splitOn delim := by
    simp only [List.splitOn_eq_splitOnP]
    refine List.splitOnP_append_cons_of_forall_mem (fun c hc => ?_) delim (by simp) rest
    have : c ≠ delim := fun he => h (he ▸ hc)
    simpa using this
  unfold getlines
  simp only [hsplit]
  obtain ⟨part, parts, hparts⟩ := List.exists_cons_of_ne_nil (List.splitOn_ne_nil delim rest)
  rw [hparts, List.getLast?_cons_cons]
  split
  · rfl
  · rfl

theorem getlines_last {delim : UInt8} {raw : Bytes} (h : delim ∉ raw) (hne : raw ≠ []) :
    getlines delim raw = [raw] := by
  have hsplit : raw.splitOn delim = [raw] := by
    apply List.splitOn_eq_singleton_of_beq_eq_false
    intro c hc
    have : c ≠ delim := fun he => h (he ▸ hc)
    simpa using this
  unfold getlines
  simp [hsplit, hne]

/-- A raw line is its line, and perhaps a carriage return. -/
theorem stripReturn_end (raw : Bytes) :
    ∃ e, raw = stripReturn raw ++ e ∧ (e = [] ∨ e = [byte '\r']) := by
  unfold stripReturn
  split
  · rename_i h
    exact ⟨[byte '\r'], (List.dropLast_append_getLast? _ h).symm, Or.inr rfl⟩
  · exact ⟨[], (List.append_nil _).symm, Or.inl rfl⟩

theorem oneLine_stripReturn {raw : Bytes} (hlf : byte '\n' ∉ raw)
    (hcr : byte '\r' ∉ stripReturn raw) : OneLine (stripReturn raw) := by
  intro ch hch
  obtain ⟨e, hraw, -⟩ := stripReturn_end raw
  have hne : ch ≠ byte '\n' := by
    rintro rfl
    exact hlf (hraw ▸ List.mem_append_left _ hch)
  have hne' : ch ≠ byte '\r' := by
    rintro rfl
    exact hcr hch
  simp [IsNewLineChar, hne, hne']

/-- A text whose carriage returns end lines, and whose sections have their `]`. -/
def PlainLines (license_text : Bytes) : Prop :=
  ∀ line ∈ rawLines license_text, byte '\r' ∉ line ∧ iniLine line ≠ .unclosed

theorem load_lines {data : Bytes} {s : Bytes × Ini} (hplain : PlainLines data) :
    load multi (data, .closed s.1, s.2) = ((rawLines data).foldl (lineStep multi) s).2 := by
  induction hlen : data.length using Nat.strongRecOn generalizing data s with
  | _ len ih =>
    unfold PlainLines rawLines at hplain
    unfold rawLines
    by_cases hmem : byte '\n' ∈ data
    · obtain ⟨raw, rest, rfl, hraw⟩ := List.eq_append_cons_of_mem hmem
      rw [getlines_line hraw, List.map_cons] at hplain ⊢
      obtain ⟨⟨hcr, hclosed⟩, hrest⟩ := List.forall_mem_cons.mp hplain
      obtain ⟨e, he, hcase⟩ := stripReturn_end raw
      have hend : LineEnd (e ++ [byte '\n']) rest := by
        rcases hcase with rfl | rfl
        · exact LineEnd.lf rest
        · exact LineEnd.crlf rest
      have htext : raw ++ byte '\n' :: rest = stripReturn raw ++ (e ++ [byte '\n'] ++ rest) := by
        conv => lhs; rw [he]
        simp
      rw [htext, load_line (oneLine_stripReturn hraw hcr) hend hclosed, List.foldl_cons]
      refine ih rest.length ?_ hrest rfl
      rw [← hlen, List.length_append, List.length_cons]
      omega
    · by_cases hne : data = []
      · subst hne
        rfl
      · rw [getlines_last hmem hne, List.map_singleton] at hplain ⊢
        obtain ⟨hcr, hclosed⟩ := hplain _ (List.mem_singleton_self _)
        obtain ⟨e, he, hcase⟩ := stripReturn_end data
        have hend : LineEnd e [] := by
          rcases hcase with rfl | rfl
          · exact LineEnd.none
          · exact LineEnd.cr
        have htext : data = stripReturn data ++ (e ++ []) := by simpa using he
        conv => lhs; rw [htext]
        rw [load_line (oneLine_stripReturn hmem hcr) hend hclosed]
        rfl

/-- The comment of the file is skipped like the comments of its sections. -/
theorem LoadData_eq (data : Bytes) : LoadData multi data = load multi (data, .closed [], []) := by
  have hloop : ∀ rest : Bytes, rest.length ≤ data.length →
      loadLoop multi (data.length + 1) (rest, .closed [], []) = load multi (rest, .closed [], []) :=
    fun rest hle => loadLoop_fuel (Nat.lt_succ_of_le hle) (Nat.lt_succ_self _)
  unfold LoadData afterFileComment
  split
  · rw [hloop _ (LoadMultiLineText_le _ _ _ _)]
    exact load_comments (Nat.lt_succ_self _)
  · exact hloop data (Nat.le_refl _)

end

instance (license_text : Bytes) : Decidable (PlainLines license_text) :=
  inferInstanceAs (Decidable (∀ line ∈ rawLines license_text, _))

/-- A comment, a section and two values, with both ends of a line. -/
def mixedText : Bytes := bytesOf "; c\n[A]\r\nk = v\n= x\nj=w".toList

end Licensecc.License
