-- The INI parser of the library, over the bytes of a text without NUL, and its
-- table of sections, keys and values. Multi-line values are off.
import Licensecc.License.Strings
import Mathlib.Data.List.Sort

open Licensecc.Codec Licensecc.V201
open Licensecc.Protocol (byte inRange)

namespace Licensecc.License

/-! ## Characters and names -/

def IsSpace (ch : UInt8) : Bool :=
  ch = byte ' ' || ch = byte '\t' || ch = byte '\r' || ch = byte '\n'

def IsComment (ch : UInt8) : Bool := ch = byte ';' || ch = byte '#'

def IsNewLineChar (a_c : UInt8) : Bool := a_c = byte '\n' || a_c = byte '\r'

def SkipNewLine : Bytes → Bytes
  | [] => []
  | a :: rest => if a = byte '\r' ∧ rest.head? = some (byte '\n') then rest.tail else rest

def locase (ch : UInt8) : UInt8 := tolower ch

/-- The value of a `char`. -/
def signedChar (ch : UInt8) : Int := if ch < 0x80 then ch.toNat else ch.toNat - 256

/-- The comparison of names without regard to case. -/
def IsLess : Bytes → Bytes → Bool
  | _, [] => false
  | [], _ :: _ => true
  | a :: l, b :: r =>
    if locase a = locase b then IsLess l r else signedChar (locase a) < signedChar (locase b)

/-- Neither name is less than the other. -/
def sameName (a b : Bytes) : Bool := a.map locase = b.map locase

/-! ## The table -/

/-- The sections in their load order, each with its keys and values in theirs. -/
abbrev Ini := List (Bytes × List (Bytes × Bytes))

/-- `m_data.find(a_pSection)` -/
def findSection (ini : Ini) (a_pSection : Bytes) : Option (List (Bytes × Bytes)) :=
  (ini.find? fun section_ => sameName section_.1 a_pSection).map (·.2)

/-- A value in a section: with multiple keys it is a new entry, else it replaces a value that
is there. -/
def addKey (m_bAllowMultiKey : Bool) (a_pKey a_pValue : Bytes) (keyval : List (Bytes × Bytes)) :
    List (Bytes × Bytes) :=
  if m_bAllowMultiKey = false ∧ keyval.any (fun entry => sameName entry.1 a_pKey) then
    keyval.map fun entry => if sameName entry.1 a_pKey then (entry.1, a_pValue) else entry
  else keyval ++ [(a_pKey, a_pValue)]

/-- `AddEntry`, for a section only or for a value in it. -/
def AddEntry (m_bAllowMultiKey : Bool) (ini : Ini) (a_pSection : Bytes)
    (entry : Option (Bytes × Bytes)) : Ini :=
  let add := fun keyval => match entry with
    | none => keyval
    | some (a_pKey, a_pValue) => addKey m_bAllowMultiKey a_pKey a_pValue keyval
  if (findSection ini a_pSection).isSome then
    ini.map fun section_ =>
      if sameName section_.1 a_pSection then (section_.1, add section_.2) else section_
  else ini ++ [(a_pSection, add [])]

def GetAllValues (ini : Ini) (a_pSection a_pKey : Bytes) : List Bytes :=
  (((findSection ini a_pSection).getD []).filter fun entry => sameName entry.1 a_pKey).map (·.2)

/-- The first value that was loaded. -/
def GetValue (ini : Ini) (a_pSection a_pKey : Bytes) : Option Bytes :=
  (GetAllValues ini a_pSection a_pKey).head?

/-- The first spelling of each name. -/
def firstNames : List Bytes → List Bytes
  | [] => []
  | name :: names => name :: (firstNames names).filter fun other => !sameName other name

/-- The keys of a section, sorted. -/
def GetAllKeys (ini : Ini) (a_pSection : Bytes) : List Bytes :=
  (firstNames (((findSection ini a_pSection).getD []).map (·.1))).insertionSort
    fun a b => IsLess b a = false

def GetSectionSize (ini : Ini) (a_pSection : Bytes) : Int :=
  match findSection ini a_pSection with
  | none => -1
  | some _ => (GetAllKeys ini a_pSection).length

/-- `Delete` of a key, where an empty section stays. -/
def Delete (ini : Ini) (a_pSection a_pKey : Bytes) : Ini :=
  ini.map fun section_ =>
    if sameName section_.1 a_pSection then
      (section_.1, section_.2.filter fun entry => !sameName entry.1 a_pKey)
    else section_

/-! ## Loading -/

/-- The name of the current section. After a `[` without its `]`, the pointer to the name
stays where the name began, and the name reaches as far as the next NUL that is written. -/
inductive SectionName where
  | closed (name : Bytes)
  | unclosed (start : Bytes)
  deriving Repr

/-- The name of the section when a NUL is written after `written`, which stands where `rest`
began. -/
def SectionName.close (rest written : Bytes) : SectionName → Bytes
  | .closed name => name
  | .unclosed start => start.take (start.length - rest.length) ++ written

/-- The number of the ends of lines in some spaces. -/
def countNewLines : Nat → Bytes → Nat
  | 0, _ => 0
  | _, [] => 0
  | n + 1, ch :: rest =>
    if IsNewLineChar ch then countNewLines n (SkipNewLine (ch :: rest)) + 1
    else countNewLines n rest

/-- `LoadMultiLineText` without a tag: the text of a comment with single ends of lines, and
what follows it. -/
def LoadMultiLineText (a_bAllowBlankLinesInComment : Bool) : Nat → Bytes → Bytes → Bytes × Bytes
  | 0, a_pData, done => (done.dropLast, a_pData)
  | n + 1, a_pData, done =>
    if IsComment (a_pData.headD 0) then
      let line := a_pData.takeWhile fun ch => !IsNewLineChar ch
      let after := a_pData.dropWhile fun ch => !IsNewLineChar ch
      if after = [] then (done ++ line, [])
      else LoadMultiLineText a_bAllowBlankLinesInComment n (SkipNewLine after)
        (done ++ line ++ [byte '\n'])
    else
      let pCurr := a_pData.dropWhile IsSpace
      if a_bAllowBlankLinesInComment ∧ IsComment (pCurr.headD 0) then
        LoadMultiLineText a_bAllowBlankLinesInComment n pCurr
          (done ++ List.replicate
            (countNewLines a_pData.length (a_pData.takeWhile IsSpace)) (byte '\n'))
      else (done.dropLast, a_pData)

/-- The text without the spaces at its end. -/
def trimTrail (s : Bytes) : Bytes := s.rdropWhile IsSpace

/-- What is left to read, the current section and the table. -/
abbrev LoadState := Bytes × SectionName × Ini

/-- A comment: its text ends in a NUL. -/
def readComment (a_pData : Bytes) (a_pSection : SectionName) (ini : Ini) : LoadState :=
  let (comment, rest) := LoadMultiLineText true (a_pData.length + 1) a_pData []
  (rest, .closed (a_pSection.close a_pData comment), ini)

/-- A section, from the start of its name after the `[` and some spaces. -/
def readSection (m_bAllowMultiKey : Bool) (name : Bytes) (ini : Ini) : LoadState :=
  let inName := fun ch => ch ≠ byte ']' && !IsNewLineChar ch
  let after := name.dropWhile inName
  if after.head? = some (byte ']') then
    let a_pSection := trimTrail (name.takeWhile inName)
    (after.tail.dropWhile fun ch => !IsNewLineChar ch, .closed a_pSection,
      AddEntry m_bAllowMultiKey ini a_pSection none)
  else (after, .unclosed name, ini)

/-- A value, or a line that is skipped but for its end. -/
def readValue (m_bAllowMultiKey : Bool) (a_pData : Bytes) (a_pSection : SectionName) (ini : Ini) :
    LoadState :=
  let inKey := fun ch => ch ≠ byte '=' && !IsNewLineChar ch
  let after := a_pData.dropWhile inKey
  if after.head? ≠ some (byte '=') then (after, a_pSection, ini)
  else if a_pData.head? = some (byte '=') then
    (a_pData.dropWhile fun ch => !IsNewLineChar ch, a_pSection, ini)
  else
    let a_pKey := trimTrail (a_pData.takeWhile inKey)
    let value := after.tail.dropWhile fun ch => !IsNewLineChar ch && IsSpace ch
    let a_pVal := trimTrail (value.takeWhile fun ch => !IsNewLineChar ch)
    let section_ := a_pSection.close a_pData a_pKey
    (SkipNewLine (value.dropWhile fun ch => !IsNewLineChar ch), .closed section_,
      AddEntry m_bAllowMultiKey ini section_ (some (a_pKey, a_pVal)))

/-- One turn of the loop of `FindEntry`, with the `AddEntry` of what it finds. -/
def readNext (m_bAllowMultiKey : Bool) (state : LoadState) : Option LoadState :=
  match state.1.dropWhile IsSpace with
  | [] => none
  | ch :: tail =>
    if IsComment ch then some (readComment (ch :: tail) state.2.1 state.2.2)
    else if ch = byte '[' then
      some (readSection m_bAllowMultiKey (tail.dropWhile IsSpace) state.2.2)
    else some (readValue m_bAllowMultiKey (ch :: tail) state.2.1 state.2.2)

def loadLoop (m_bAllowMultiKey : Bool) : Nat → LoadState → Ini
  | 0, state => state.2.2
  | n + 1, state =>
    match readNext m_bAllowMultiKey state with
    | none => state.2.2
    | some next => loadLoop m_bAllowMultiKey n next

/-- The text after the comment of the file. -/
def afterFileComment (a_pData : Bytes) : Bytes :=
  if IsComment (a_pData.headD 0) then
    (LoadMultiLineText false (a_pData.length + 1) a_pData []).2
  else a_pData

/-- `LoadData` into an empty table -/
def LoadData (m_bAllowMultiKey : Bool) (a_pData : Bytes) : Ini :=
  loadLoop m_bAllowMultiKey (a_pData.length + 1) (afterFileComment a_pData, .closed [], [])

/-! ## Saving -/

def SI_NEWLINE_A : Bytes := text "\n"

/-- The lines of a section, its name first. -/
def saveSection (section_ : Bytes × List (Bytes × Bytes)) : Bytes :=
  (if section_.1 ≠ [] then text "[" ++ section_.1 ++ text "]" ++ SI_NEWLINE_A else []) ++
    section_.2.flatMap fun entry => entry.1 ++ text " = " ++ entry.2 ++ SI_NEWLINE_A

/-- `Save` of a table without comments, where each key has one value. -/
def Save (ini : Ini) : Bytes :=
  List.intercalate (SI_NEWLINE_A ++ SI_NEWLINE_A) (ini.map saveSection) ++ SI_NEWLINE_A

end Licensecc.License
