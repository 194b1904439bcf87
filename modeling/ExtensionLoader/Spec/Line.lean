import ExtensionLoader.Diagnostic
import ExtensionLoader.Log
import ExtensionLoader.Text.Blank
import ExtensionLoader.Text.Lines

/-! # Lines of a spec file

All spec files share one treatment of lines. A line is cleaned of its comments and
of the blanks around it (`Spec.cleanLine`); what is left empty carries nothing. Lines
wider than a limit are worth a warning (`Spec.widthWarnings`).
-/

namespace ExtensionLoader.Spec

open Text

/-- A line up to its first `#` that no backslash stands directly before. The flag
says whether a backslash stands before the text. -/
def dropHashComment (escaped : Bool) : List Char → List Char
  | [] => []
  | c :: rest => if c = '#' ∧ escaped = false then [] else c :: dropHashComment (c == '\\') rest

/-- What stands before and behind the first comment opener. -/
def cutAtOpener : List Char → Option (List Char × List Char)
  | [] => none
  | c :: rest =>
    if c = '/' ∧ rest.head? = some '*' then some ([], rest.tail)
    else (cutAtOpener rest).map fun (before, behind) => (c :: before, behind)

/-- What stands behind the last comment closer. -/
def afterLastCloser : List Char → Option (List Char)
  | [] => none
  | c :: rest =>
    match afterLastCloser rest with
    | some behind => some behind
    | none => if c = '*' ∧ rest.head? = some '/' then some rest.tail else none

/-- A line without the block from its first comment opener to the last comment
closer behind it. -/
def dropBlockComment (line : List Char) : List Char :=
  match cutAtOpener line with
  | none => line
  | some (before, behind) =>
    match afterLastCloser behind with
    | none => line
    | some after => before ++ after

/-- A line without comments and without blanks around it. -/
def cleanLine (line : List Char) : List Char :=
  trim (dropBlockComment (dropHashComment false line))

/-- The cleaned lines of a source that are not empty. -/
def cleanedLines (source : String) : List (List Char) :=
  ((lines source).map cleanLine).filter fun line => !line.isEmpty

/-- The number of characters of a line, without returns at its end. -/
def width (line : List Char) : Nat := (dropEndWhile (· == '\r') line).length

/-- The text of the warning for a line that is too wide. -/
def widthMessage (resource : String) (number width limit : Nat) : String :=
  s!"{resource}:{number}: line is {width} characters wide (maximum {limit})"

/-- The code of the warning for a line that is too wide. -/
def widthCode : String := "glex::parse::line-width"

/-- One warning for each line wider than `limit` characters, in line order. Lines
are numbered from one. -/
def widthWarnings (resource source : String) (limit : Nat) : Diagnostics :=
  (lines source).zipIdx.filterMap fun (line, index) =>
    if limit < width line then
      some (.warning widthCode (widthMessage resource (index + 1) (width line) limit))
    else none

end ExtensionLoader.Spec
