/-! # Physical lines and line endings

A line break is a line feed, together with the return directly before it if there
is one. `Text.unifyBreaks` writes every line break as a line feed alone, and
`Text.lines` cuts a text into its lines; a text that ends with a line break has no
empty last line. `LineEnding.apply` writes the line breaks of a text that is to be
stored.
-/

namespace ExtensionLoader

namespace Text

/-- Take away each return that stands directly before a line feed. -/
def unifyBreaks : List Char → List Char
  | [] => []
  | c :: rest =>
    if c = '\r' ∧ rest.head? = some '\n' then unifyBreaks rest else c :: unifyBreaks rest

/-- The lines of a text whose line breaks are line feeds. -/
def feedLines : List Char → List (List Char)
  | [] => []
  | c :: rest =>
    if c = '\n' then [] :: feedLines rest
    else
      match feedLines rest with
      | [] => [[c]]
      | line :: later => (c :: line) :: later

/-- The physical lines of a text, without their line breaks. -/
def lines (text : String) : List (List Char) := feedLines (unifyBreaks text.toList)

end Text

/-- How the lines of a stored text end. -/
inductive LineEnding
  | lf
  | crlf
deriving DecidableEq, Inhabited

namespace LineEnding

/-- The word a line ending is set with. -/
def word : LineEnding → String
  | lf => "lf"
  | crlf => "crlf"

/-- The line ending a word sets. -/
def ofWord? : String → Option LineEnding
  | "lf" => some lf
  | "crlf" => some crlf
  | _ => none

/-- Every line ending can be set with its word. -/
theorem ofWord?_word (ending : LineEnding) : ofWord? ending.word = some ending := by
  cases ending <;> rfl

/-- Write a return before each line feed. -/
def addReturns (text : List Char) : List Char :=
  text.flatMap fun c => if c = '\n' then ['\r', '\n'] else [c]

/-- A text as it is stored under a line ending: as it is, or with each line break
written as a return and a line feed. -/
def apply (ending : LineEnding) (text : String) : String :=
  match ending with
  | lf => text
  | crlf => String.ofList (addReturns (Text.unifyBreaks text.toList))

end LineEnding

end ExtensionLoader
