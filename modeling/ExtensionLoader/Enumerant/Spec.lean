import ExtensionLoader.Enumerant.Name
import ExtensionLoader.Enumerant.Sections
import ExtensionLoader.Spec.Line
import ExtensionLoader.Text.Word

/-! # The enumerant spec

A line of an enumerant spec opens the section of an API, gives an enumerant a value,
borrows one from another API, or carries text for the C compiler that holds no
enumerant. Lines of no known shape are passed over, and so are enumerants before the
first section.
-/

namespace ExtensionLoader

open Text

/-- The shapes of a line of an enumerant spec. -/
inductive EnumLine
  /-- `passthru: ...` -/
  | passthru
  /-- `<api> enum:` -/
  | sectionOf (api : String)
  /-- `<name> = <value>` -/
  | literal (name value : String)
  /-- `use <api> <name>` -/
  | borrowed (api name : String)
deriving DecidableEq

namespace EnumLine

/-- A heading: the API whose section it opens. -/
def sectionOf? (line : List Char) : Option EnumLine :=
  match tokens line with
  | [api, keyword] =>
    if keyword = "enum:".toList ∧ isWord api then some (sectionOf (String.ofList api)) else none
  | _ => none

/-- A name with a value that is written out. -/
def literal? (line : List Char) : Option EnumLine :=
  match cutFirst '=' line with
  | none => none
  | some (name, value) =>
    if isWord (trim name) ∧ isWord (trim value) then
      some (literal (String.ofList (trim name)) (String.ofList (trim value)))
    else none

/-- A name whose value is looked up in another API. -/
def borrowed? (line : List Char) : Option EnumLine :=
  match tokens line with
  | [keyword, api, name] =>
    if keyword = "use".toList ∧ isWord api ∧ isWord name then
      some (borrowed (String.ofList api) (String.ofList name))
    else none
  | _ => none

/-- What a cleaned line is, the forms tried in the order of the grammar. -/
def classify (line : List Char) : Option EnumLine :=
  if "passthru:".toList.isPrefixOf line then some passthru
  else (sectionOf? line).or ((literal? line).or (borrowed? line))

end EnumLine

namespace EnumTable

/-- A table that is being read, with the API whose section is open. -/
structure Reading where
  table : EnumTable
  current : Option String

/-- What one more line does to the table being read. -/
def Reading.step (reading : Reading) (line : List Char) : Reading :=
  match EnumLine.classify line, reading.current with
  | some (.sectionOf api), _ => ⟨reading.table.openSection api, some api⟩
  | some (.literal name value), some api =>
    { reading with table := reading.table.define api (qualify name) (.literal value) }
  | some (.borrowed target name), some api =>
    { reading with table := reading.table.define api (qualify name) (.reference target) }
  | _, _ => reading

/-- The table of an enum spec. -/
def parse (source : String) : EnumTable :=
  ((Spec.cleanedLines source).foldl Reading.step ⟨.empty, none⟩).table

/-- What the reader says about one line, given whether a section is open. -/
def remark (opened : Bool) (line : List Char) : List LogMessage :=
  match EnumLine.classify line, opened with
  | none, _ => [.trace s!"Skipping enum spec line: {String.ofList line}"]
  | some (.literal name _), false =>
    [.debug s!"Enumerant {name} appears before any section, skipping"]
  | some (.borrowed target name), false =>
    [.debug s!"use {target} {name} appears before any section, skipping"]
  | _, _ => []

/-- What is logged for the lines from here on, given whether a section is open. -/
def remarksFrom (opened : Bool) : List (List Char) → List LogMessage
  | [] => []
  | line :: rest =>
    remark opened line ++ remarksFrom (opened || (EnumLine.sectionOf? line).isSome) rest

/-- What is logged while an enum spec is read. -/
def remarks (source : String) : List LogMessage := remarksFrom false (Spec.cleanedLines source)

end EnumTable

end ExtensionLoader
