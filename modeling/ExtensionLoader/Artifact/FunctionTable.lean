import ExtensionLoader.Artifact.Kind
import ExtensionLoader.Function.Table
import ExtensionLoader.Scope
import ExtensionLoader.Text.Column

/-! # The table of function pointers

One line for each function calls the macro `GLEX_FUNC` on its return type, name and
parameters; the file is included under different definitions of the macro. Behind it
an alias gives the function its plain name. Return types and names stand in columns,
as wide as the widest entry of the whole file.
-/

namespace ExtensionLoader

namespace FunctionTable

/-- The APIs of a scope that have functions, with their functions. -/
def groups (table : FunctionTable) (scope : Scope) : List (String × List FunctionRecord) :=
  table.entries.filter fun (api, records) =>
    (scope.api?.all fun wanted => api = wanted) && !records.isEmpty

/-- The widths a block of the table is padded to. -/
structure Columns where
  returnWidth : Nat
  nameWidth : Nat

/-- The columns that hold all of some records: a comma is part of the return column,
and widths are counted in bytes. -/
def Columns.ofRecords (records : List FunctionRecord) : Columns where
  returnWidth := Text.widest (records.map fun record => record.returnType.utf8ByteSize + 1)
  nameWidth := Text.widest (records.map fun record => record.name.utf8ByteSize)

/-- The line that passes a function to the macro. -/
def entryLine (columns : Columns) (record : FunctionRecord) : String :=
  "GLEX_FUNC( " ++ Text.padRight columns.returnWidth (record.returnType ++ ",") ++ " " ++
    Text.padRight (columns.nameWidth + 1) (record.name ++ ",") ++
    " (" ++ record.parametersText ++ ") );"

/-- The line that gives a function its plain name. -/
def aliasLine (columns : Columns) (record : FunctionRecord) : String :=
  "    #define " ++ Text.padRight columns.nameWidth record.name ++ " GLEX_" ++ record.name

/-- The lines of one function: its entry, then the alias that stands in for it when it is not
defined. -/
def recordLines (columns : Columns) (record : FunctionRecord) : List String :=
  [entryLine columns record, "#ifndef " ++ record.name, aliasLine columns record, "#endif"]

/-- The block of one API: its heading and the lines of its functions. -/
def groupLines (columns : Columns) (group : String × List FunctionRecord) : List String :=
  ("// " ++ group.1) :: group.2.flatMap (recordLines columns)

/-- The lines of the file for some groups, with an empty line between two groups. -/
def fileLines (groups : List (String × List FunctionRecord)) : List String :=
  let columns := Columns.ofRecords (groups.flatMap Prod.snd)
  [""].intercalate (groups.map (groupLines columns))

/-- The function table of a scope, or nothing when no function is in the scope. -/
def render (table : FunctionTable) (scope : Scope) : Option String :=
  match table.groups scope with
  | [] => none
  | groups => some (Artifact.text (fileLines groups))

end FunctionTable

end ExtensionLoader
