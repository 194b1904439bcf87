import ExtensionLoader.Json
import ExtensionLoader.OrderedMap

/-! # Functions by API

A function record holds what a C declaration needs: the return type, the name and the
parameters. Records stand under the API that declares them, in declaration order.
-/

namespace ExtensionLoader

/-- A parameter of a function: its C type and its name. -/
structure Parameter where
  /-- The C type, which is empty when the spec gives none. -/
  type : String
  name : String
deriving DecidableEq

/-- The parameter as C declares it. -/
def Parameter.declaration (parameter : Parameter) : String :=
  if parameter.type.isEmpty then parameter.name else s!"{parameter.type} {parameter.name}"

/-- The C type for nothing: what a function without a `return` line gives back, and
the parameter list of a function without parameters. -/
def voidType : String := "GLvoid"

/-- A function as the table has it: its C name, the type it returns and its parameters. -/
structure FunctionRecord where
  returnType : String
  /-- The name of the C symbol. -/
  name : String
  parameters : List Parameter
deriving DecidableEq

namespace FunctionRecord

/-- The parameter list as C has it. -/
def parametersText (record : FunctionRecord) : String :=
  if record.parameters.isEmpty then voidType
  else String.intercalate ", " (record.parameters.map Parameter.declaration)

/-- The function as JSON. -/
def json (record : FunctionRecord) : Json :=
  .object [("return_type", .text record.returnType), ("name", .text record.name),
    ("params", .list (record.parameters.map fun parameter =>
      .object [("ty", .text parameter.type), ("name", .text parameter.name)]))]

end FunctionRecord

/-- The functions of each API, in the order of the spec. -/
abbrev FunctionTable := OrderedMap String (List FunctionRecord)

namespace FunctionTable

/-- Put a function behind the others of its API. -/
def push (table : FunctionTable) (api : String) (record : FunctionRecord) : FunctionTable :=
  table.alter api fun known => known.getD [] ++ [record]

/-- The number of functions of all APIs. -/
def functionCount (table : FunctionTable) : Nat := table.values.flatten.length

/-- The table as JSON: a list of functions for each API. -/
def json (table : FunctionTable) : Json :=
  .object (table.entries.map fun (api, records) =>
    (api, .list (records.map FunctionRecord.json)))

end FunctionTable

end ExtensionLoader
