import ExtensionLoader.Json
import ExtensionLoader.OrderedMap

/-! # Enumerants by API

An enumerant has a value of its own or borrows the value that another API gives it.
Enumerants stand in sections, one for each API; sections and the enumerants in them
keep the order in which they first appear. The same sections hold the enumerants
before and after references are resolved.
-/

namespace ExtensionLoader

/-- The value of an enumerant as a spec gives it. -/
inductive EnumValue
  /-- A numeral, exactly as it is written. -/
  | literal (text : String)
  /-- The value that `api` gives the same name. -/
  | reference (api : String)
deriving DecidableEq

namespace EnumValue

/-- The text of a value that is not a reference. -/
def literal? : EnumValue → Option String
  | literal text => some text
  | reference _ => none

/-- Whether the value is looked up in another API. -/
def isReference : EnumValue → Bool
  | literal _ => false
  | reference _ => true

/-- The value as JSON. -/
def json : EnumValue → Json
  | literal text => .object [("literal", .text text)]
  | reference api => .object [("reference", .text api)]

end EnumValue

/-- Named values in a section for each API. -/
abbrev Sections (α : Type) := OrderedMap String (OrderedMap String α)

namespace Sections

variable {α : Type}

/-- Make sure that an API has a section; a new one stands behind the others. -/
def openSection (table : Sections α) (api : String) : Sections α :=
  table.alter api fun known => known.getD .empty

/-- Give `name` the value `value` in the section of `api`, which is opened if it is new. -/
def define (table : Sections α) (api name : String) (value : α) : Sections α :=
  table.alter api fun known => (known.getD .empty).insert name value

/-- What the section of `api` gives `name`. -/
def value? (table : Sections α) (api name : String) : Option α :=
  (table.get? api).bind fun names => names.get? name

/-- The table as JSON: the names of each API with their values. -/
def json (value : α → Json) (table : Sections α) : Json :=
  .object (table.entries.map fun (api, names) =>
    (api, .object (names.entries.map fun (name, held) => (name, value held))))

end Sections

/-- The enumerants of a spec, before references are resolved. -/
abbrev EnumTable := Sections EnumValue

/-- The enumerants with the value that each of them is given in the end. -/
abbrev ResolvedTable := Sections String

/-- How many enumerants of the table are references. -/
def EnumTable.referenceCount (table : EnumTable) : Nat :=
  (table.values.flatMap OrderedMap.values).countP EnumValue.isReference

end ExtensionLoader
