import ExtensionLoader.Run.Tables

/-! # The summary of the tables

For each API, how many enumerants and how many functions the tables hold: the APIs
with enumerants first, in their order, and then those that have functions alone.
-/

namespace ExtensionLoader

/-- How many enumerants and functions an API has. -/
structure ApiSummary where
  api : String
  enums : Nat
  functions : Nat
deriving DecidableEq

/-- A summary as JSON. -/
def ApiSummary.json (summary : ApiSummary) : Json :=
  .object [("api", .text summary.api), ("enums", .number summary.enums),
    ("functions", .number summary.functions)]

/-- How many functions the table has for an API. -/
def FunctionTable.countOf (table : FunctionTable) (api : String) : Nat :=
  ((table.get? api).getD []).length

/-- An entry for each API, those with enumerants first. -/
def Tables.summary (tables : Tables) : List ApiSummary :=
  tables.enums.entries.map (fun (api, names) =>
      ⟨api, names.size, tables.functions.countOf api⟩) ++
    (tables.functions.entries.filter fun (api, _) => !tables.enums.contains api).map
      fun (api, records) => ⟨api, 0, records.length⟩

end ExtensionLoader
