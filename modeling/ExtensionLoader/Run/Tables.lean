import ExtensionLoader.Enumerant.Resolution
import ExtensionLoader.Enumerant.Spec
import ExtensionLoader.Function.Spec
import ExtensionLoader.Settings
import ExtensionLoader.Workspace

/-! # Loading the tables

Before anything is written, all three inputs are read, parsed and resolved. An input
that cannot be read ends the run; all else that is questionable is recorded.
-/

namespace ExtensionLoader

/-- What the three inputs hold, with every reference resolved. -/
structure Tables where
  enums : ResolvedTable
  functions : FunctionTable
  types : TypeMap
deriving DecidableEq

/-- The texts of the three inputs. -/
structure SourceTexts where
  enumSpec : String
  functionSpec : String
  typeMap : String

namespace Tables

/-- The tables that three texts give; what there is to report comes behind the findings
made before. -/
def ofTexts (texts : SourceTexts) (found : Diagnostics) : Tables × Diagnostics :=
  let types := TypeMap.parse texts.typeMap
  let (enums, reported) := (EnumTable.parse texts.enumSpec).resolve found
  (⟨enums, FunctionTable.parse texts.functionSpec types, types⟩, reported)

/-- The message that shows a table. -/
def tableMessage (label : String) (json : Json) : LogMessage :=
  .trace s!"{label}:\n{json.document}"

/-- What is said while three texts are made into tables. -/
def remarks (sources : Sources) (texts : SourceTexts) : List LogMessage :=
  let types := TypeMap.parse texts.typeMap
  let functions := FunctionTable.parse texts.functionSpec types
  let enums := EnumTable.parse texts.enumSpec
  TypeMap.remarks texts.typeMap ++
    [.debug s!"Parsed {types.size} type mappings from {sources.typeMap}"] ++
    FunctionTable.remarks texts.functionSpec types ++
    [.debug (s!"Parsed {functions.functionCount} functions in {functions.size} APIs from " ++
        sources.functionSpec),
      tableMessage "Function table" functions.json] ++
    EnumTable.remarks texts.enumSpec ++
    [.debug (s!"Parsed {enums.size} enum APIs ({enums.referenceCount} use directives) from " ++
        sources.enumSpec),
      tableMessage "Unresolved enum table" (enums.json EnumValue.json)] ++
    enums.resolveRemarks ++
    [tableMessage "Resolved enum table" ((enums.resolve []).1.json .text)]

variable {m : Type → Type} [Monad m]

/-- Read one input and record which of its lines are too wide. -/
def readInput (workspace : Workspace m) (limit : Option Nat) (name : String) :
    ExceptT Fault (StateT Diagnostics m) String := do
  let text ← ExceptT.mk (StateT.lift (workspace.read name))
  let warnings := match limit with
    | some width => Spec.widthWarnings name text width
    | none => []
  ExceptT.lift (StateT.lift
    (workspace.sayAll (warnings.map fun warning => .debug warning.message)))
  ExceptT.lift (modify fun found => found ++ warnings)
  return text

/-- Read the three inputs and make them into tables. -/
def load (workspace : Workspace m) (sources : Sources) (limit : Option Nat) :
    ExceptT Fault (StateT Diagnostics m) Tables := do
  let typeMap ← readInput workspace limit sources.typeMap
  let functionSpec ← readInput workspace limit sources.functionSpec
  let enumSpec ← readInput workspace limit sources.enumSpec
  let texts : SourceTexts := ⟨enumSpec, functionSpec, typeMap⟩
  ExceptT.lift (StateT.lift (workspace.sayAll (remarks sources texts)))
  ExceptT.lift (modifyGet (ofTexts texts))

end Tables

end ExtensionLoader
