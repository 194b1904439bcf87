import ExtensionLoader.Function.Dialect
import ExtensionLoader.Function.Table
import ExtensionLoader.Function.TypeMap
import ExtensionLoader.Spec.Line
import ExtensionLoader.Text.Word

/-! # The function spec

A function spec is a sequence of blocks. A header line names a function; the field
lines behind it give its category, return type and parameters. A header that names a
function again starts its block anew in its old place. Functions without a category
are dropped, the others are filed under their category.
-/

namespace ExtensionLoader

open Text

/-- The shapes of a line of a function spec. -/
inductive FunctionLine
  /-- `required-props:`, `param: retval retained` and the like. -/
  | directive
  /-- `<name>(<arguments>)` -/
  | header (name : String)
  /-- `<key> <value> <type> <modifiers>`, where type and modifiers may be missing. -/
  | field (key value type : String) (modifiers : List Char)
deriving DecidableEq

namespace FunctionLine

/-- Whether a colon stands behind a leading run of word characters and hyphens. -/
def isDirective (line : List Char) : Bool :=
  let named (c : Char) : Bool := isWordChar c || c == '-'
  !(line.takeWhile named).isEmpty && (line.dropWhile named).head? == some ':'

/-- The field that stands in a line behind its key. -/
def field? (key behind : List Char) : Option FunctionLine :=
  if (behind.head?.map isBlank).getD false then
    let (value, rest) := splitWord (trimStart behind)
    if value.isEmpty then none
    else
      let (type, modifiers) := splitWord (trimStart rest)
      some (field (String.ofList key) (String.ofList value) (String.ofList type) modifiers)
  else none

/-- What a cleaned line is: a heading, a property of the open function, or nothing. -/
def classify (line : List Char) : Option FunctionLine :=
  if isDirective line then some directive
  else
    let (key, behind) := splitWord line
    if key.isEmpty then none
    else if behind.head? = some '(' ∧ behind.getLast? = some ')' then
      some (header (String.ofList key))
    else field? key behind

end FunctionLine

/-- The C type of a parameter. A parameter that is an array or a reference is a
pointer, and a constant one if it is passed `in`. -/
def parameterType (types : TypeMap) (type : String) (modifiers : List Char) : String :=
  let named := types.translate type
  if containsWord modifiers "array".toList || containsWord modifiers "reference".toList then
    if containsWord modifiers "in".toList then s!"const {named}*" else s!"{named}*"
  else named

/-- What the fields behind a header have given so far. -/
structure FunctionBlock where
  category : Option String := none
  returnType : Option String := none
  parameters : List Parameter := []

/-- A block with one more field. Fields of unknown keys give nothing. -/
def FunctionBlock.add (dialect : Dialect) (types : TypeMap) (block : FunctionBlock)
    (key value type : String) (modifiers : List Char) : FunctionBlock :=
  if key = "category" then { block with category := some (dialect.categoryName value) }
  else if key = "return" then { block with returnType := some (types.translate value) }
  else if key = "param" then
    let parameter : Parameter :=
      if type.isEmpty then ⟨"", value⟩ else ⟨parameterType types type modifiers, value⟩
    { block with parameters := block.parameters ++ [parameter] }
  else block

namespace FunctionTable

/-- The blocks read so far, with the function whose block is open. -/
structure Reading where
  blocks : OrderedMap String FunctionBlock
  current : Option String

/-- What one more line does to the functions being read. -/
def Reading.step (dialect : Dialect) (types : TypeMap) (reading : Reading) (line : List Char) :
    Reading :=
  match FunctionLine.classify line, reading.current with
  | some (.header name), _ =>
    ⟨reading.blocks.insert (dialect.functionPrefix ++ name) {},
      some (dialect.functionPrefix ++ name)⟩
  | some (.field key value type modifiers), some name =>
    { reading with
      blocks := reading.blocks.alter name fun block =>
        (block.getD {}).add dialect types key value type modifiers }
  | _, _ => reading

/-- The dialect of a spec, told by its first physical line. -/
def dialectOf (source : String) : Dialect := Dialect.ofFirstLine ((lines source).headD [])

/-- The blocks of a spec, in the order of the first header of each function. -/
def blocks (source : String) (types : TypeMap) : OrderedMap String FunctionBlock :=
  ((Spec.cleanedLines source).foldl (Reading.step (dialectOf source) types)
    ⟨.empty, none⟩).blocks

/-- File the function of a block under its category, if it has one. -/
def file (table : FunctionTable) (name : String) (block : FunctionBlock) : FunctionTable :=
  match block.category with
  | none => table
  | some category =>
    table.push category ⟨block.returnType.getD voidType, name, block.parameters⟩

/-- The functions of a spec, by the API they are filed under. -/
def parse (source : String) (types : TypeMap) : FunctionTable :=
  (blocks source types).entries.foldl (fun table (name, block) => table.file name block) .empty

/-- What the reader says about one line, given whether a block is open. -/
def remark (opened : Bool) (line : List Char) : List LogMessage :=
  match FunctionLine.classify line, opened with
  | none, _ => [.trace s!"Skipping func spec line: {String.ofList line}"]
  | some (.field key _ _ _), false => [.trace s!"Field {key} outside of a function, skipping"]
  | _, _ => []

/-- Whether a line is a header. -/
def isHeader (line : List Char) : Bool :=
  match FunctionLine.classify line with
  | some (.header _) => true
  | _ => false

/-- What is logged for the lines from here on, given whether a function is open. -/
def remarksFrom (opened : Bool) : List (List Char) → List LogMessage
  | [] => []
  | line :: rest => remark opened line ++ remarksFrom (opened || isHeader line) rest

/-- What is logged while a function spec is read. -/
def remarks (source : String) (types : TypeMap) : List LogMessage :=
  .debug s!"Parsing func spec as {(dialectOf source).word} dialect" ::
    remarksFrom false (Spec.cleanedLines source) ++
    (blocks source types).entries.filterMap fun (name, block) =>
      if block.category.isNone then
        some (.debug s!"Function {name} has no category, dropping it")
      else none

end FunctionTable

end ExtensionLoader
