import ExtensionLoader.Yaml.Library
import ExtensionLoader.Yaml.Node.OfTokens
import ExtensionLoader.Yaml.Node.Printer

/-! # A YAML library

The library that the program is run with. A node is taken for what its text, its style and
its tag allow.
-/

namespace ExtensionLoader.Yaml

/-- The tag of the null value. -/
def nullTag : Tag := octetsOf "tag:yaml.org,2002:null".toList

/-- The tag of integers. -/
def integerTag : Tag := octetsOf "tag:yaml.org,2002:int".toList

/-- The name behind the exclamation mark of a local tag. -/
def localName? : Tag → Option String
  | mark :: rest =>
    if mark = '!'.toNat.toUInt8 then
      Text.Utf8.decode? (if rest.isEmpty then [mark] else rest)
    else none
  | [] => none

namespace Node

/-- Whether a value is set. A scalar without quotes is not when it is empty or means the
null value; a tag says that it is set, unless it is the tag of the null value. -/
def isSet : Node → Attempt Bool
  | .scalar none .plain text => .ok (!text.isEmpty && !isNull text)
  | .scalar (some tag) .plain text =>
    if tag = nullTag then
      if isNull text then .ok false else .error (.wrongKind "null")
    else .ok true
  | _ => .ok true

/-- The text of a scalar. -/
def text : Node → Attempt String
  | .scalar _ _ text => .ok text
  | _ => .error (.wrongKind "a string")

/-- Whether a scalar is empty or means the null value, without regard to its tag. -/
def isVoid : Node → Bool
  | .scalar _ .plain text => text.isEmpty || isNull text
  | _ => false

/-- The tag a node is written with. -/
def tag? : Node → Option Tag
  | .scalar tag _ _ | .sequence tag _ | .mapping tag _ => tag
  | .alias _ => none

/-- The name of a possible value, given either by the text of a scalar or by its tag. -/
def choice (value : Node) : Attempt String :=
  match value.tag?.bind localName? with
  | some name => if value.isVoid then .ok name else .error (.wrongKind "a unit")
  | none => value.text

/-- The number that a scalar gives, which fits into 64 bits. -/
def natural (value : Node) : Attempt Nat :=
  let decode (text : String) : Attempt Nat :=
    match natural? text.toList with
    | some number =>
      if number < UInt64.size then .ok number else .error (.wrongKind "a smaller number")
    | none => .error (.wrongKind "a number")
  match value with
  | .scalar _ .plain text => decode text
  | .scalar tag .literal text =>
    if tag = some integerTag then decode text else .error (.wrongKind "a number")
  | _ => .error (.wrongKind "a number")

end Node

namespace Document

/-- The texts of a list. An empty scalar without quotes is an empty list. -/
def texts (document : Document) : Node → Attempt (List String)
  | .sequence _ items => items.mapM fun item => (document.resolve item).text
  | .scalar _ .plain "" => .ok []
  | _ => .error (.wrongKind "a sequence")

/-- What a node of a document is taken for. -/
def value (document : Document) (node : Node) : Value where
  isSet := (document.resolve node).isSet
  text := (document.resolve node).text
  natural := (document.resolve node).natural
  texts := document.texts (document.resolve node)
  choice := (document.resolve node).choice

/-- The fields of a document. Without a node, or with the null value, it has none to read. -/
def fields (document : Document) : Attempt (Option (List (Value × Value))) :=
  match document.root.map document.resolve with
  | none => .ok none
  | some root => do
    if !(← root.isSet) then return none
    else
      match root with
      | .mapping _ fields =>
        return some (fields.map fun (key, value) => (document.value key, document.value value))
      | .scalar _ .plain "" => return some []
      | _ => .error (.wrongKind "a mapping")

end Document

/-- The node that a content is written as. -/
def Content.node : Content → Node
  | .text written => .ofText written
  | .natural number => .ofNat number
  | .texts items => .sequence none (items.map .ofText)
  | .choice name => .ofText name

/-- The library that prints fields as a block and reads any document. -/
def library : Library where
  write fields := .ok (printFields (fields.map fun (name, content) => (name, content.node)))
  read text := do (← Document.ofText text).fields

end ExtensionLoader.Yaml
