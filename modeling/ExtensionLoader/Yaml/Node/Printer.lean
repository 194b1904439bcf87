import ExtensionLoader.Yaml.Node
import ExtensionLoader.Yaml.Scalar.Written

/-! # Printing a mapping

A mapping of names to texts and lists of texts is printed with a field on each line, in
order. The items of a list stand on lines of their own behind hyphens.
-/

namespace ExtensionLoader.Yaml

/-- The scalar that is read back as a text. -/
def Node.ofText (text : String) : Node := .scalar none (styleFor text) text

/-- The scalar that is read back as a number. -/
def Node.ofNat (value : Nat) : Node := .scalar none .plain (toString value)

/-- The rest of a line behind a mark: a scalar, and the line break behind it. -/
def printScalar (style : ScalarStyle) (text : String) : List Char :=
  let body := written style text
  ' ' :: body ++ if body.getLast?.any isAnyBreak then [] else ['\n']

/-- Print an item of a list. Only scalars are printed. -/
def printItem : Node → List Char
  | .scalar _ style text => '-' :: printScalar style text
  | _ => []

/-- Print what stands behind a key: a scalar in the same line, or a list below it. -/
def printValue : Node → List Char
  | .scalar _ style text => ':' :: printScalar style text
  | .sequence _ [] => ": []\n".toList
  | .sequence _ items => [':', '\n'] ++ items.flatMap printItem
  | _ => [':', '\n']

/-- Print fields, each with a name and a value that is a scalar or a list of scalars. -/
def printFields (fields : List (String × Node)) : String :=
  String.ofList (fields.flatMap fun (name, value) => name.toList ++ printValue value)

end ExtensionLoader.Yaml
