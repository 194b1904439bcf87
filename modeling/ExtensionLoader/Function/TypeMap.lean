import ExtensionLoader.OrderedMap
import ExtensionLoader.Spec.Line

/-! # The type map

Function specs name types of their own; the type map gives the C type for each of
them. A row has comma-separated fields, the first the spec type and the fourth the C
type. Short rows and rows whose C type is a wildcard give nothing; of several rows
for a type the last one counts; `void` is always `GLvoid`.
-/

namespace ExtensionLoader

/-- The C type of each spec type. -/
abbrev TypeMap := OrderedMap String String

namespace TypeMap

/-- The C type of a spec type, or the type itself if the map has none. -/
def translate (types : TypeMap) (type : String) : String := (types.get? type).getD type

/-- The fields of a row: the line without spaces and tabs, cut at its commas. -/
def fields (line : List Char) : List (List Char) :=
  Text.pieces (· == ',') (line.filter fun c => c ≠ ' ' ∧ c ≠ '\t')

/-- The spec type and the C type that a row gives. -/
def row? (line : List Char) : Option (String × String) :=
  match fields line with
  | source :: _ :: _ :: target :: _ =>
    if source.isEmpty ∨ target.isEmpty ∨ target = ['*'] then none
    else some (String.ofList source, String.ofList target)
  | _ => none

/-- The type map of a text, the last row of a type deciding. -/
def parse (source : String) : TypeMap :=
  (OrderedMap.ofList ((Spec.cleanedLines source).filterMap row?)).insert "void" "GLvoid"

/-- What the reader says about a text: which rows are too short. -/
def remarks (source : String) : List LogMessage :=
  (Spec.cleanedLines source).filterMap fun line =>
    if (fields line).length < 4 then
      some (.trace s!"Skipping type map row: {String.ofList line}")
    else none

end TypeMap

end ExtensionLoader
