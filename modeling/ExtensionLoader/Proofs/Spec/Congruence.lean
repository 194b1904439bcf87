import ExtensionLoader.Enumerant.Spec
import ExtensionLoader.Function.Spec

/-! # What the readers see of a text

The readers of all three grammars see nothing of a text but its cleaned lines, and the reader of
function specs sees its dialect besides. Warnings about wide lines only depend on the lines.
-/

namespace ExtensionLoader

variable {text other : String}

namespace Spec

theorem cleanedLines_congr (same : Text.lines text = Text.lines other) :
    cleanedLines text = cleanedLines other := by
  rw [cleanedLines, cleanedLines, same]

/-- Texts with the same lines have the same warnings. -/
theorem widthWarnings_congr (same : Text.lines text = Text.lines other) (resource : String)
    (limit : Nat) : widthWarnings resource text limit = widthWarnings resource other limit := by
  rw [widthWarnings, widthWarnings, same]

end Spec

/-- Texts with the same cleaned lines are the same enum spec. -/
theorem EnumTable.parse_congr (same : Spec.cleanedLines text = Spec.cleanedLines other) :
    parse text = parse other := by
  rw [parse, parse, same]

/-- Texts with the same cleaned lines are the same type map. -/
theorem TypeMap.parse_congr (same : Spec.cleanedLines text = Spec.cleanedLines other) :
    parse text = parse other := by
  rw [parse, parse, same]

namespace FunctionTable

/-- Texts with the same lines have the same dialect. -/
theorem dialectOf_congr (same : Text.lines text = Text.lines other) :
    dialectOf text = dialectOf other := by
  rw [dialectOf, dialectOf, same]

/-- Texts with the same cleaned lines and dialect are the same function spec. -/
theorem parse_congr (same : Spec.cleanedLines text = Spec.cleanedLines other)
    (dialect : dialectOf text = dialectOf other) (types : TypeMap) :
    parse text types = parse other types := by
  rw [parse, parse, blocks, blocks, same, dialect]

/-- Where no line carries anything, no function is declared, in whatever dialect. -/
theorem parse_of_nothing (nothing : Spec.cleanedLines text = []) (types : TypeMap) :
    parse text types = .empty := by
  rw [parse, blocks, nothing]
  rfl

end FunctionTable

end ExtensionLoader
