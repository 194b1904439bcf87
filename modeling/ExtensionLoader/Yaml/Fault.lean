/-! # Faults of YAML text

Reading YAML can fail at each of its steps: at the characters, at the tokens, at the
order of the tokens, and at what the nodes are taken for. A library may have reasons of
its own, to write nothing as well.
-/

namespace ExtensionLoader.Yaml

/-- Why a text cannot be read or written. -/
inductive Fault
  /-- A character that no YAML text may hold. -/
  | forbiddenCharacter
  /-- No token starts or goes on here. -/
  | badToken (line column : Nat)
  /-- A token stands where none of its kind may stand. -/
  | badOrder
  /-- An alias names no anchor before it. -/
  | unknownAlias (name : String)
  | severalDocuments
  /-- A node is not of the kind that is wanted. -/
  | wrongKind (wanted : String)
  | repeatedField (name : String)
  /-- Any other reason, in the words of a library. -/
  | refused (reason : String)
deriving DecidableEq

/-- What is printed for a fault. -/
def Fault.message : Fault → String
  | forbiddenCharacter => "control characters are not allowed"
  | badToken line column => s!"unexpected character at line {line + 1} column {column + 1}"
  | badOrder => "unexpected token"
  | unknownAlias name => s!"unknown anchor {name}"
  | severalDocuments => "more than one document"
  | wrongKind wanted => s!"expected {wanted}"
  | repeatedField name => s!"duplicate field {name}"
  | refused reason => reason

end ExtensionLoader.Yaml
