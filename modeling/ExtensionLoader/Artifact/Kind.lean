/-! # Generated files

A generated file has a kind, a name and a text. Texts are put together from lines.
-/

namespace ExtensionLoader

/-- What a generated file holds. -/
inductive ArtifactKind
  | functionTable
  | header
  | initCode
  | globals
deriving DecidableEq

/-- What reports call a file of the kind. -/
def ArtifactKind.words : ArtifactKind → String
  | functionTable => "function table"
  | header => "header"
  | initCode => "init code"
  | globals => "globals header"

/-- A generated file that is not stored yet. -/
structure Artifact where
  kind : ArtifactKind
  fileName : String
  contents : String
deriving DecidableEq

/-- A text of lines, each with a line feed behind it. -/
def Artifact.text (lines : List String) : String := String.join (lines.map fun line => line ++ "\n")

end ExtensionLoader
