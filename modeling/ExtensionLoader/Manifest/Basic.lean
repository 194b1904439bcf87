import ExtensionLoader.Path
import ExtensionLoader.Text.Lines

/-! # Manifests

A manifest holds the settings of a project: its three inputs, the APIs to generate,
where the sources go and how they are written. A setting that is not given has a
default.
-/

namespace ExtensionLoader

/-- The settings that a project gives. -/
structure Manifest where
  enumSpec : Option Path := none
  functionSpec : Option Path := none
  typeMap : Option Path := none
  /-- The APIs to generate; every API in one set of files if there are none. -/
  apis : List String := []
  output : Path := "generated"
  lineEnding : LineEnding := .lf
  /-- The width from which on a line is worth a warning. -/
  maxLineWidth : Option Nat := none
deriving DecidableEq, Inhabited

/-- The manifest with its relative paths rebased onto a directory. -/
def Manifest.relativeTo (manifest : Manifest) (directory : Path) : Manifest :=
  { manifest with
    enumSpec := manifest.enumSpec.map (Path.rebase directory)
    functionSpec := manifest.functionSpec.map (Path.rebase directory)
    typeMap := manifest.typeMap.map (Path.rebase directory)
    output := Path.rebase directory manifest.output }

end ExtensionLoader
