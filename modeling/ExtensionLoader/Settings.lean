import ExtensionLoader.Manifest.Basic
import ExtensionLoader.Selection

/-! # Settings of a run

A run needs all three inputs. Its settings come from a manifest, and options of the
command line replace them.
-/

namespace ExtensionLoader

/-- Where the three inputs are read from. -/
structure Sources where
  enumSpec : String
  functionSpec : String
  typeMap : String
deriving DecidableEq

/-- What a run needs to know: its inputs, the selection of APIs, where it writes and how it ends
lines. -/
structure Settings where
  sources : Sources
  apis : Selection
  output : Path
  lineEnding : LineEnding
  maxLineWidth : Option Nat
deriving DecidableEq

/-- The settings that a manifest gives, unless it lacks an input. -/
def Settings.ofManifest (manifest : Manifest) : Except Fault Settings :=
  match manifest.enumSpec, manifest.functionSpec, manifest.typeMap with
  | none, _, _ => .error (.missingInput .enumSpec)
  | _, none, _ => .error (.missingInput .functionSpec)
  | _, _, none => .error (.missingInput .typeMap)
  | some enumSpec, some functionSpec, some typeMap =>
    .ok {
      sources := ⟨enumSpec, functionSpec, typeMap⟩
      apis := Selection.ofNames (manifest.apis.map String.toList)
      output := manifest.output
      lineEnding := manifest.lineEnding
      maxLineWidth := manifest.maxLineWidth }

end ExtensionLoader
