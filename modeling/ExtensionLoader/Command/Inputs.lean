import ExtensionLoader.Command.Invocation
import ExtensionLoader.Command.Terminal
import ExtensionLoader.Manifest.Storage
import ExtensionLoader.Settings

/-! # The settings of a command

Settings come from a manifest, and options replace them. Paths in a manifest that was
named are relative to its directory, and paths in options to the working directory.
-/

namespace ExtensionLoader.Command

/-- A manifest with some of its settings replaced. -/
def InputOptions.override (options : InputOptions) (manifest : Manifest) : Manifest :=
  { manifest with
    enumSpec := options.enumSpec.orElse fun _ => manifest.enumSpec
    functionSpec := options.functionSpec.orElse fun _ => manifest.functionSpec
    typeMap := options.typeMap.orElse fun _ => manifest.typeMap
    maxLineWidth := options.maxLineWidth.orElse fun _ => manifest.maxLineWidth }

variable {m : Type → Type} [Monad m]

/-- The manifest that a command starts from. -/
def InputOptions.baseManifest (options : InputOptions) (terminal : Terminal m) :
    m (Except Fault Manifest) := do
  match options.manifest with
  | none => Manifest.find terminal.yaml terminal.files "."
  | some path =>
    return (← Manifest.load terminal.yaml terminal.files path).map fun manifest =>
      manifest.relativeTo (path.parent.getD "")

/-- The settings of a command with some options. -/
def InputOptions.settings (options : InputOptions) (terminal : Terminal m) :
    m (Except Fault Settings) := do
  match ← options.baseManifest terminal with
  | .error fault => return .error fault
  | .ok manifest => return Settings.ofManifest (options.override manifest)

end ExtensionLoader.Command
