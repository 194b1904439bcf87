import ExtensionLoader.Command.Terminal
import ExtensionLoader.Manifest.Printer
import ExtensionLoader.Spec.Discovery
import ExtensionLoader.Text.Utf8

/-! # The command that starts a project

A directory is searched for files that may be inputs. The first one for each input is
written into a new manifest.
-/

namespace ExtensionLoader.Command

/-- A path as it is seen from a directory that it stands in. -/
def seenFrom (directory path : Path) : Path := (Path.behind? directory path).getD path

/-- The file for an input, as it is seen from the directory. -/
def chosen? (discovery : Discovery) (directory : Path) (role : Input) : Option Path :=
  (discovery.filesFor role).head?.map (seenFrom directory)

/-- The lines about the choice of a file for an input. -/
def choiceLines (discovery : Discovery) (directory : Path) (role : Input) : List String :=
  match discovery.filesFor role with
  | [] => [Terminal.statusLine "Missing" s!"no {role.words} found"]
  | first :: others =>
    others.map (fun path =>
      Terminal.statusLine "Ignoring" s!"{seenFrom directory path} (another {role.words})") ++
    [Terminal.statusLine "Discovered" s!"{role.words} {seenFrom directory first}"]

/-- The manifest for the files that were found in a directory. -/
def discoveredManifest (discovery : Discovery) (directory : Path) : Manifest where
  enumSpec := chosen? discovery directory .enumSpec
  functionSpec := chosen? discovery directory .functionSpec
  typeMap := chosen? discovery directory .typeMap

variable {m : Type → Type} [Monad m]

/-- Write the manifest of a fresh project into `directory`. -/
def writeManifest (terminal : Terminal m) (directory : Path) : m (Except Fault Unit) := do
  terminal.status "Scanning" (Path.shownFrom (← terminal.home) directory)
  let discovery ← Discovery.scan terminal.files directory
  terminal.notes
    ([Input.enumSpec, .functionSpec, .typeMap].flatMap (choiceLines discovery directory))
  let path := directory.join manifestFile
  match (discoveredManifest discovery directory).toText terminal.yaml with
  | .error fault => return .error fault
  | .ok text =>
    match ← terminal.files.write path (Text.Utf8.encode text) with
    | .error cause => return .error (.unwritableManifest path cause)
    | .ok () =>
      terminal.status "Created"
        (manifestFile ++ " (" ++ Text.counted discovery.size "spec file" "spec files" ++
          " found)")
      return .ok ()

/-- Start a project in a directory. A manifest that is there already is kept, unless
`force` is given. -/
def init (terminal : Terminal m) (directory : Path) (force : Bool) : m (Except Fault Unit) := do
  if !force && (← terminal.files.present (directory.join manifestFile)) then
    return .error .manifestExists
  else writeManifest terminal directory

end ExtensionLoader.Command
