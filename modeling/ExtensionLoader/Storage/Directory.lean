import ExtensionLoader.Storage.FileSystem
import ExtensionLoader.Text.Lines
import ExtensionLoader.Text.Utf8
import ExtensionLoader.Workspace

/-! # Workspaces of files

A workspace on a file system: inputs are read from one directory, and generated files are
stored in another one, which is made when the first of them is stored. Inputs may hold
bytes that are no text; they do not stop a run.
-/

namespace ExtensionLoader

/-- The directories that resources are read from and artifacts are written to. -/
structure Directories where
  /-- Where inputs with a relative name are. -/
  inputs : Path := "."
  /-- Where generated files are stored. -/
  output : Path := ""
  lineEnding : LineEnding := .lf

namespace Directories

variable {m : Type → Type} [Monad m]

/-- Read a resource as text; bytes that are not UTF-8 are replaced. -/
def read (directories : Directories) (files : FileSystem m) (name : String) :
    m (Except Fault String) := do
  match ← files.read (Path.rebase directories.inputs name) with
  | .ok bytes => return .ok (Text.Utf8.decodeLossy bytes)
  | .error cause => return .error (.unreadableResource name cause)

/-- Make the output directory, unless something of its name is there. -/
def prepareOutput (directories : Directories) (files : FileSystem m) :
    m (Except Fault Unit) := do
  if ← files.present directories.output then return .ok ()
  else
    match ← files.makeDirectories directories.output with
    | .ok () => return .ok ()
    | .error cause => return .error (.unusableOutput directories.output cause)

/-- Where an artifact goes. -/
def artifactPath (directories : Directories) (name : String) : Path :=
  directories.output.join name

/-- Write an artifact, once its directory is there. -/
def write (directories : Directories) (files : FileSystem m) (name contents : String) :
    m (Except Fault Unit) := do
  match ← directories.prepareOutput files with
  | .error fault => return .error fault
  | .ok () =>
    let path := directories.artifactPath name
    match ← files.write path (Text.Utf8.encode (directories.lineEnding.apply contents)) with
    | .ok () => return .ok ()
    | .error cause => return .error (.unwritableArtifact path cause)

/-- The workspace of some directories, with a listener. -/
def workspace (directories : Directories) (files : FileSystem m) (say : LogMessage → m Unit) :
    Workspace m where
  read := directories.read files
  present name := files.present (directories.artifactPath name)
  write := directories.write files
  say := say

end Directories

end ExtensionLoader
