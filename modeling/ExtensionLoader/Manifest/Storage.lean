import ExtensionLoader.Manifest.Reader
import ExtensionLoader.Storage.FileSystem
import ExtensionLoader.Text.Utf8

/-! # Stored manifests

A manifest is kept in a file. The file must be text as a whole. A project without such a
file has the default settings.
-/

namespace ExtensionLoader.Manifest

variable {m : Type → Type} [Monad m]

/-- The manifest in the bytes of a file. -/
def ofBytes (library : Yaml.Library) (path : Path) (bytes : Bytes) : Except Fault Manifest :=
  match Text.Utf8.decode? bytes with
  | none => .error (.unreadableManifest path .notText)
  | some text => parse library text

/-- Read the manifest in a file. -/
def load (library : Yaml.Library) (files : FileSystem m) (path : Path) :
    m (Except Fault Manifest) := do
  match ← files.read path with
  | .ok bytes => return ofBytes library path bytes
  | .error cause => return .error (.unreadableManifest path cause)

/-- Read the manifest of a directory, if it has one. -/
def find (library : Yaml.Library) (files : FileSystem m) (directory : Path) :
    m (Except Fault Manifest) := do
  let path := directory.join manifestFile
  if ← files.isKind .file path then load library files path else return .ok {}

end ExtensionLoader.Manifest
