import ExtensionLoader.Path
import ExtensionLoader.Yaml.Fault

/-! # Faults

What can stop a command or a part of it, each kind with its cause. `Fault.message` and
`Fault.help` are the texts that a user sees.
-/

namespace ExtensionLoader

/-- What the file system answers when it refuses something. -/
inductive FileFault
  | notFound
  | notDirectory
  | isDirectory
  | alreadyExists
  | tooManyLinks
  | nameTooLong
  | permissionDenied
  /-- The path holds a NUL character. -/
  | nulInPath
  | notText
  | noResource
  /-- Any other refusal by the system. -/
  | system (code : Nat)
deriving DecidableEq

/-- The text of the operating system for the answer. -/
def FileFault.message : FileFault → String
  | notFound => "No such file or directory (os error 2)"
  | notDirectory => "Not a directory (os error 20)"
  | isDirectory => "Is a directory (os error 21)"
  | alreadyExists => "File exists (os error 17)"
  | tooManyLinks => "Too many levels of symbolic links (os error 40)"
  | nameTooLong => "File name too long (os error 36)"
  | permissionDenied => "Permission denied (os error 13)"
  | nulInPath => "file name contained an unexpected NUL byte"
  | notText => "stream did not contain valid UTF-8"
  | noResource => "no such resource"
  | system code => s!"Input/output error (os error {code})"

/-- The three files that a run needs. -/
inductive Input
  | enumSpec
  | functionSpec
  | typeMap
deriving DecidableEq

/-- The manifest's field for an input. -/
def Input.field : Input → String
  | enumSpec => "enum_spec"
  | functionSpec => "func_spec"
  | typeMap => "type_map"

/-- The command line's option for an input, without its dashes. -/
def Input.option : Input → String
  | enumSpec => "enum-spec"
  | functionSpec => "func-spec"
  | typeMap => "type-map"

/-- What messages call an input. -/
def Input.words : Input → String
  | enumSpec => "enum spec"
  | functionSpec => "func spec"
  | typeMap => "type map"

/-- The file that holds the settings of a project. -/
def manifestFile : String := "glex.yaml"

/-- Why a command, or one scope of a run, did not come to its end. -/
inductive Fault
  | unreadableResource (name : String) (cause : FileFault)
  /-- A memory store refuses to store a text. -/
  | deniedWrite (name : String)
  | unwritableArtifact (path : Path) (cause : FileFault)
  | unusableOutput (directory : Path) (cause : FileFault)
  | unreadableManifest (path : Path) (cause : FileFault)
  | unwritableManifest (path : Path) (cause : FileFault)
  | invalidManifest (cause : Yaml.Fault)
  /-- There is no text for the settings. -/
  | unwrittenManifest (cause : Yaml.Fault)
  | missingInput (input : Input)
  | manifestExists
  /-- Some scopes of a run failed; `first` is the fault of the first of them. -/
  | failedScopes (scopes : List String) (first : Fault)
deriving DecidableEq

namespace Fault

/-- The parts of the program a fault is reported under. -/
inductive Area
  | file
  | resource
  | settings
  | build
deriving DecidableEq

/-- The part of the program a fault belongs to. -/
def area : Fault → Area
  | unreadableResource _ _ => .resource
  | deniedWrite _ | unwritableArtifact _ _ | unusableOutput _ _ | unreadableManifest _ _
  | unwritableManifest _ _ => .file
  | invalidManifest _ | unwrittenManifest _ | missingInput _ => .settings
  | manifestExists | failedScopes _ _ => .build

/-- The code printed with the faults of a part. -/
def Area.code : Area → String
  | file => "glex::io"
  | resource => "glex::resource"
  | settings => "glex::config"
  | build => "glex::build"

/-- What is printed for a fault: what was attempted, on which file, and what came back. -/
def message : Fault → String
  | unreadableResource name cause => s!"Unable to read \"{name}\": {cause.message}"
  | deniedWrite name => s!"IO error with {name}: write denied"
  | unwritableArtifact path cause => s!"IO error with {path}: Failed to write: {cause.message}"
  | unusableOutput directory cause =>
    s!"IO error with {directory}: Failed to create output directory: {cause.message}"
  | unreadableManifest path cause =>
    s!"IO error with {path}: Failed to read manifest: {cause.message}"
  | unwritableManifest path cause =>
    s!"IO error with {path}: Failed to write manifest: {cause.message}"
  | invalidManifest cause => s!"Configuration error: Invalid manifest: {cause.message}"
  | unwrittenManifest cause =>
    s!"Configuration error: Unable to serialize manifest: {cause.message}"
  | missingInput input => s!"Configuration error: no {input.field} given"
  | manifestExists => s!"Build error: {manifestFile} already exists"
  | failedScopes scopes _ =>
    "Build error: unable to write output for " ++ String.intercalate ", " scopes

/-- The advice printed below a fault, where there is any. -/
def help : Fault → Option String
  | invalidManifest _ => some s!"Check {manifestFile} syntax"
  | missingInput input => some s!"Set `{input.field}` in {manifestFile} or pass --{input.option}"
  | manifestExists => some "Use --force to overwrite"
  | failedScopes _ first => some first.message
  | _ => none

end Fault

end ExtensionLoader
