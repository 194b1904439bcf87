import ExtensionLoader.Fault

/-! # File systems

What the program asks of the system that keeps its files. The program reads and writes
whole files, makes directories, and looks at what stands where.
-/

namespace ExtensionLoader

/-- The contents of a file. -/
abbrev Bytes := List UInt8

/-- What stands at the end of a path. -/
inductive FileKind
  | file
  | directory
  | other
deriving DecidableEq

/-- What is known about the end of a path, behind all links. -/
structure FileInfo where
  kind : FileKind
  /-- Whether the last name of the path is a link. -/
  isLink : Bool
  /-- The path without links and detours, the same for all paths to one place. -/
  place : Path
deriving DecidableEq

/-- The operations of a file system. -/
structure FileSystem (m : Type → Type) where
  read : Path → m (Except FileFault Bytes)
  /-- Give a file new contents; make it if it is not there. -/
  write : Path → Bytes → m (Except FileFault Unit)
  makeDirectory : Path → m (Except FileFault Unit)
  /-- What stands at the end of a path, if anything does. -/
  inspect : Path → m (Option FileInfo)
  /-- The names inside a directory, in byte order; none if they cannot be listed. -/
  names : Path → m (List String)

namespace FileSystem

variable {m : Type → Type} [Monad m]

/-- Whether something is at the path. -/
def present (files : FileSystem m) (path : Path) : m Bool := do
  return (← files.inspect path).isSome

/-- Whether the end of a path is of a kind. -/
def isKind (files : FileSystem m) (kind : FileKind) (path : Path) : m Bool := do
  return (← files.inspect path).any fun info => info.kind = kind

/-- Make a directory, unless one is there already. -/
def ensureDirectory (files : FileSystem m) (path : Path) : m (Except FileFault Unit) := do
  match ← files.makeDirectory path with
  | .ok () => return .ok ()
  | .error fault => if ← files.isKind .directory path then return .ok () else return .error fault

/-- Make a directory and those that it stands in, `steps` of them at most. A missing
directory is made only when the directory itself cannot be made without it. -/
def makeDirectoriesWithin (files : FileSystem m) :
    (steps : Nat) → Path → m (Except FileFault Unit)
  | 0, _ => return .ok ()
  | steps + 1, path => do
    if path.isEmpty then return .ok ()
    else
      match ← files.makeDirectory path, path.parent with
      | .ok (), _ => return .ok ()
      | .error .notFound, some parent =>
        match ← makeDirectoriesWithin files steps parent with
        | .ok () => files.ensureDirectory path
        | .error fault => return .error fault
      | .error fault, _ =>
        if ← files.isKind .directory path then return .ok () else return .error fault

/-- Make a directory and those that it stands in. -/
def makeDirectories (files : FileSystem m) (path : Path) : m (Except FileFault Unit) :=
  files.makeDirectoriesWithin (path.components.length + 1) path

/-- How deep a directory can stand: each name takes two bytes of a path at least, and a
path has fewer than 4096. -/
def greatestDepth : Nat := 2048

/-- The files below a path in byte order of their names, level by level. Links are
followed, but not to a directory that the path leads through. -/
def filesWithin (files : FileSystem m) :
    (depth : Nat) → (above : List Path) → Path → m (List Path)
  | 0, _, _ => return []
  | depth + 1, above, path => do
    match ← files.inspect path with
    | none => return []
    | some info =>
      match info.kind with
      | .file => return [path]
      | .other => return []
      | .directory =>
        if info.isLink && above.contains info.place then return []
        else
          let below ← (← files.names path).mapM fun name =>
            filesWithin files depth (info.place :: above) (path.join name)
          return below.flatten

/-- The files below a path. -/
def filesBelow (files : FileSystem m) (path : Path) : m (List Path) :=
  files.filesWithin greatestDepth [] path

end FileSystem

end ExtensionLoader
