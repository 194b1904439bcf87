import ExtensionLoader.OrderedMap
import ExtensionLoader.Storage.FileSystem

/-! # File trees

A file system in memory: directories, files and links below one root. A path is followed
name by name. A link on the way is replaced by its target, and at most forty of them.
-/

namespace ExtensionLoader

/-- What stands at a place of a file tree. -/
inductive FileEntry
  | file (contents : Bytes)
  | directory
  | link (target : Path)
deriving DecidableEq

/-- A place of a file tree: the names on the way from the root. -/
abbrev Location := List String

/-- A tree of files. The root needs no entry. -/
structure FileTree where
  entries : OrderedMap Location FileEntry := .empty
  /-- Where relative paths start. -/
  home : Location := []

/-- What a path is followed for. -/
inductive PathUse
  /-- For what stands at its end. -/
  | reach
  /-- To make a file there, which cannot end with a slash. -/
  | create
  /-- For its last name, whatever has that name. -/
  | name
deriving DecidableEq

/-- Where a path leads. -/
inductive PathEnd
  | present (place : Location) (entry : FileEntry)
  | absent (directory : Location) (name : String)

namespace FileTree

/-- What stands at a place. -/
def entry? (tree : FileTree) (place : Location) : Option FileEntry :=
  if place.isEmpty then some .directory else tree.entries.get? place

/-- The parts of a path between its separators. -/
def pathParts (path : Path) : List String :=
  (Text.pieces (· == '/') path.toList).map String.ofList

/-- The most bytes a name may have. -/
def longestName : Nat := 255

/-- The most bytes a path may have. -/
def longestPath : Nat := 4095

/-- The most links that are followed for one path. -/
def mostLinks : Nat := 40

/-- Follow parts of a path from a place. -/
def follow (tree : FileTree) (use : PathUse) :
    (links : Nat) → Location → List String → Except FileFault PathEnd
  | _, here, [] => .ok (.present here ((tree.entry? here).getD .directory))
  | links, here, part :: rest =>
    if tree.entry? here ≠ some .directory then .error .notDirectory
    else if part = "" ∨ part = "." then tree.follow use links here rest
    else if part = ".." then tree.follow use links here.dropLast rest
    else
      let atEnd := rest.all (· == "")
      if use = .create ∧ atEnd ∧ rest ≠ [] then .error .isDirectory
      else if longestName < part.utf8ByteSize then .error .nameTooLong
      else
        match tree.entry? (here ++ [part]) with
        | none => if atEnd then .ok (.absent here part) else .error .notFound
        | some entry =>
          if use = .name ∧ atEnd then .ok (.present (here ++ [part]) entry)
          else
            match entry, links with
            | .link _, 0 => .error .tooManyLinks
            | .link target, links + 1 =>
              tree.follow use links (if target.isAbsolute then [] else here)
                (pathParts target ++ rest)
            | _, links => tree.follow use links (here ++ [part]) rest
termination_by links _ parts => (links, parts.length)

/-- Whether a path ends with a slash, and so can only be the path of a directory. -/
def endsWithSlash (path : Path) : Bool := path.toList.getLast? == some '/'

/-- Where a path leads. -/
def locate (tree : FileTree) (use : PathUse) (path : Path) : Except FileFault PathEnd :=
  if path.toList.contains '\x00' then .error .nulInPath
  else if path.isEmpty then .error .notFound
  else if longestPath < path.utf8ByteSize then .error .nameTooLong
  else tree.follow use mostLinks (if path.isAbsolute then [] else tree.home) (pathParts path)

/-- The tree with another entry. -/
def put (tree : FileTree) (place : Location) (entry : FileEntry) : FileTree :=
  { tree with entries := tree.entries.insert place entry }

/-- The contents of the file at a path. -/
def read (tree : FileTree) (path : Path) : Except FileFault Bytes := do
  match ← tree.locate .reach path with
  | .present _ (.file contents) => return contents
  | .present _ _ => throw .isDirectory
  | .absent _ _ => throw .notFound

/-- The tree with new contents in a file. -/
def write (tree : FileTree) (path : Path) (contents : Bytes) : Except FileFault FileTree := do
  match ← tree.locate .create path with
  | .present place (.file _) => return tree.put place (.file contents)
  | .present _ _ => throw .isDirectory
  | .absent directory name => return tree.put (directory ++ [name]) (.file contents)

/-- The tree with a new directory, where nothing is. -/
def addDirectory (tree : FileTree) (path : Path) : Except FileFault FileTree := do
  match ← tree.locate .name path with
  | .present _ _ => throw .alreadyExists
  | .absent directory name => return tree.put (directory ++ [name]) .directory

/-- The tree with a new link, where nothing is. The target need not be there, but it must
be a path. -/
def addLink (tree : FileTree) (path target : Path) : Except FileFault FileTree := do
  if target.isEmpty then throw .notFound
  else if target.toList.contains '\x00' then throw .nulInPath
  else if longestPath < target.utf8ByteSize then throw .nameTooLong
  else
    match ← tree.locate .name path with
    | .present _ _ => throw .alreadyExists
    | .absent directory name =>
      if endsWithSlash path then throw .notFound
      else return tree.put (directory ++ [name]) (.link target)

/-- The tree without the file or link at a path. -/
def remove (tree : FileTree) (path : Path) : Except FileFault FileTree := do
  match ← tree.locate .name path with
  | .present _ .directory => throw .isDirectory
  | .present place _ =>
    if endsWithSlash path then throw .notDirectory
    else return { tree with entries := tree.entries.erase place }
  | .absent _ _ => throw .notFound

/-- The absolute path of a place. -/
def pathOf (place : Location) : Path := "/" ++ String.intercalate "/" place

/-- The kind of what is at a place. -/
def kindOf : FileEntry → FileKind
  | .file _ => .file
  | .directory => .directory
  | .link _ => .other

/-- Whether a path is the path of a link. With a slash behind it, it is the path of what
the link leads to. -/
def isLink (tree : FileTree) (path : Path) : Bool :=
  match tree.locate .name path with
  | .ok (.present _ (.link _)) => !endsWithSlash path
  | _ => false

/-- What stands at the end of a path. -/
def inspect (tree : FileTree) (path : Path) : Option FileInfo :=
  match tree.locate .reach path with
  | .ok (.present place entry) => some ⟨kindOf entry, tree.isLink path, pathOf place⟩
  | _ => none

/-- The name of a place within a directory, if it is directly in it. -/
def nameIn (directory place : Location) : Option String :=
  if place.dropLast = directory then place.getLast? else none

/-- The names in the directory at a path. -/
def names (tree : FileTree) (path : Path) : List String :=
  match tree.locate .reach path with
  | .ok (.present place .directory) =>
    (tree.entries.keys.filterMap (nameIn place)).mergeSort fun first second =>
      decide (first ≤ second)
  | _ => []

/-- Change the tree, or leave it as it is where that fails. -/
def attempt (change : FileTree → Except FileFault FileTree) :
    StateM FileTree (Except FileFault Unit) := fun tree =>
  match change tree with
  | .ok changed => (.ok (), changed)
  | .error fault => (.error fault, tree)

/-- A file tree as a file system. -/
def fileSystem : FileSystem (StateM FileTree) where
  read path := do return (← get).read path
  write path contents := attempt fun tree => tree.write path contents
  makeDirectory path := attempt fun tree => tree.addDirectory path
  inspect path := do return (← get).inspect path
  names path := do return (← get).names path

end FileTree

end ExtensionLoader
