import ExtensionLoader.Text.Blank

/-! # Paths

A path is its text. Its components are what it says: the root, a leading `.`, every
`..` and every name; empty parts and other `.` parts say nothing. Joining keeps the
text of both paths; taking the parent or the rest behind a base keeps the text between
the components that are left.
-/

namespace ExtensionLoader

/-- A path of the file system, as the text it is written with. -/
abbrev Path := String

namespace Path

/-- One thing that a path says. -/
inductive Component
  | root
  | here
  | up
  | name (text : String)
deriving DecidableEq

/-- Whether a path starts at the root. -/
def isAbsolute (path : Path) : Bool := path.toList.head? == some '/'

/-- The path `child`, seen from `base`. -/
def join (base child : Path) : Path :=
  if isAbsolute child || base.isEmpty then child
  else if base.toList.getLast? = some '/' then base ++ child
  else base ++ "/" ++ child

/-- The component that a part stands for when it is not the first part of its path. -/
def innerComponent? (part : List Char) : Option Component :=
  if part = [] ∨ part = ['.'] then none
  else if part = ['.', '.'] then some .up
  else some (.name (String.ofList part))

/-- The component that the first part of a path stands for: an empty one before a
slash is the root. -/
def firstComponent? (part : List Char) (alone : Bool) : Option Component :=
  if part = [] then if alone then none else some .root
  else if part = ['.'] then some .here
  else innerComponent? part

/-- The parts of a path between its slashes, each with the component it stands for. -/
def parts (path : Path) : List (List Char × Option Component) :=
  match Text.pieces (· == '/') path.toList with
  | [] => []
  | first :: rest =>
    (first, firstComponent? first rest.isEmpty) ::
      rest.map fun part => (part, innerComponent? part)

/-- The components of a path, in order. -/
def components (path : Path) : List Component := path.parts.filterMap Prod.snd

/-- The last component of a path, when it is a name. -/
def fileName (path : Path) : Option String :=
  match path.components.getLast? with
  | some (.name text) => some text
  | _ => none

/-- Parts up to the last one that says something. -/
def dropSilentEnd (parts : List (List Char × Option Component)) :
    List (List Char × Option Component) :=
  (parts.reverse.dropWhile fun part => part.2.isNone).reverse

/-- The text of some parts. The root alone is a slash. -/
def textOf : List (List Char × Option Component) → Path
  | [(_, some .root)] => "/"
  | parts => String.ofList (['/'].intercalate (parts.map Prod.fst))

/-- The path without its last component; none for the root and for the empty path. -/
def parent (path : Path) : Option Path :=
  match (dropSilentEnd path.parts).reverse with
  | [] => none
  | (_, some .root) :: _ => none
  | _ :: before => some (textOf (dropSilentEnd before.reverse))

/-- Parts behind the first `count` of those that say something. -/
def dropComponents : Nat → List (List Char × Option Component) →
    List (List Char × Option Component)
  | 0, parts => parts
  | _ + 1, [] => []
  | count + 1, (_, none) :: rest => dropComponents (count + 1) rest
  | count + 1, (_, some _) :: rest => dropComponents count rest

/-- The rest of a path behind a base that it starts with, component by component. -/
def behind? (base path : Path) : Option Path :=
  if base.components.isPrefixOf path.components then
    let rest := dropComponents base.components.length path.parts
    some (textOf (dropSilentEnd (rest.dropWhile fun part => part.2.isNone)))
  else none

/-- The path as it is shown to a user who works in the directory `home`. -/
def shownFrom (home path : Path) : String :=
  match behind? home path with
  | some "" => "."
  | some rest => rest
  | none => path

/-- A relative path rebased onto a directory; an absolute path as it is. -/
def rebase (directory path : Path) : Path :=
  if isAbsolute path then path else join directory path

end Path

end ExtensionLoader
