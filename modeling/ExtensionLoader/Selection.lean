import ExtensionLoader.Fault
import ExtensionLoader.Scope
import ExtensionLoader.Text.Blank
import ExtensionLoader.Text.Lines

/-! # Selecting APIs

A run covers every API in one set of files, or some APIs with a set of files for each.
Names are given in a list with commas, or line by line in a resource that the argument
names behind an `@`.
-/

namespace ExtensionLoader

/-- The APIs that a run covers. -/
inductive Selection
  /-- Every API, in one set of files. -/
  | all
  /-- These APIs, each in a set of files of its own, in this order. -/
  | only (names : List String)
deriving DecidableEq

namespace Selection

/-- The selection of the names that are not blank, without the blanks around them.
Without any such name, every API is selected. -/
def ofNames (names : List (List Char)) : Selection :=
  match (names.map Text.trim).filter fun name => !name.isEmpty with
  | [] => all
  | named => only (named.map String.ofList)

/-- The name on a line of a resource: the line up to its first `#`. -/
def lineName (line : List Char) : List Char := Text.trim (line.takeWhile (· ≠ '#'))

/-- The selection that the lines of a resource give. -/
def ofResource (text : String) : Selection := ofNames ((Text.lines text).map lineName)

/-- The resource that an argument names. -/
def resource? (argument : String) : Option String :=
  match argument.toList with
  | '@' :: name => some (String.ofList name)
  | _ => none

/-- The selection that a list with commas gives. -/
def ofList (argument : String) : Selection :=
  ofNames (Text.pieces (· == ',') argument.toList)

/-- The selection that an argument gives, with a way to read resources. -/
def parse {m : Type → Type} [Monad m] (read : String → m (Except Fault String))
    (argument : String) : m (Except Fault Selection) :=
  match resource? argument with
  | some name => do
    match ← read name with
    | .ok text => pure (.ok (ofResource text))
    | .error fault => pure (.error fault)
  | none => pure (.ok (ofList argument))

/-- The scopes that a run covers, in order. -/
def scopes : Selection → List Scope
  | all => [.all]
  | only names => names.map Scope.api

end Selection

end ExtensionLoader
