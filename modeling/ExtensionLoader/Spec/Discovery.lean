import ExtensionLoader.Spec.Role
import ExtensionLoader.Storage.FileSystem

/-! # Finding the inputs of a project

A directory is searched for files that may be inputs of a run. They are kept in the order
in which they are found.
-/

namespace ExtensionLoader

/-- The files that may be inputs, each with its role. -/
structure Discovery where
  files : List (Input × Path)

namespace Discovery

/-- The files among some that may be inputs. -/
def ofPaths (paths : List Path) : Discovery where
  files := paths.filterMap fun path => (Input.ofPath? path).map fun role => (role, path)

/-- The files that may be one of the inputs. -/
def filesFor (discovery : Discovery) (role : Input) : List Path :=
  discovery.files.filterMap fun (found, path) => if found = role then some path else none

/-- How many files may be inputs. -/
def size (discovery : Discovery) : Nat := discovery.files.length

/-- Search a directory and all below it. -/
def scan {m : Type → Type} [Monad m] (files : FileSystem m) (directory : Path) : m Discovery := do
  return ofPaths (← files.filesBelow directory)

end Discovery

end ExtensionLoader
