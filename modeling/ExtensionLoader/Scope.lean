import ExtensionLoader.Text.UpperCase

/-! # Scopes and their names

Sources are generated for one scope at a time: every API at once, or one API. The
names of the files of a scope, and of what they define, follow from the scope.
-/

namespace ExtensionLoader

/-- The part of the tables that a set of sources covers. -/
inductive Scope
  | all
  | api (name : String)
deriving DecidableEq

namespace Scope

/-- What a scope is called in messages. -/
def words : Scope → String
  | all => "all APIs"
  | api name => name

/-- The API of a scope that has only one. -/
def api? : Scope → Option String
  | all => none
  | api name => some name

/-- The root of every name of a scope, and the name of its flag for success. -/
def root : Scope → String
  | all => "GLEX"
  | api name => "GLEX_" ++ name

/-- The file of the scope's function table. -/
def functionsFile (scope : Scope) : String := scope.root ++ "_funcs.inl"

/-- The file of the scope's header. -/
def headerFile (scope : Scope) : String := scope.root ++ ".h"

/-- The file of the scope's init code. -/
def sourceFile (scope : Scope) : String := scope.root ++ ".c"

/-- The include guard: the name of the header in upper case, its dots as underscores. -/
def guard (scope : Scope) : String :=
  String.ofList
    (Text.upperCase (scope.headerFile.toList.map fun c => if c = '.' then '_' else c))

/-- The macro that takes a scope out on platforms that it is not meant for. -/
def ignoreMacro (scope : Scope) : String :=
  String.ofList (Text.upperCase scope.root.toList) ++ "_IGNORE"

/-- The function that loads the scope's entry points. -/
def initFunction (scope : Scope) : String := scope.root ++ "_init"

end Scope

end ExtensionLoader
