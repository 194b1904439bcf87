import ExtensionLoader.Artifact.FunctionTable
import ExtensionLoader.Artifact.Header
import ExtensionLoader.Artifact.InitCode

/-! # The files of a scope

A scope has up to three files. The function table decides about the others: only with
it does the header declare the loader, and only with it is there init code.
-/

namespace ExtensionLoader.Artifact

/-- The files of a scope, in the order in which they are stored. -/
def ofScope (enums : ResolvedTable) (functions : FunctionTable) (scope : Scope) : List Artifact :=
  let table := functions.render scope
  let header := Header.render enums scope table.isSome
  (table.map fun text => ⟨.functionTable, scope.functionsFile, text⟩).toList ++
    (header.map fun text => ⟨.header, scope.headerFile, text⟩).toList ++
    (if table.isSome then [⟨.initCode, scope.sourceFile, InitCode.render scope⟩] else [])

end ExtensionLoader.Artifact
