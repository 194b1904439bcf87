import ExtensionLoader.Proofs.Artifact.Guards
import ExtensionLoader.Proofs.Run.Includes

/-! # What a preprocessor finds in generated files

Tables are only loaded from texts, and what is read from a text can stand in generated files
(`Tables.legible_of_load`). So the conditionals of the files of every scope are nested
(`Run.conditionals_of_generated_files_nest`), and the headers of scopes stand apart unless their
names differ in the case of letters only (`Run.generated_headers_stand_apart`).
-/

namespace ExtensionLoader

open Text

variable {σ : Type} {workspace : Workspace (StateM σ)}

namespace Tables

theorem legible_ofTexts (texts : SourceTexts) (before : Diagnostics) :
    Artifact.Legible (ofTexts texts before).1.enums (ofTexts texts before).1.functions where
  groups := FunctionTable.wellFormed_parse texts.functionSpec
    (TypeMap.givesFields_parse texts.typeMap)
  dialects group held record member := ⟨FunctionTable.dialectOf texts.functionSpec,
    FunctionTable.startsWith_functionPrefix_of_parse _ _ group held record member⟩
  words := EnumTable.ofWords_resolve texts.enumSpec before
  namespaces := EnumTable.inNamespace_of_resolve texts.enumSpec before

theorem legible_of_load {sources : Sources} {limit : Option Nat} {found last : Diagnostics}
    {state after : σ} {tables : Tables}
    (loaded : runOn (load workspace sources limit) found state = ((.ok tables, last), after)) :
    Artifact.Legible tables.enums tables.functions := by
  obtain ⟨texts, before, rfl⟩ := exists_texts_of_load loaded
  exact legible_ofTexts texts before

end Tables

namespace Run

/-- **The conditionals of generated files are nested**, whatever tables are loaded. In each file of
each scope no line closes a conditional that is not open, and all are closed at the end. A header is
one conditional on its include guard, and all its definitions and the declarations of its loader
stand in a second one on its ignore macro; the header and the init code include the function table
between a definition of the macro that its lines call and the line that undefines it, and nowhere
else. -/
theorem conditionals_of_generated_files_nest {sources : Sources} {limit : Option Nat}
    {found last : Diagnostics} {state after : σ} {tables : Tables}
    (loaded : Tables.runOn (Tables.load workspace sources limit) found state =
      ((.ok tables, last), after)) (scope : Scope) :
    Artifact.Nested tables.enums tables.functions scope :=
  Artifact.nested_of_legible (Tables.legible_of_load loaded) scope

/-- The inputs that `oneFunction` holds. -/
def oneFunctionTexts : SourceTexts :=
  ⟨"A enum:\n\tX = 1\nB enum:\n\tY = 2\n", "Copy()\n\tcategory A\n\treturn void\n", ""⟩

theorem runOn_load_oneFunction :
    Tables.runOn (Tables.load oneFunction.workspace ⟨"enumext.spec", "gl.spec", "gl.tm"⟩ none) []
      ({} : MemoryStore) = ((.ok (Tables.ofTexts oneFunctionTexts []).1,
        (Tables.ofTexts oneFunctionTexts []).2), {}) :=
  @Tables.runOn_load_of_held oneFunction {} ⟨"enumext.spec", "gl.spec", "gl.tm"⟩ oneFunctionTexts
    none rfl rfl rfl []

/-- The conditionals in the files of a single function nest. -/
theorem conditionals_of_one_function_nest :
    ∃ tables last after,
      Tables.runOn (Tables.load oneFunction.workspace ⟨"enumext.spec", "gl.spec", "gl.tm"⟩ none) []
        ({} : MemoryStore) = ((.ok tables, last), after) ∧
      (tables.files (.api "A")).map Artifact.kind = [.functionTable, .header, .initCode] ∧
      Artifact.Nested tables.enums tables.functions (.api "A") :=
  ⟨_, _, _, runOn_load_oneFunction, by decide +kernel,
    conditionals_of_generated_files_nest runOn_load_oneFunction (.api "A")⟩

/-- **The headers of generated files stand apart**, whatever tables are loaded. Each header asks for
the guard and for the ignore macro of its scope. Two scopes that have something to emit share
neither of them, unless they have the same name apart from the case of its letters, and the shared
header has a guard of its own, unless the scope is called like it. No file of the one defines a
macro that the header of the other would be passed over for. -/
theorem generated_headers_stand_apart {sources : Sources} {limit : Option Nat}
    {found last : Diagnostics} {state after : σ} {tables : Tables}
    (loaded : Tables.runOn (Tables.load workspace sources limit) found state =
      ((.ok tables, last), after)) : Artifact.Apart tables.enums tables.functions :=
  Artifact.apart_of_legible (Tables.legible_of_load loaded)

/-- The headers of a single function share no macro. -/
theorem headers_of_one_function_stand_apart :
    ∃ tables last after,
      Tables.runOn (Tables.load oneFunction.workspace ⟨"enumext.spec", "gl.spec", "gl.tm"⟩ none) []
        ({} : MemoryStore) = ((.ok tables, last), after) ∧
      tables.files (.api "A") ≠ [] ∧ tables.files (.api "B") ≠ [] ∧
      ¬ (Scope.api "A").Alike (.api "B") ∧ ¬ (Scope.api "A").Alike (.api "globals") ∧
      Artifact.Apart tables.enums tables.functions :=
  ⟨_, _, _, runOn_load_oneFunction, by decide +kernel, by decide +kernel, by decide, by decide,
    generated_headers_stand_apart runOn_load_oneFunction⟩

/-- Texts with two APIs whose names differ in the case of letters only. -/
def casedTexts : SourceTexts := ⟨"foo enum:\n\tX = 1\nFOO enum:\n\tY = 2\n", "", ""⟩

/-- A store with APIs whose names differ in case alone. -/
def casedApis : MemoryStore where
  resources := .ofList [("enumext.spec", casedTexts.enumSpec),
    ("gl.spec", casedTexts.functionSpec), ("gl.tm", casedTexts.typeMap)]

/-- The tables of that store. -/
def casedTables : Tables := (Tables.ofTexts casedTexts []).1

/-- Guards are in upper case, so the headers of both APIs ask for the same macros. -/
theorem cased_apis_share_their_macros :
    Tables.runOn (Tables.load casedApis.workspace ⟨"enumext.spec", "gl.spec", "gl.tm"⟩ none) []
      ({} : MemoryStore) = ((.ok casedTables, []), {}) ∧
    casedTables.enums.keys = ["foo", "FOO"] ∧
    ∃ header other,
      casedTables.files (.api "foo") = [header] ∧ casedTables.files (.api "FOO") = [other] ∧
      (Artifact.directives header.contents).head? = some (.opens (.missing "GLEX_FOO_H")) ∧
      (Artifact.directives other.contents).head? = some (.opens (.missing "GLEX_FOO_H")) ∧
      .opens (.missing "GLEX_FOO_IGNORE") ∈ Artifact.directives header.contents ∧
      .opens (.missing "GLEX_FOO_IGNORE") ∈ Artifact.directives other.contents := by
  have guarded {name : String}
      (kinds : (casedTables.files (.api name)).map Artifact.kind = [.header]) :
      ∃ header, casedTables.files (.api name) = [header] ∧ header.GuardedBy (.api name) := by
    obtain ⟨header, files, kind⟩ := List.map_eq_singleton_iff.1 kinds
    have member : header ∈ casedTables.files (.api name) := by
      rw [files]
      exact List.mem_singleton_self header
    have legible := Tables.legible_ofTexts casedTexts []
    exact ⟨header, files, Artifact.guardedBy_of_mem legible member kind⟩
  obtain ⟨header, files, own⟩ : ∃ header, casedTables.files (.api "foo") = [header] ∧
    header.GuardedBy (.api "foo") := guarded (by decide +kernel)
  obtain ⟨other, filesAgain, ownAgain⟩ : ∃ header, casedTables.files (.api "FOO") = [header] ∧
    header.GuardedBy (.api "FOO") := guarded (by decide +kernel)
  have guard : (Scope.api "foo").guard = "GLEX_FOO_H" := by decide +kernel
  have guardAgain : (Scope.api "FOO").guard = "GLEX_FOO_H" := by decide +kernel
  have ignored : (Scope.api "foo").ignoreMacro = "GLEX_FOO_IGNORE" := by decide +kernel
  have ignoredAgain : (Scope.api "FOO").ignoreMacro = "GLEX_FOO_IGNORE" := by decide +kernel
  refine ⟨?loaded, by decide +kernel, header, other, files, filesAgain, ?_, ?_, ?_, ?_⟩
  case loaded =>
    exact @Tables.runOn_load_of_held casedApis {} ⟨"enumext.spec", "gl.spec", "gl.tm"⟩ casedTexts
      none rfl rfl rfl []
  · rw [own.guard, guard]
  · rw [ownAgain.guard, guardAgain]
  · exact ignored ▸ own.ignoreMacro
  · exact ignoredAgain ▸ ownAgain.ignoreMacro

end Run

end ExtensionLoader
