import ExtensionLoader.Proofs.Artifact.Includes

/-! # The files of a scope fit together

A scope has a function table if it has a function, a header if it has a function or an enumerant,
and init code beside a function table. The header declares the loader if there is a function table,
and what the files include by a quoted name is the shared header or a file of the same scope
(`Artifact.coherent_of_wellFormed`).
-/

namespace ExtensionLoader

open Text

/-- The APIs that a scope covers. -/
def Scope.Covers : Scope → String → Prop
  | all, _ => True
  | api name, other => other = name

theorem Scope.all_api?_iff {scope : Scope} {api : String} :
    (scope.api?.all fun wanted => api = wanted) = true ↔ scope.Covers api := by
  cases scope with
  | all => simp [api?, Covers]
  | api name => simp [api?, Covers]

theorem Scope.pick_ne_nil_iff {α : Type} {scope : Scope} {kept : α → Bool}
    {map : OrderedMap String α} : scope.pick kept map ≠ [] ↔
      ∃ entry ∈ map.entries, scope.Covers entry.1 ∧ kept entry.2 = true := by
  rw [pick, Ne, List.filter_eq_nil_iff]
  simp only [Bool.and_eq_true, all_api?_iff, not_forall, not_not, exists_prop]

/-- A scope has a function. -/
def FunctionTable.HasFunction (table : FunctionTable) (scope : Scope) : Prop :=
  ∃ group ∈ table.entries, scope.Covers group.1 ∧ group.2 ≠ []

/-- A scope has an enumerant. -/
def ResolvedTable.HasEnumerant (table : ResolvedTable) (scope : Scope) : Prop :=
  ∃ group ∈ table.entries, scope.Covers group.1 ∧ group.2.entries ≠ []

theorem FunctionTable.hasFunction_iff {table : FunctionTable} {scope : Scope} :
    table.HasFunction scope ↔ table.groups scope ≠ [] := by
  rw [groups_eq, Scope.pick_ne_nil_iff]
  simp only [HasFunction, Bool.not_eq_true', List.isEmpty_eq_false_iff]

theorem ResolvedTable.hasEnumerant_iff {table : ResolvedTable} {scope : Scope} :
    table.HasEnumerant scope ↔ Header.groups table scope ≠ [] := by
  rw [Header.groups_eq, Scope.pick_ne_nil_iff]
  simp only [HasEnumerant, OrderedMap.isEmpty, Bool.not_eq_true', List.isEmpty_eq_false_iff]

/-- A scope with something in it is named by a word. -/
theorem Scope.isWord_root {scope : Scope} {api : String} (covers : scope.Covers api)
    (word : isWord api.toList = true) : isWord scope.root.toList = true := by
  cases scope with
  | all => decide
  | api name =>
    cases covers
    exact isWord_root_api word

/-- A line that declares something that is defined elsewhere. -/
def IsDeclaration (line : List Char) : Prop := "extern".toList <+: line

open Artifact (startsWith startsWith_append startsWith_remark)

theorem not_isDeclaration_of_startsWith {line : String} (other : startsWith 'e' line = false) :
    ¬ IsDeclaration line.toList := by
  rintro ⟨rest, start⟩
  rw [startsWith, ← start] at other
  cases other

/-- A line starts like its first part, if that is not empty. -/
theorem startsWith_parts {front : List Char} {c d : Char} (start : front.head? = some d)
    (other : d ≠ c) (back : String) : startsWith c (String.ofList front ++ back) = false := by
  cases front with
  | nil => cases start
  | cons first rest =>
    cases Option.some.inj start
    rw [startsWith_append String.toList_ofList]
    exact beq_false_of_ne other

/-- A line written as characters, put before others that start elsewise. -/
theorem forall_mem_cons_ofList {c : Char} {line : List Char} {rest : List String}
    (own : line.head? ≠ some c) (later : ∀ other ∈ rest, startsWith c other = false) :
    ∀ other ∈ String.ofList line :: rest, startsWith c other = false := by
  refine List.forall_mem_cons.2 ⟨?_, later⟩
  rw [startsWith, String.toList_ofList]
  exact beq_false_of_ne own

/-- A line with a fixed front, put before others that start elsewise. -/
theorem forall_mem_cons_parts {front : List Char} {c d : Char} {back : String} {rest : List String}
    (start : front.head? = some d) (other : d ≠ c)
    (later : ∀ line ∈ rest, startsWith c line = false) :
    ∀ line ∈ (String.ofList front ++ back) :: rest, startsWith c line = false :=
  List.forall_mem_cons.2 ⟨startsWith_parts start other back, later⟩

namespace Header

variable {table : ResolvedTable} {scope : Scope}

/-- No declaration in the lines that switch a scope off. -/
theorem startsWith_ignoreLines (mark remark : String) :
    ∀ line ∈ ignoreLines mark remark scope, startsWith 'e' line = false := by
  unfold ignoreLines
  split
  · exact List.forall_mem_cons.2 ⟨rfl, forall_mem_cons_parts rfl (by decide)
      (forall_mem_cons_parts rfl (by decide) (List.forall_mem_nil _))⟩
  · exact List.forall_mem_nil _

/-- No declaration in the gate's lines for X11. -/
theorem startsWith_linuxLines : ∀ line ∈ linuxLines scope, startsWith 'e' line = false := by
  unfold linuxLines
  rw [List.forall_mem_append, List.forall_mem_append]
  refine ⟨⟨?_, startsWith_ignoreLines _ _⟩, ?_⟩
  all_goals
    repeat refine forall_mem_cons_ofList (by decide) ?_
    exact List.forall_mem_nil _

/-- No declaration in the gate's lines for Windows. -/
theorem startsWith_windowsLines : ∀ line ∈ windowsLines scope, startsWith 'e' line = false := by
  unfold windowsLines
  rw [List.forall_mem_append, List.forall_mem_append]
  refine ⟨⟨?_, startsWith_ignoreLines _ _⟩, ?_⟩
  all_goals
    repeat refine forall_mem_cons_ofList (by decide) ?_
    exact List.forall_mem_nil _

/-- No declaration in the gate's lines for other platforms. -/
theorem startsWith_elsewhereLines : ∀ line ∈ elsewhereLines, startsWith 'e' line = false := by
  unfold elsewhereLines
  refine forall_mem_cons_ofList (by decide) (forall_mem_cons_parts rfl (by decide) ?_)
  repeat refine forall_mem_cons_ofList (by decide) ?_
  exact List.forall_mem_nil _

/-- No declaration before a header's body. -/
theorem startsWith_openingLines : ∀ line ∈ openingLines scope, startsWith 'e' line = false := by
  unfold openingLines
  simp only [List.forall_mem_append]
  refine ⟨⟨⟨⟨?start, startsWith_linuxLines⟩, startsWith_windowsLines⟩, startsWith_elsewhereLines⟩,
    ?system⟩
  case start =>
    exact forall_mem_cons_parts rfl (by decide) (forall_mem_cons_parts rfl (by decide) (by decide))
  case system => exact forall_mem_cons_parts rfl (by decide) (by decide +kernel)

theorem startsWith_of_mem_defineLines (group : String × OrderedMap String String) :
    ∀ line ∈ defineLines group, startsWith 'e' line = false := by
  rw [defineLines_eq, List.forall_mem_cons, forall_mem_underApi]
  exact ⟨startsWith_remark 'e' group.1, fun entry _ => startsWith_defineLine 'e' _ entry, rfl⟩

/-- Without functions, a header declares nothing that is defined elsewhere. -/
theorem not_isDeclaration_of_no_functions (table : ResolvedTable) (scope : Scope) :
    ∀ line ∈ fileLines scope (bodyLines table scope false), ¬ IsDeclaration line.toList := by
  intro line member
  apply not_isDeclaration_of_startsWith
  revert line
  rw [fileLines_bodyLines, List.forall_mem_append, List.forall_mem_append]
  refine ⟨⟨startsWith_openingLines, ?_⟩, ?_⟩
  · intro line member
    obtain ⟨group, -, inside⟩ := List.mem_flatMap.1 member
    exact startsWith_of_mem_defineLines group line inside
  · exact forall_mem_cons_parts rfl (by decide) (forall_mem_cons_ofList (by decide)
      (forall_mem_cons_parts rfl (by decide) (List.forall_mem_nil _)))

/-- A header with functions holds the loader's lines. -/
theorem loaderLines_infix :
    loaderLines scope <:+: fileLines scope (bodyLines table scope true) := by
  rw [fileLines_bodyLines]
  exact ⟨openingLines scope ++ (groups table scope).flatMap defineLines,
    ["#endif // " ++ scope.ignoreMacro, "", "#endif // " ++ scope.guard],
    by simp only [closingLines, ↓reduceIte, List.append_assoc]⟩

theorem exists_isDeclaration_loaderLines (scope : Scope) :
    ∃ line ∈ loaderLines scope, IsDeclaration line.toList :=
  ⟨"extern \"C\"", by simp [loaderLines], " \"C\"".toList, by decide⟩

/-- A header with enumerants or functions is written. -/
theorem render_eq_some {hasFunctions : Bool}
    (filled : groups table scope ≠ [] ∨ hasFunctions = true) : render table scope hasFunctions =
      some (Artifact.text (fileLines scope (bodyLines table scope hasFunctions))) := by
  unfold render
  cases body : bodyLines table scope hasFunctions with
  | nil =>
    obtain ⟨-, noLoader⟩ := List.append_eq_nil_iff.1 body
    rcases filled with some | functions
    · exact absurd (groups_eq_nil_of_bodyLines body) some
    · rw [functions, if_pos rfl] at noLoader
      cases noLoader
  | cons line rest => rfl

theorem render_eq_none (nothing : groups table scope = []) : render table scope false = none := by
  unfold render bodyLines
  rw [nothing]
  rfl

end Header

namespace Artifact

variable {enums : ResolvedTable} {functions : FunctionTable} {scope : Scope}

/-- A scope with functions has all three files. -/
theorem ofScope_of_functions {text : String} (given : functions.render scope = some text) :
    ofScope enums functions scope =
      [⟨.functionTable, scope.functionsFile, text⟩,
        ⟨.header, scope.headerFile,
          Artifact.text (Header.fileLines scope (Header.bodyLines enums scope true))⟩,
        ⟨.initCode, scope.sourceFile, InitCode.render scope⟩] := by
  unfold ofScope
  dsimp only
  rw [given, Option.isSome_some, Header.render_eq_some (.inr rfl)]
  rfl

/-- A scope with enumerants alone has the header alone. -/
theorem ofScope_of_enumerants (noFunctions : functions.render scope = none)
    (filled : Header.groups enums scope ≠ []) : ofScope enums functions scope =
      [⟨.header, scope.headerFile,
        Artifact.text (Header.fileLines scope (Header.bodyLines enums scope false))⟩] := by
  unfold ofScope
  dsimp only
  rw [noFunctions, Option.isSome_none, Header.render_eq_some (.inl filled)]
  rfl

/-- A scope with nothing in it has no file. -/
theorem ofScope_of_nothing (noFunctions : functions.render scope = none)
    (nothing : Header.groups enums scope = []) : ofScope enums functions scope = [] := by
  unfold ofScope
  dsimp only
  rw [noFunctions, Option.isSome_none, Header.render_eq_none nothing]
  rfl

/-- How the files of a scope fit together. -/
structure Coherent (enums : ResolvedTable) (functions : FunctionTable) (scope : Scope) : Prop where
  /-- There is at most one file of each kind, and the kinds stand in this order. -/
  order : ((ofScope enums functions scope).map kind).Sublist [.functionTable, .header, .initCode]
  functionTable : .functionTable ∈ (ofScope enums functions scope).map kind ↔
    functions.HasFunction scope
  header : .header ∈ (ofScope enums functions scope).map kind ↔
    functions.HasFunction scope ∨ enums.HasEnumerant scope
  initCode : .initCode ∈ (ofScope enums functions scope).map kind ↔
    .functionTable ∈ (ofScope enums functions scope).map kind
  /-- The header holds the lines that declare the loader beside a function table only. -/
  loader : ∀ artifact ∈ ofScope enums functions scope, artifact.kind = .header →
    ((Header.loaderLines scope).map String.toList <:+: Text.lines artifact.contents ↔
      .functionTable ∈ (ofScope enums functions scope).map kind)
  /-- The header declares anything that is defined elsewhere beside a function table only. -/
  declares : ∀ artifact ∈ ofScope enums functions scope, artifact.kind = .header →
    ((∃ line ∈ Text.lines artifact.contents, IsDeclaration line) ↔
      .functionTable ∈ (ofScope enums functions scope).map kind)
  /-- What is included by a quoted name is the shared header or a file of the scope. -/
  includes : ∀ artifact ∈ ofScope enums functions scope,
    ∀ name ∈ quotedIncludes artifact.contents,
      name = Globals.file ∨ ∃ other ∈ ofScope enums functions scope, other.fileName = name

/-- The files of a scope with functions fit together. -/
theorem coherent_of_functions (named : isWord scope.root.toList = true)
    (wellFormed : ∀ group ∈ functions.groups scope, FunctionTable.GroupWellFormed group)
    (words : ∀ group ∈ Header.groups enums scope, Header.GroupOfWords group)
    (filled : functions.groups scope ≠ []) : Coherent enums functions scope := by
  have given : functions.render scope =
      some (text (FunctionTable.fileLines (functions.groups scope))) := by
    rw [FunctionTable.render_eq_text, if_neg filled]
  have table := FunctionTable.including_fileLines wellFormed
  have header := Header.including_fileLines named words true
  have init := InitCode.including_fileLines named
  have some := FunctionTable.hasFunction_iff.2 filled
  constructor <;> rw [ofScope_of_functions given]
  case order => exact List.Sublist.refl _
  case functionTable => exact ⟨fun _ => some, fun _ => by simp⟩
  case header => exact ⟨fun _ => .inl some, fun _ => by simp⟩
  case initCode => simp
  case loader =>
    simp only [List.forall_mem_cons]
    refine ⟨nofun, fun _ => ⟨fun _ => by simp, fun _ => ?_⟩, nofun, List.forall_mem_nil _⟩
    rw [lines_text header.physical]
    exact Header.loaderLines_infix.map _
  case declares =>
    simp only [List.forall_mem_cons]
    refine ⟨nofun, fun _ => ⟨fun _ => by simp, fun _ => ?_⟩, nofun, List.forall_mem_nil _⟩
    obtain ⟨line, inside, declares⟩ := Header.exists_isDeclaration_loaderLines scope
    rw [lines_text header.physical]
    exact ⟨_, List.mem_map_of_mem (Header.loaderLines_infix.subset inside), declares⟩
  case includes =>
    simp only [List.forall_mem_cons]
    refine ⟨?_, ?_, ?_, List.forall_mem_nil _⟩
    · rw [table.quotedIncludes_text]
      exact List.forall_mem_nil _
    · rw [header.quotedIncludes_text]
      simp
    · rw [InitCode.render, init.quotedIncludes_text]
      simp

/-- The files of a scope with enumerants alone fit together. -/
theorem coherent_of_enumerants (named : isWord scope.root.toList = true)
    (words : ∀ group ∈ Header.groups enums scope, Header.GroupOfWords group)
    (noFunctions : functions.groups scope = []) (filled : Header.groups enums scope ≠ []) :
    Coherent enums functions scope := by
  have missing : functions.render scope = none := by
    rw [FunctionTable.render_eq_text, if_pos noFunctions]
  have none : ¬ functions.HasFunction scope := by
    rw [FunctionTable.hasFunction_iff]
    exact not_not.2 noFunctions
  have header := Header.including_fileLines named words false
  have some := ResolvedTable.hasEnumerant_iff.2 filled
  have undeclared := Header.not_isDeclaration_of_no_functions enums scope
  constructor <;> rw [ofScope_of_enumerants missing filled]
  case order => simp
  case functionTable => simp [none]
  case header => simp [some]
  case initCode => simp
  case loader =>
    simp only [List.forall_mem_singleton]
    intro _
    rw [lines_text header.physical]
    refine ⟨fun block => ?_, by simp⟩
    obtain ⟨line, inside, declares⟩ := Header.exists_isDeclaration_loaderLines scope
    obtain ⟨own, listed, same⟩ := List.mem_map.1 (block.subset (List.mem_map_of_mem inside))
    exact absurd (same ▸ declares) (undeclared own listed)
  case declares =>
    simp only [List.forall_mem_singleton]
    intro _
    rw [lines_text header.physical]
    refine ⟨?_, by simp⟩
    rintro ⟨line, member, declares⟩
    obtain ⟨own, listed, rfl⟩ := List.mem_map.1 member
    exact absurd declares (undeclared own listed)
  case includes =>
    rw [List.forall_mem_singleton, header.quotedIncludes_text]
    simp

/-- Without files there is nothing to fit together. -/
theorem coherent_of_nothing (noFunctions : functions.groups scope = [])
    (nothing : Header.groups enums scope = []) : Coherent enums functions scope := by
  have missing : functions.render scope = none := by
    rw [FunctionTable.render_eq_text, if_pos noFunctions]
  have none : ¬ functions.HasFunction scope := by
    rw [FunctionTable.hasFunction_iff]
    exact not_not.2 noFunctions
  have neither : ¬ enums.HasEnumerant scope := by
    rw [ResolvedTable.hasEnumerant_iff]
    exact not_not.2 nothing
  constructor <;> simp [ofScope_of_nothing missing nothing, none, neither]

/-- **The files of a scope fit together**, whatever is read into the tables. -/
theorem coherent_of_wellFormed
    (wellFormed : ∀ group ∈ functions.entries, FunctionTable.GroupWellFormed group)
    (words : enums.OfWords fun value => isWord value.toList = true) (scope : Scope) :
    Coherent enums functions scope := by
  have own : ∀ group ∈ functions.groups scope, FunctionTable.GroupWellFormed group :=
    fun group member => wellFormed group (List.mem_filter.1 member).1
  have ownWords := Header.ofWords_of_mem_groups words scope
  by_cases noFunctions : functions.groups scope = []
  · by_cases nothing : Header.groups enums scope = []
    · exact coherent_of_nothing noFunctions nothing
    · obtain ⟨group, held, covers, -⟩ := ResolvedTable.hasEnumerant_iff.2 nothing
      exact coherent_of_enumerants (scope.isWord_root covers (words.apis group held)) ownWords
        noFunctions nothing
  · obtain ⟨group, held, covers, -⟩ := FunctionTable.hasFunction_iff.2 noFunctions
    exact coherent_of_functions (scope.isWord_root covers (wellFormed group held).api) own ownWords
      noFunctions

end Artifact

end ExtensionLoader
