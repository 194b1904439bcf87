import ExtensionLoader.Proofs.Artifact.Conditionals

/-! # Headers beside each other

A header is passed over where its guard or its ignore macro is defined. The files of a scope define
the two macros of the scope, a few macros of the loader, enumerants and functions, so none of them
takes away the header of a scope with another name (`Artifact.alike_of_defines`). Nor does the
shared header, unless the scope is called like it: the headers stand apart
(`Artifact.apart_of_legible`).
-/

namespace ExtensionLoader

open Text

variable {scope other : Scope} {name : String}

theorem FunctionTable.exists_of_defines {groups : List (String × List FunctionRecord)}
    (defined : .defines name ∈ fileDirectives groups) :
    ∃ group ∈ groups, ∃ record ∈ group.2, name = record.name := by
  obtain ⟨group, listed, inside⟩ := List.mem_flatMap.1 defined
  obtain ⟨record, within, own⟩ := List.mem_flatMap.1 inside
  exact ⟨group, listed, record, within, Header.defines_of_fallback own⟩

/-- What can be ignored defines the enumerants and the macro of the function table. -/
theorem Header.defines_of_ignoredDirectives {table : ResolvedTable} {hasFunctions : Bool}
    (defined : .defines name ∈ ignoredDirectives table scope hasFunctions) :
    name = "GLEX_FUNC" ∨ name ∈ names table scope := by
  simp only [ignoredDirectives, bodyDirectives, List.cons_append, List.nil_append, List.mem_cons,
    List.mem_append, List.not_mem_nil, reduceCtorEq, false_or, or_false] at defined
  rcases defined with enumerants | loader
  · obtain ⟨own, listed, same⟩ := List.mem_map.1 enumerants
    cases same
    exact .inr listed
  · cases hasFunctions with
    | false => cases loader
    | true => exact .inl (by simpa [loaderDirectives, pass] using loader)

/-- A header defines macros of its scope, those of the loader and the gate, and its enumerants. -/
theorem Header.defines_of_fileDirectives {table : ResolvedTable} {hasFunctions : Bool}
    (defined : .defines name ∈ fileDirectives table scope hasFunctions) :
    scope.IsMacro name ∨ name ∈ "GLEX_FUNC" :: gateMacros ∨ name ∈ names table scope := by
  simp only [fileDirectives, guardedDirectives, List.cons_append, List.mem_cons, List.mem_append,
    List.not_mem_nil, reduceCtorEq, false_or, or_false] at defined
  rcases defined with gates | ignored
  · exact (defines_of_gateDirectives gates).imp_right fun known =>
      .inl (List.mem_cons_of_mem _ known)
  · rcases defines_of_ignoredDirectives ignored with rfl | enumerant
    · exact .inr (.inl List.mem_cons_self)
    · exact .inr (.inr enumerant)

theorem InitCode.eq_of_defines (defined : .defines name ∈ fileDirectives scope) :
    name = "GLEX_FUNC" := by
  simpa [fileDirectives, Header.pass] using defined

/-- No function is named like a macro of a scope. -/
theorem Scope.IsMacro.not_functionPrefix (own : scope.IsMacro name)
    (named : isWord scope.root.toList = true) (dialect : Dialect) :
    ¬ dialect.functionPrefix.toList <+: name.toList := by
  intro start
  have shorter : dialect.functionPrefix.toList.length ≤ "GLEX".toList.length := by
    cases dialect <;> decide
  have within := List.prefix_of_prefix_length_le start (own.startsWith named) shorter
  cases dialect <;> exact absurd within (by decide)

namespace Globals

/-- The include guard of the shared header. -/
def guard : String := "GLEX_GLOBALS_H"

/-- The directives of the shared header. -/
def directives : List Directive :=
  [.opens (.missing guard), .defines guard, .opens (.defined "GL_TEXTURE_BINDING_3D_EXT"),
    .undefines "GL_TEXTURE_BINDING_3D_EXT", .closes, .defines "GL_TEXTURE_BINDING_3D_EXT",
    .opens (.missing "GL_ARB_shader_objects"), .closes,
    .opens (.missing "GL_ARB_vertex_buffer_object"), .closes, .opens (.missing "GL_VERSION_2_0"),
    .closes, .opens (.missing "GL_VERSION_1_5"), .closes, .closes]

/-- The lines of the shared header give its directives. -/
theorem directing_lines : Directing lines directives := by
  refine .readLiteral rfl (.readLiteral rfl (.skip rfl (.skipLiteral rfl (.skip rfl
    (.skipLiteral rfl ?_)))))
  refine .readLiteral rfl (.readLiteral rfl (.readLiteral rfl (.readLiteral rfl (.skip rfl
    (.skipLiteral rfl ?_)))))
  refine .readLiteral rfl (.skipLiteral rfl (.skipLiteral rfl (.readLiteral rfl (.skip rfl ?_))))
  refine .readLiteral rfl (.skipLiteral rfl (.skipLiteral rfl (.readLiteral rfl (.skip rfl ?_))))
  refine .readLiteral rfl (.skipLiteral rfl (.readLiteral rfl (.skip rfl ?_)))
  refine .readLiteral rfl (.skipLiteral rfl (.skipLiteral rfl (.readLiteral rfl (.skip rfl ?_))))
  exact .readLiteral rfl .nil

theorem directives_contents : Artifact.directives contents = directives :=
  directing_lines.directives_text including_globals.physical

/-- The header of an API that is called like the shared header has the same guard. -/
theorem isMacro_guard : (Scope.api "globals").IsMacro guard := .inl (by decide +kernel)

theorem alike_of_isMacro (named : isWord scope.root.toList = true) (own : scope.IsMacro guard) :
    scope.Alike (.api "globals") :=
  own.alike named (by decide) isMacro_guard

end Globals

namespace Artifact

/-- No file among some defines a macro that the header of a scope would be passed over for. -/
def Spare (files : List Artifact) (scope : Scope) : Prop :=
  ∀ artifact ∈ files, ∀ name, .defines name ∈ directives artifact.contents → ¬ scope.IsMacro name

/-- The shared header. -/
def shared : Artifact := ⟨.globals, Globals.file, Globals.contents⟩

/-- The shared header leaves every other scope alone. -/
theorem spare_shared (named : isWord scope.root.toList = true)
    (other : ¬ scope.Alike (.api "globals")) : Spare [shared] scope := by
  intro artifact member name defined own
  cases List.mem_singleton.1 member
  rw [shared, Globals.directives_contents] at defined
  have ends := own.getLast? named
  have listed : name = Globals.guard ∨ name = "GL_TEXTURE_BINDING_3D_EXT" := by
    simpa [Globals.directives] using defined
  rcases listed with rfl | rfl
  · exact other (Globals.alike_of_isMacro named own)
  · exact absurd ends (by decide)

variable {enums : ResolvedTable} {functions : FunctionTable}

/-- If a file of a scope defines a macro of another scope, then the two scopes have the same name
apart from the case of its letters. -/
theorem alike_of_defines (legible : Legible enums functions) {artifact : Artifact}
    (member : artifact ∈ ofScope enums functions scope)
    (defined : .defines name ∈ directives artifact.contents)
    (named : isWord other.root.toList = true) (own : other.IsMacro name) : scope.Alike other := by
  rw [(lines_of_mem legible member).2] at defined
  have ends := own.getLast? named
  cases kind : artifact.kind with
  | functionTable =>
    rw [kind] at defined
    obtain ⟨group, listed, record, inside, rfl⟩ := FunctionTable.exists_of_defines defined
    obtain ⟨dialect, start⟩ := legible.dialects group (List.mem_filter.1 listed).1 record inside
    exact absurd start (own.not_functionPrefix named dialect)
  | header =>
    rw [kind] at defined
    rcases Header.defines_of_fileDirectives defined with ownAgain | known | enumerant
    · exact ownAgain.alike (isWord_root_of_mem legible member) named own
    · -- The macros of the loader have the same beginning, so their last letters are compared.
      have other : ∀ known ∈ "GLEX_FUNC" :: Header.gateMacros,
          known.toList.getLast? ∉ [some 'H', some 'E'] := by
        decide
      exact absurd ends (other name known)
    · exact absurd (inNamespace_of_mem_names legible name enumerant) (own.not_inNamespace named)
  | initCode =>
    rw [kind] at defined
    rw [InitCode.eq_of_defines defined] at ends
    exact absurd ends (by decide)
  | globals => exact absurd kind (ne_globals_of_mem member)

/-- A header asks for its guard first, and for its ignore macro. -/
structure GuardedBy (header : Artifact) (scope : Scope) : Prop where
  guard : (directives header.contents).head? = some (.opens (.missing scope.guard))
  ignoreMacro : .opens (.missing scope.ignoreMacro) ∈ directives header.contents

/-- The headers of a scope are guarded by that scope's macro. -/
theorem guardedBy_of_mem (legible : Legible enums functions) {header : Artifact}
    (member : header ∈ ofScope enums functions scope) (kind : header.kind = .header) :
    header.GuardedBy scope := by
  have known := (lines_of_mem legible member).2
  rw [kind] at known
  constructor <;> rw [known]
  · rfl
  · simp [fileDirectives, Header.fileDirectives, Header.guardedDirectives, Header.ignoredDirectives]

/-- How the headers of some tables stand beside each other, and beside the shared one. -/
structure Apart (enums : ResolvedTable) (functions : FunctionTable) : Prop where
  guarded : ∀ scope, ∀ header ∈ ofScope enums functions scope, header.kind = .header →
    header.GuardedBy scope
  /-- Scopes with files share neither macro and leave each other's headers alone, unless they have
  the same name apart from the case of its letters. -/
  scopes : ∀ scope other, ofScope enums functions scope ≠ [] → ofScope enums functions other ≠ [] →
    ¬ scope.Alike other → scope.guard ≠ other.guard ∧ scope.ignoreMacro ≠ other.ignoreMacro ∧
      Spare (ofScope enums functions scope) other
  globals : (directives shared.contents).head? = some (.opens (.missing Globals.guard))
  /-- A scope and the shared header leave each other alone, unless the scope is called like it. -/
  shared : ∀ scope, ofScope enums functions scope ≠ [] → ¬ scope.Alike (.api "globals") →
    scope.guard ≠ Globals.guard ∧ Spare [shared] scope ∧
      ∀ artifact ∈ ofScope enums functions scope, .defines Globals.guard ∉
        directives artifact.contents

/-- **The headers of tables that are read stand apart.** -/
theorem apart_of_legible (legible : Legible enums functions) : Apart enums functions := by
  have named {scope : Scope} (filled : ofScope enums functions scope ≠ []) :
      isWord scope.root.toList = true := by
    obtain ⟨artifact, member⟩ := List.exists_mem_of_ne_nil _ filled
    exact isWord_root_of_mem legible member
  refine ⟨?guarded, ?scopes, ?globals, ?shared⟩
  case guarded => exact fun scope header member kind => guardedBy_of_mem legible member kind
  case scopes =>
    intro scope other filled filledAgain apart
    refine ⟨fun same => ?_, fun same => ?_, ?_⟩
    · exact apart ((Scope.guard_eq_iff (named filled) (named filledAgain)).1 same)
    · exact apart (Scope.ignoreMacro_eq_iff.1 same)
    · intro artifact member name defined own
      exact apart (alike_of_defines legible member defined (named filledAgain) own)
  case globals =>
    rw [shared, Globals.directives_contents]
    rfl
  case shared =>
    intro scope filled apart
    refine ⟨fun same => ?_, spare_shared (named filled) apart, ?_⟩
    · exact apart (Globals.alike_of_isMacro (named filled) (.inl same.symm))
    · intro artifact member defined
      exact apart (alike_of_defines legible member defined (by decide) Globals.isMacro_guard)

end Artifact

end ExtensionLoader
