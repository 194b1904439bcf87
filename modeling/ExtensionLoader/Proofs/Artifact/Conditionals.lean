import ExtensionLoader.Proofs.Artifact.Directives
import ExtensionLoader.Proofs.Artifact.Macros

/-! # The conditionals of generated files

Reading a file line by line, a conditional is open from the line that opens it to the line that
closes it. In each file of a scope no line closes what is not open, and nothing is left open
(`Balanced`). A header is one conditional on its guard, in which a second one on the ignore macro
holds all definitions and the declarations of the loader; the function table is included only while
the macro that its lines call is defined (`Artifact.nested_of_legible`).
-/

namespace ExtensionLoader

open Text

/-- How many conditionals are open behind some directives, given how many are open before them. It
is none if one of them closes where nothing is open. -/
def depthBehind : Nat → List Directive → Option Nat
  | depth, [] => some depth
  | depth, .opens _ :: rest => depthBehind (depth + 1) rest
  | 0, .closes :: _ => none
  | depth + 1, .closes :: rest => depthBehind depth rest
  | depth, .defines _ :: rest => depthBehind depth rest
  | depth, .undefines _ :: rest => depthBehind depth rest
  | depth, .includes _ :: rest => depthBehind depth rest

/-- Directives that close what they open, and nothing else. -/
def Balanced (directives : List Directive) : Prop := depthBehind 0 directives = some 0

/-- The depth behind two parts is that behind the second, started behind the first. -/
theorem depthBehind_append (depth : Nat) (first second : List Directive) :
    depthBehind depth (first ++ second) =
      (depthBehind depth first).bind fun between => depthBehind between second := by
  induction first generalizing depth with
  | nil => rfl
  | cons directive rest ih => cases directive <;> cases depth <;> simp [depthBehind, ih]

/-- Conditionals that are open around some directives stay open. -/
theorem depthBehind_around {depth last : Nat} {directives : List Directive}
    (inside : depthBehind depth directives = some last) (around : Nat) :
    depthBehind (depth + around) directives = some (last + around) := by
  induction directives generalizing depth with
  | nil =>
    cases inside
    rfl
  | cons directive rest ih =>
    cases directive with
    | opens condition =>
      have behind := @ih (depth + 1) inside
      rwa [Nat.add_right_comm] at behind
    | closes =>
      cases depth with
      | zero => cases inside
      | succ depth =>
        rw [Nat.add_right_comm]
        exact @ih depth inside
    | defines name => exact ih inside
    | undefines name => exact ih inside
    | includes file => exact ih inside

namespace Balanced

theorem append {first second : List Directive} (front : Balanced first) (back : Balanced second) :
    Balanced (first ++ second) := by
  rw [Balanced, depthBehind_append, front]
  exact back

/-- A balanced part stays balanced within a conditional. -/
theorem enclosed (condition : Condition) {inner : List Directive} (balanced : Balanced inner) :
    Balanced (.opens condition :: inner ++ [.closes]) := by
  have within : depthBehind 1 inner = some 1 := depthBehind_around balanced 1
  rw [Balanced, List.cons_append, depthBehind, depthBehind_append, within]
  rfl

/-- Balanced parts in a row are balanced. -/
theorem flatMap {α : Type} {given : α → List Directive} {items : List α}
    (each : ∀ item ∈ items, Balanced (given item)) : Balanced (items.flatMap given) := by
  induction items with
  | nil => rfl
  | cons item rest ih =>
    rw [List.forall_mem_cons] at each
    exact each.1.append (ih each.2)

end Balanced

theorem balanced_map_defines (names : List String) : Balanced (names.map Directive.defines) := by
  induction names with
  | nil => rfl
  | cons name rest ih => exact ih

theorem balanced_fallback (name : String) : Balanced (fallback name) := rfl

theorem FunctionTable.balanced_fileDirectives (groups : List (String × List FunctionRecord)) :
    Balanced (fileDirectives groups) :=
  .flatMap fun _ _ => .flatMap fun record _ => balanced_fallback record.name

theorem InitCode.balanced_fileDirectives (scope : Scope) : Balanced (fileDirectives scope) := rfl

namespace Header

/-- The lines that switch a scope off are balanced. -/
theorem balanced_ignoreDirectives (mark : String) (scope : Scope) :
    Balanced (ignoreDirectives mark scope) := by
  unfold ignoreDirectives
  split <;> rfl

/-- The part of the gate for one platform is balanced. -/
theorem balanced_platformDirectives (platform mark : String) (scope : Scope)
    {defined : List Directive} (balanced : Balanced defined) :
    Balanced (platformDirectives platform mark scope defined) := by
  rw [platformDirectives, List.cons_append]
  exact (balanced.append (balanced_ignoreDirectives mark scope)).enclosed (.defined platform)

/-- The platform gate is balanced. -/
theorem balanced_gateDirectives (scope : Scope) : Balanced (gateDirectives scope) := by
  have guard : Balanced [.defines scope.guard] := rfl
  have loader := balanced_fallback "GLEX_GET_PROC_ADDRESS"
  have linux := balanced_platformDirectives "__linux" "_WGL_" scope loader
  have windows := balanced_platformDirectives "_WIN32" "_GLX_" scope
    ((balanced_fallback "WIN32_LEAN_AND_MEAN").append loader)
  have elsewhere : Balanced ([.opens (.missing "GLEX_GET_PROC_ADDRESS"), .closes] ++
    fallback "APIENTRY") := rfl
  exact ((guard.append linux).append windows).append elsewhere

/-- A header's body is balanced. -/
theorem balanced_bodyDirectives (table : ResolvedTable) (scope : Scope) (hasFunctions : Bool) :
    Balanced (bodyDirectives table scope hasFunctions) := by
  refine (balanced_map_defines (names table scope)).append ?_
  cases hasFunctions <;> rfl

/-- What a header's guard encloses is balanced. -/
theorem balanced_guardedDirectives (table : ResolvedTable) (scope : Scope) (hasFunctions : Bool) :
    Balanced (guardedDirectives table scope hasFunctions) := by
  have shared : Balanced [.includes Globals.file] := rfl
  have inside := shared.append (balanced_bodyDirectives table scope hasFunctions)
  exact (balanced_gateDirectives scope).append (inside.enclosed (.missing scope.ignoreMacro))

theorem balanced_fileDirectives (table : ResolvedTable) (scope : Scope) (hasFunctions : Bool) :
    Balanced (fileDirectives table scope hasFunctions) :=
  (balanced_guardedDirectives table scope hasFunctions).enclosed (.missing scope.guard)

end Header

namespace Header

variable {scope : Scope}

/-- What the gates define, apart from the two macros of the scope. -/
def gateMacros : List String := ["GLEX_GET_PROC_ADDRESS", "WIN32_LEAN_AND_MEAN", "APIENTRY"]

theorem defines_of_fallback {name other : String} (defined : .defines name ∈ fallback other) :
    name = other := by
  simpa [fallback] using defined

/-- The part of the gate for one platform defines the ignore macro, a macro of the gate, or what it
encloses. -/
theorem defines_of_platformDirectives {platform mark name : String} {inner : List Directive}
    (defined : .defines name ∈ platformDirectives platform mark scope inner) :
    .defines name ∈ inner ∨ name = scope.ignoreMacro := by
  simp only [platformDirectives, ignoreDirectives, List.cons_append, List.mem_cons, List.mem_append,
    List.mem_ite_nil_right, List.not_mem_nil, Directive.defines.injEq, reduceCtorEq, false_or,
    or_false] at defined
  exact defined.imp_right And.right

/-- The gate defines macros of the scope and of the gate. -/
theorem defines_of_gateDirectives {name : String} (defined : .defines name ∈ gateDirectives scope) :
    scope.IsMacro name ∨ name ∈ gateMacros := by
  have loader : "GLEX_GET_PROC_ADDRESS" ∈ gateMacros := List.mem_cons_self
  simp only [gateDirectives, List.mem_append] at defined
  rcases defined with ((guard | linux) | windows) | elsewhere | convention
  · cases List.mem_singleton.1 guard
    exact .inl (.inl rfl)
  · rcases defines_of_platformDirectives linux with own | ignored
    · exact .inr (defines_of_fallback own ▸ loader)
    · exact .inl (.inr ignored)
  · rcases defines_of_platformDirectives windows with own | ignored
    · rcases List.mem_append.1 own with lean | own
      · exact .inr (defines_of_fallback lean ▸ by decide)
      · exact .inr (defines_of_fallback own ▸ loader)
    · exact .inl (.inr ignored)
  · simp at elsewhere
  · exact .inr (defines_of_fallback convention ▸ by decide)

/-- The gate includes no file and undefines none. -/
theorem not_pass_of_gateDirectives {file : String} :
    .includes file ∉ gateDirectives scope ∧ .undefines file ∉ gateDirectives scope := by
  simp only [gateDirectives, platformDirectives, ignoreDirectives, fallback, List.mem_append,
    List.mem_cons, List.mem_ite_nil_right, List.not_mem_nil, reduceCtorEq, and_false, or_false,
    not_false_eq_true, and_self]

/-- The gates define macros of their own only. -/
theorem not_inNamespace_of_gateDirectives (named : isWord scope.root.toList = true) {name : String}
    (defined : .defines name ∈ gateDirectives scope) : ¬ InNamespace name := by
  have other : ∀ known ∈ gateMacros, ¬ InNamespace known := by decide
  rcases defines_of_gateDirectives defined with own | listed
  · exact own.not_inNamespace named
  · exact other name listed

/-- A pass over the function table: the macro, the inclusion and the end of the macro. -/
theorem mem_pass_iff {directive : Directive} : directive ∈ pass scope ↔
    directive = .defines "GLEX_FUNC" ∨ directive = .includes scope.functionsFile ∨
      directive = .undefines "GLEX_FUNC" := by
  simp [pass]

/-- Nothing in the gates is part of a pass over the function table. -/
theorem filter_gateDirectives (named : isWord scope.root.toList = true) :
    (gateDirectives scope).filter (· ∈ pass scope) = [] := by
  have other : "GLEX_FUNC" ∉ gateMacros := by decide
  rw [List.filter_eq_nil_iff]
  intro directive member listed
  rw [decide_eq_true_eq, mem_pass_iff] at listed
  rcases listed with rfl | rfl | rfl
  · rcases defines_of_gateDirectives member with own | known
    · -- A macro of the scope may begin like `GLEX_FUNC`, but it ends in another letter.
      exact absurd (own.getLast? named) (by decide)
    · exact other known
  · exact not_pass_of_gateDirectives.1 member
  · exact not_pass_of_gateDirectives.2 member

/-- Of the files of scopes, a pass includes no header. -/
theorem includes_header_not_mem_pass (other : Scope) :
    .includes (other.fileName .header) ∉ pass scope := by
  rw [mem_pass_iff]
  rintro (none | same | none)
  · cases none
  · have names : other.fileName .header = scope.fileName .functionTable :=
      Directive.includes.inj same
    cases (Scope.fileName_injective (by decide) (by decide) names).2
  · cases none

theorem opens_not_mem_pass (condition : Condition) : .opens condition ∉ pass scope := by
  simp [pass]

theorem filter_pass (scope : Scope) : (pass scope).filter (· ∈ pass scope) = pass scope := by
  rw [List.filter_eq_self]
  exact fun directive member => decide_eq_true member

/-- A header's body makes its passes over the table and touches their macro nowhere else. -/
theorem filter_bodyDirectives {table : ResolvedTable}
    (spaced : ∀ name ∈ names table scope, InNamespace name) (hasFunctions : Bool) :
    (bodyDirectives table scope hasFunctions).filter (· ∈ pass scope) =
      if hasFunctions then pass scope else [] := by
  have other : ¬ InNamespace "GLEX_FUNC" := by decide
  have defined : ((names table scope).map Directive.defines).filter (· ∈ pass scope) = [] := by
    rw [List.filter_eq_nil_iff, List.forall_mem_map]
    intro name member listed
    rw [decide_eq_true_eq, mem_pass_iff] at listed
    rcases listed with own | own | own
    · cases own
      exact other (spaced _ member)
    · cases own
    · cases own
  have gate :
      [Directive.opens (.defined "__cplusplus"), .closes].filter (· ∈ pass scope) = [] := rfl
  rw [bodyDirectives, List.filter_append, defined, List.nil_append]
  cases hasFunctions with
  | false => rfl
  | true =>
    rw [if_pos rfl, if_pos rfl, loaderDirectives, List.filter_append, List.filter_append, gate,
      filter_pass, List.nil_append, List.append_nil]

/-- A header makes the passes of its body and no other. -/
theorem filter_fileDirectives {table : ResolvedTable} (named : isWord scope.root.toList = true)
    (spaced : ∀ name ∈ names table scope, InNamespace name) (hasFunctions : Bool) :
    (fileDirectives table scope hasFunctions).filter (· ∈ pass scope) =
      if hasFunctions then pass scope else [] := by
  have opened (condition : Condition) : Directive.opens condition ∉ pass scope :=
    opens_not_mem_pass condition
  have shared : Directive.includes Globals.file ∉ pass scope :=
    includes_header_not_mem_pass (.api "globals")
  have closed : [Directive.closes].filter (· ∈ pass scope) = [] := rfl
  have ignored : (ignoredDirectives table scope hasFunctions).filter (· ∈ pass scope) =
      if hasFunctions then pass scope else [] := by
    rw [ignoredDirectives, List.cons_append, List.filter_cons_of_neg (by simpa using opened _),
      List.filter_append, closed, List.append_nil, List.singleton_append,
      List.filter_cons_of_neg (by simpa using shared), filter_bodyDirectives spaced]
  rw [fileDirectives, List.cons_append, List.filter_cons_of_neg (by simpa using opened _),
    List.filter_append, closed, List.append_nil, guardedDirectives, List.filter_append,
    filter_gateDirectives named, List.nil_append, ignored]

end Header

/-- The lines of one conditional: the line that opens it, lines that close what they open, and the
line that closes it. -/
def IsConditional (condition : Condition) (lines inner : List (List Char)) : Prop :=
  ∃ opening closing, lines = opening :: inner ++ [closing] ∧
    directive? opening = some (.opens condition) ∧ directive? closing = some .closes ∧
      Balanced (inner.filterMap directive?)

/-- A line that declares nothing and defines no enumerant of a scope. -/
def Header.IsBare (table : ResolvedTable) (scope : Scope) (line : List Char) : Prop :=
  ¬ IsDeclaration line ∧ ∀ name ∈ names table scope, directive? line ≠ some (.defines name)

/-- Nothing around the lines that hold the body of a header is part of it. -/
theorem Header.isBare_of_mem {table : ResolvedTable} {scope : Scope}
    (named : isWord scope.root.toList = true)
    (spaced : ∀ name ∈ names table scope, InNamespace name) :
    ∀ line ∈ gateLines scope ++ systemLines ++ [""], IsBare table scope line.toList := by
  -- The opening lines of a header are these lines, with the lines that open a conditional.
  have opening : openingLines scope = ("#ifndef " ++ scope.guard) ::
      (gateLines scope ++ ("#ifndef " ++ scope.ignoreMacro) :: systemLines) := by
    simp [openingLines, gateLines, systemLines]
  have start : ∀ line ∈ openingLines scope, Artifact.startsWith 'e' line = false :=
    startsWith_openingLines
  simp only [opening, List.forall_mem_cons, List.forall_mem_append] at start
  obtain ⟨-, gates, -, system⟩ := start
  simp only [List.forall_mem_append, List.forall_mem_singleton]
  refine ⟨⟨?gates, ?system⟩, ?blank⟩
  case gates =>
    intro line member
    refine ⟨not_isDeclaration_of_startsWith (gates line member), fun name listed own => ?_⟩
    exact not_inNamespace_of_gateDirectives named
      ((directing_gateLines named).mem_of_directive? member own) (spaced name listed)
  case system =>
    intro line member
    refine ⟨not_isDeclaration_of_startsWith (system line member), fun name _ own => ?_⟩
    cases List.mem_singleton.1 (directing_systemLines.mem_of_directive? member own)
  case blank =>
    refine ⟨not_isDeclaration_of_startsWith rfl, fun name _ own => ?_⟩
    cases own

/-- A header is one conditional on its guard, and what can be ignored is another one in it. -/
theorem Header.nested_fileLines {table : ResolvedTable} {scope : Scope}
    (named : isWord scope.root.toList = true)
    (words : ∀ group ∈ groups table scope, GroupOfWords group)
    (spaced : ∀ name ∈ names table scope, InNamespace name) (hasFunctions : Bool) :
    ∃ gates ignored behind system,
      IsConditional (.missing scope.guard)
        ((fileLines scope (bodyLines table scope hasFunctions)).map String.toList)
        (gates ++ ignored ++ behind) ∧
      IsConditional (.missing scope.ignoreMacro) ignored
        (system ++ (bodyLines table scope hasFunctions).map String.toList) ∧
      ∀ line ∈ gates ++ system ++ behind, IsBare table scope line := by
  have inside := directing_systemLines.append (directing_bodyLines named words hasFunctions)
  have shared : Balanced [.includes Globals.file] := rfl
  refine ⟨(gateLines scope).map String.toList,
    (ignoredLines scope (bodyLines table scope hasFunctions)).map String.toList,
    [""].map String.toList, systemLines.map String.toList, ?guard, ?ignored, ?around⟩
  case guard =>
    refine ⟨_, _, ?_, directive?_opens_missing (scope.isWord_guard named),
      directive?_closes scope.guard, ?_⟩
    · simp only [fileLines_eq, guardedLines, List.map_append, List.map_cons, List.map_nil]
    · rw [← List.map_append, ← List.map_append]
      exact directing_guardedLines named words hasFunctions ▸
        balanced_guardedDirectives table scope hasFunctions
  case ignored =>
    refine ⟨_, _, ?_, directive?_opens_missing (scope.isWord_ignoreMacro named),
      directive?_closes scope.ignoreMacro, ?_⟩
    · simp only [ignoredLines, List.map_append, List.map_cons, List.map_nil]
    · rw [← List.map_append, inside]
      exact shared.append (balanced_bodyDirectives table scope hasFunctions)
  case around =>
    rw [← List.map_append, ← List.map_append, List.forall_mem_map]
    exact isBare_of_mem named spaced

/-- Init code passes over the function table twice. -/
theorem InitCode.filter_fileDirectives (scope : Scope) :
    (fileDirectives scope).filter (· ∈ Header.pass scope) =
      Header.pass scope ++ Header.pass scope := by
  have header : Directive.includes scope.headerFile ∉ Header.pass scope :=
    Header.includes_header_not_mem_pass scope
  have opened : Directive.opens (.missing scope.ignoreMacro) ∉ Header.pass scope :=
    Header.opens_not_mem_pass _
  have closed : [Directive.closes].filter (· ∈ Header.pass scope) = [] := rfl
  rw [fileDirectives, List.filter_cons_of_neg (by simpa using header),
    List.filter_cons_of_neg (by simpa using opened), List.filter_append, List.filter_append,
    Header.filter_pass, closed, List.append_nil]

namespace Artifact

/-- How the conditionals of the files of a scope are nested, and how they include the function
table. -/
structure Nested (enums : ResolvedTable) (functions : FunctionTable) (scope : Scope) : Prop where
  balanced : ∀ artifact ∈ ofScope enums functions scope, Balanced (directives artifact.contents)
  /-- A header is one conditional on the guard. In it stands one on the ignore macro, which ends in
  all definitions and the declarations of the loader; nothing is defined or declared around it. -/
  header : ∀ artifact ∈ ofScope enums functions scope, artifact.kind = .header →
    ∃ gates ignored behind system,
      IsConditional (.missing scope.guard) (Text.lines artifact.contents)
        (gates ++ ignored ++ behind) ∧
      IsConditional (.missing scope.ignoreMacro) ignored (system ++
        (Header.bodyLines enums scope (functions.render scope).isSome).map String.toList) ∧
      ∀ line ∈ gates ++ system ++ behind, Header.IsBare enums scope line
  /-- A header passes over the function table once, if there is one. -/
  headerPass : ∀ artifact ∈ ofScope enums functions scope, artifact.kind = .header →
    (directives artifact.contents).filter (· ∈ Header.pass scope) =
      if (functions.render scope).isSome then Header.pass scope else []
  /-- Init code passes over the function table twice. -/
  initPasses : ∀ artifact ∈ ofScope enums functions scope, artifact.kind = .initCode →
    (directives artifact.contents).filter (· ∈ Header.pass scope) =
      Header.pass scope ++ Header.pass scope

variable {enums : ResolvedTable} {functions : FunctionTable}

/-- **The conditionals of the files of a scope are nested**, whatever is read into the tables. -/
theorem nested_of_legible (legible : Legible enums functions) (scope : Scope) :
    Nested enums functions scope := by
  have known {artifact : Artifact} (member : artifact ∈ ofScope enums functions scope) :=
    lines_of_mem legible member
  have named {artifact : Artifact} (member : artifact ∈ ofScope enums functions scope) :=
    isWord_root_of_mem legible member
  have words := Header.ofWords_of_mem_groups legible.words scope
  have spaced : ∀ name ∈ Header.names enums scope, InNamespace name :=
    inNamespace_of_mem_names legible
  refine ⟨?balanced, ?header, ?headerPass, ?initPasses⟩
  case balanced =>
    intro artifact member
    rw [(known member).2]
    cases artifact.kind with
    | functionTable => exact FunctionTable.balanced_fileDirectives _
    | header => exact Header.balanced_fileDirectives enums scope _
    | initCode => exact InitCode.balanced_fileDirectives scope
    | globals => rfl
  case header =>
    intro artifact member kind
    rw [(known member).1, kind]
    exact Header.nested_fileLines (named member) words spaced _
  case headerPass =>
    intro artifact member kind
    rw [(known member).2, kind]
    exact Header.filter_fileDirectives (named member) spaced _
  case initPasses =>
    intro artifact member kind
    rw [(known member).2, kind]
    exact InitCode.filter_fileDirectives scope

end Artifact

end ExtensionLoader
