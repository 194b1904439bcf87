import ExtensionLoader.Proofs.Artifact.Guards
import ExtensionLoader.Proofs.Text.Split

/-! # Scopes that are set aside on a platform

The gates of a header may define its own ignore macro, and then the header is passed over on that
platform. They decide by the guard of the header, so by the parts of the name of an API between
underscores, in letters of any case (`Scope.holds_guard_iff`). Each definition of the ignore macro
stands in the conditional of its platform and in that of the guard, and nothing else in the header
defines the macro (`Header.conditionsAround_fileDirectives`).
-/

namespace ExtensionLoader

open Text

/-- For each definition of a macro, the conditions in which it stands, the innermost one first. The
directives stand in some conditions already. -/
def conditionsAround (name : String) : List Condition → List Directive → List (List Condition)
  | _, [] => []
  | around, .opens condition :: rest => conditionsAround name (condition :: around) rest
  | around, .closes :: rest => conditionsAround name around.tail rest
  | around, .defines other :: rest =>
    if other = name then around :: conditionsAround name around rest
    else conditionsAround name around rest
  | around, .undefines _ :: rest => conditionsAround name around rest
  | around, .includes _ :: rest => conditionsAround name around rest

variable {name : String}

/-- No conditions are found exactly if the macro is not defined. -/
theorem conditionsAround_eq_nil_iff {directives : List Directive} {around : List Condition} :
    conditionsAround name around directives = [] ↔ .defines name ∉ directives := by
  induction directives generalizing around with
  | nil => simp [conditionsAround]
  | cons directive rest ih =>
    cases directive with
    | opens condition => simp [conditionsAround, ih]
    | closes => simp [conditionsAround, ih]
    | defines own =>
      by_cases same : own = name
      · simp [conditionsAround, same]
      · simp [conditionsAround, same, Ne.symm same, ih]
    | undefines own => simp [conditionsAround, ih]
    | includes file => simp [conditionsAround, ih]

/-- What stands behind some directives stands in the conditions that they leave open. -/
theorem conditionsAround_append_of_depth {depth last : Nat} {first : List Directive}
    (height : depthBehind depth first = some last) {inner : List Condition}
    (deep : inner.length = depth) (around : List Condition) (second : List Directive) :
    ∃ left, left.length = last ∧ conditionsAround name (inner ++ around) (first ++ second) =
      conditionsAround name (inner ++ around) first ++
        conditionsAround name (left ++ around) second := by
  induction first generalizing depth inner with
  | nil =>
    cases height
    exact ⟨inner, deep, rfl⟩
  | cons directive rest ih =>
    cases directive with
    | opens condition =>
      have deeper : (condition :: inner).length = depth + 1 := by rw [List.length_cons, deep]
      exact ih height deeper
    | closes =>
      cases inner with
      | nil =>
        cases deep
        cases height
      | cons condition inner =>
        cases deep
        exact ih height rfl
    | defines own =>
      obtain ⟨left, long, split⟩ := ih height deep
      refine ⟨left, long, ?_⟩
      rw [List.cons_append, conditionsAround, conditionsAround, split]
      by_cases same : own = name
      · rw [if_pos same, if_pos same, List.cons_append]
      · rw [if_neg same, if_neg same]
    | undefines own => exact ih height deep
    | includes file => exact ih height deep

/-- Directives that close what they open leave the conditions around them as they are. -/
theorem Balanced.conditionsAround_append {first : List Directive} (balanced : Balanced first)
    (around : List Condition) (second : List Directive) :
    conditionsAround name around (first ++ second) =
      conditionsAround name around first ++ conditionsAround name around second := by
  have outermost : ([] : List Condition).length = 0 := rfl
  obtain ⟨left, nothing, split⟩ :=
    conditionsAround_append_of_depth balanced outermost around second
  rwa [List.eq_nil_of_length_eq_zero nothing] at split

theorem Balanced.conditionsAround_enclosed {inner : List Directive} (balanced : Balanced inner)
    (condition : Condition) (around : List Condition) :
    conditionsAround name around (.opens condition :: inner ++ [.closes]) =
      conditionsAround name (condition :: around) inner := by
  rw [List.cons_append, conditionsAround, balanced.conditionsAround_append, conditionsAround,
    conditionsAround, List.append_nil]

/-- The parts of a name in upper case are the parts of the name, each in upper case. -/
theorem Text.mem_pieces_upperCase_iff {name : List Char} (inWord : ∀ c ∈ name, isWordChar c = true)
    {part : List Char} :
    part ∈ pieces (· == '_') (upperCase name) ↔
      ∃ own ∈ pieces (· == '_') name, upperCase own = part := by
  have kept : ∀ c ∈ name, (c.toUpper == '_') = (c == '_') := by
    intro c member
    rw [Bool.eq_iff_iff, beq_iff_eq, beq_iff_eq, toUpper_eq_underscore_iff (inWord c member)]
  rw [upperCase_eq_map inWord, pieces_map kept, List.mem_map]
  refine exists_congr fun own => and_congr_right fun member => ?_
  rw [upperCase_eq_map fun c inside => inWord c (mem_of_mem_pieces member inside)]

namespace Scope

/-- Whether a word is one of the parts of the name of an API between underscores, in letters of any
case. The scope of all APIs has no parts. -/
def HasPart (word : String) : Scope → Prop
  | all => False
  | api name => ∃ part ∈ pieces (· == '_') name.toList, upperCase part = word.toList

instance (word : String) : (scope : Scope) → Decidable (scope.HasPart word)
  | all => inferInstanceAs (Decidable False)
  | api name => inferInstanceAs
      (Decidable (∃ part ∈ pieces (· == '_') name.toList, upperCase part = word.toList))

/-- A name that starts with a word and an underscore has the word as a part. -/
theorem hasPart_of_startsWith {lead word name : String} (led : lead.toList = word.toList ++ ['_'])
    (upper : upperCase word.toList = word.toList) (plain : '_' ∉ word.toList)
    (start : lead.toList <+: name.toList) : (Scope.api name).HasPart word := by
  obtain ⟨rest, whole⟩ := start
  have apart : StandsApart (· == '_') word.toList name.toList :=
    ⟨[], '_' :: rest, by rw [← whole, led]; simp, nofun, by simp⟩
  have inside : ∀ c ∈ word.toList, (c == '_') = false := fun c member =>
    beq_false_of_ne (ne_of_mem_of_not_mem member plain)
  exact ⟨word.toList, mem_pieces_of_standsApart inside apart, upper⟩

theorem hasPart_of_platform_name {name : String} :
    ("WGL_".toList <+: name.toList → (Scope.api name).HasPart "WGL") ∧
      ("GLX_".toList <+: name.toList → (Scope.api name).HasPart "GLX") :=
  ⟨hasPart_of_startsWith (by decide) (by decide) (by decide),
    hasPart_of_startsWith (by decide) (by decide) (by decide)⟩

variable {scope : Scope}

/-- **What a gate looks for in the guard** is a part of the name of the API, whatever word it is
that no guard begins or ends with. -/
theorem holds_guard_iff (named : isWord scope.root.toList = true) {mark word : String}
    (marked : mark.toList = '_' :: (word.toList ++ ['_'])) (plain : '_' ∉ word.toList)
    (notRoot : word.toList ≠ "GLEX".toList) (notEnding : word.toList ≠ "H".toList) :
    holds mark.toList scope.guard.toList = true ↔ scope.HasPart word := by
  rw [holds_iff, marked, toList_guard named]
  cases scope with
  | all =>
    -- The guard of all APIs has one underscore only.
    refine iff_of_false (fun within => ?_) id
    have marks := within.sublist.count_le '_'
    have one : (upperCase all.root.toList ++ "_H".toList).count '_' = 1 := by decide
    rw [one, List.count_cons_self, List.count_append, List.count_singleton_self] at marks
    omega
  | api name =>
    have inWord : ∀ c ∈ name.toList, isWordChar c = true := by
      intro c member
      apply (isWord_iff.1 named).2
      rw [root, String.toList_append]
      exact List.mem_append_right _ member
    have opened : "GLEX_".toList = "GLEX".toList ++ ['_'] := by decide
    have whole : upperCase (Scope.api name).root.toList ++ "_H".toList =
        "GLEX".toList ++ '_' :: (upperCase name.toList ++ '_' :: "H".toList) := by
      rw [upperCase_root_api, opened]
      simp
    rw [whole, between_marks_infix_iff (by decide) (by decide) plain notRoot notEnding,
      mem_pieces_upperCase_iff inWord]
    rfl

end Scope

namespace Header

variable {table : ResolvedTable} {scope : Scope}

theorem conditionsAround_ignoreDirectives (mark : String) (scope : Scope)
    (around : List Condition) :
    conditionsAround scope.ignoreMacro around (ignoreDirectives mark scope) =
      if holds mark.toList scope.guard.toList then [around] else [] := by
  unfold ignoreDirectives
  split
  · rw [conditionsAround, if_pos rfl]
    rfl
  · rfl

/-- The conditionals around the ignore macro in one platform's part of the gate. -/
theorem conditionsAround_platformDirectives (platform mark : String) {defined : List Directive}
    (balanced : Balanced defined) (other : .defines scope.ignoreMacro ∉ defined)
    (around : List Condition) :
    conditionsAround scope.ignoreMacro around (platformDirectives platform mark scope defined) =
      if holds mark.toList scope.guard.toList then [.defined platform :: around] else [] := by
  have inside := balanced.append (balanced_ignoreDirectives mark scope)
  rw [platformDirectives, List.cons_append, inside.conditionsAround_enclosed,
    balanced.conditionsAround_append, conditionsAround_eq_nil_iff.2 other, List.nil_append,
    conditionsAround_ignoreDirectives]

/-- The ignore macro ends in another letter than what is defined in every header. -/
theorem ignoreMacro_ne_of_mem {known : String} (listed : known ∈ "GLEX_FUNC" :: gateMacros) :
    scope.ignoreMacro ≠ known := by
  have other : ∀ known ∈ "GLEX_FUNC" :: gateMacros, known.toList.getLast? ≠ some 'E' := by decide
  rintro rfl
  exact other _ listed scope.getLast?_ignoreMacro

theorem not_defines_of_fallback {known : String} (listed : known ∈ gateMacros) :
    .defines scope.ignoreMacro ∉ fallback known :=
  fun defined => ignoreMacro_ne_of_mem (List.mem_cons_of_mem _ listed) (defines_of_fallback defined)

/-- The conditionals around the ignore macro in the gate. -/
theorem conditionsAround_gateDirectives (named : isWord scope.root.toList = true)
    (around : List Condition) :
    conditionsAround scope.ignoreMacro around (gateDirectives scope) =
      (if holds "_WGL_".toList scope.guard.toList then [.defined "__linux" :: around] else []) ++
        if holds "_GLX_".toList scope.guard.toList then [.defined "_WIN32" :: around] else [] := by
  have loader := balanced_fallback "GLEX_GET_PROC_ADDRESS"
  have both := (balanced_fallback "WIN32_LEAN_AND_MEAN").append loader
  have linux := balanced_platformDirectives "__linux" "_WGL_" scope loader
  have windows := balanced_platformDirectives "_WIN32" "_GLX_" scope both
  have guard : Balanced [.defines scope.guard] := rfl
  have noLoader : .defines scope.ignoreMacro ∉ fallback "GLEX_GET_PROC_ADDRESS" :=
    not_defines_of_fallback (by decide)
  have neither : .defines scope.ignoreMacro ∉
      fallback "WIN32_LEAN_AND_MEAN" ++ fallback "GLEX_GET_PROC_ADDRESS" := by
    rw [List.mem_append, not_or]
    exact ⟨not_defines_of_fallback (by decide), noLoader⟩
  have notGuard : .defines scope.ignoreMacro ∉ [Directive.defines scope.guard] := by
    simpa using (Scope.guard_ne_ignoreMacro named).symm
  have elsewhere : .defines scope.ignoreMacro ∉ [Directive.opens (.missing "GLEX_GET_PROC_ADDRESS"),
      Directive.closes] ++ fallback "APIENTRY" := by
    rw [List.mem_append, not_or]
    exact ⟨by simp, not_defines_of_fallback (by decide)⟩
  rw [gateDirectives, ((guard.append linux).append windows).conditionsAround_append,
    (guard.append linux).conditionsAround_append, guard.conditionsAround_append,
    conditionsAround_eq_nil_iff.2 notGuard, conditionsAround_eq_nil_iff.2 elsewhere,
    conditionsAround_platformDirectives _ _ loader noLoader,
    conditionsAround_platformDirectives _ _ both neither, List.nil_append, List.append_nil]

/-- **The definitions of the ignore macro in a header**, each with the conditions around it. -/
theorem conditionsAround_fileDirectives (named : isWord scope.root.toList = true)
    (spaced : ∀ name ∈ names table scope, InNamespace name) (hasFunctions : Bool) :
    conditionsAround scope.ignoreMacro [] (fileDirectives table scope hasFunctions) =
      (if holds "_WGL_".toList scope.guard.toList
        then [[.defined "__linux", .missing scope.guard]] else []) ++
      if holds "_GLX_".toList scope.guard.toList
        then [[.defined "_WIN32", .missing scope.guard]] else [] := by
  have other : .defines scope.ignoreMacro ∉ ignoredDirectives table scope hasFunctions := by
    intro defined
    rcases defines_of_ignoredDirectives defined with own | enumerant
    · exact ignoreMacro_ne_of_mem List.mem_cons_self own
    · have own : scope.IsMacro scope.ignoreMacro := .inr rfl
      exact own.not_inNamespace named (spaced _ enumerant)
  rw [fileDirectives,
    (balanced_guardedDirectives table scope hasFunctions).conditionsAround_enclosed,
    guardedDirectives, (balanced_gateDirectives scope).conditionsAround_append,
    conditionsAround_gateDirectives named, conditionsAround_eq_nil_iff.2 other, List.append_nil]

end Header

namespace Artifact

/-- The header of a scope defines the ignore macro of the scope in the conditional of a platform,
which is in that of the guard. -/
def SetAsideOn (header : Artifact) (platform : String) (scope : Scope) : Prop :=
  [.defined platform, .missing scope.guard] ∈
    conditionsAround scope.ignoreMacro [] (directives header.contents)

/-- The platforms on which a header is passed over are told by the parts of its name. -/
structure SetAsideByName (header : Artifact) (scope : Scope) : Prop where
  linux : header.SetAsideOn "__linux" scope ↔ scope.HasPart "WGL"
  windows : header.SetAsideOn "_WIN32" scope ↔ scope.HasPart "GLX"
  /-- The ignore macro is defined in the conditionals of these platforms only. -/
  only : ∀ around ∈ conditionsAround scope.ignoreMacro [] (directives header.contents),
    around = [.defined "__linux", .missing scope.guard] ∨
      around = [.defined "_WIN32", .missing scope.guard]

variable {enums : ResolvedTable} {functions : FunctionTable} {scope : Scope}

/-- **Each header is set aside by the name of its scope.** -/
theorem setAsideByName_of_mem (legible : Legible enums functions) {header : Artifact}
    (member : header ∈ ofScope enums functions scope) (kind : header.kind = .header) :
    header.SetAsideByName scope := by
  have named := isWord_root_of_mem legible member
  have wgl : holds "_WGL_".toList scope.guard.toList = true ↔ scope.HasPart "WGL" :=
    Scope.holds_guard_iff named (by decide) (by decide) (by decide) (by decide)
  have glx : holds "_GLX_".toList scope.guard.toList = true ↔ scope.HasPart "GLX" :=
    Scope.holds_guard_iff named (by decide) (by decide) (by decide) (by decide)
  have listed (around : List Condition) :
      around ∈ conditionsAround scope.ignoreMacro [] (directives header.contents) ↔
        scope.HasPart "WGL" ∧ around = [.defined "__linux", .missing scope.guard] ∨
          scope.HasPart "GLX" ∧ around = [.defined "_WIN32", .missing scope.guard] := by
    rw [(lines_of_mem legible member).2, kind, fileDirectives,
      Header.conditionsAround_fileDirectives named (inNamespace_of_mem_names legible),
      List.mem_append, List.mem_ite_nil_right, List.mem_ite_nil_right, List.mem_singleton,
      List.mem_singleton, wgl, glx]
  have apart : Condition.defined "__linux" ≠ .defined "_WIN32" := by decide
  refine ⟨?linux, ?windows, ?only⟩
  case linux =>
    rw [SetAsideOn, listed]
    refine ⟨?_, fun part => .inl ⟨part, rfl⟩⟩
    rintro (⟨part, -⟩ | ⟨-, same⟩)
    · exact part
    · exact absurd (List.cons.inj same).1 apart
  case windows =>
    rw [SetAsideOn, listed]
    refine ⟨?_, fun part => .inr ⟨part, rfl⟩⟩
    rintro (⟨-, same⟩ | ⟨part, -⟩)
    · exact absurd (List.cons.inj same).1 apart.symm
    · exact part
  case only => exact fun around member => ((listed around).1 member).imp And.right And.right

end Artifact

/-- The platform that has no use for the vendor categories of a dialect. -/
def Dialect.otherPlatform : Dialect → Option String
  | core => none
  | wgl => some "__linux"
  | glx => some "_WIN32"

/-- **Vendor categories are set aside** on the platform that has no use for them. -/
theorem Artifact.setAsideOn_of_vendor {enums : ResolvedTable} {functions : FunctionTable}
    (legible : Legible enums functions) {dialect : Dialect} {platform category : String}
    (other : dialect.otherPlatform = some platform) (vendor : StartsWithVendor category)
    {header : Artifact}
    (member : header ∈ ofScope enums functions (.api (FunctionTable.filedUnder dialect category)))
    (kind : header.kind = .header) :
    header.SetAsideOn platform (.api (FunctionTable.filedUnder dialect category)) := by
  have byName := setAsideByName_of_mem legible member kind
  cases dialect with
  | core => cases other
  | wgl =>
    cases other
    have led : "WGL_".toList <+: (FunctionTable.filedUnder .wgl category).toList := by
      rw [FunctionTable.filedUnder, if_pos vendor, String.toList_append]
      exact List.prefix_append _ _
    exact byName.linux.2 (Scope.hasPart_of_platform_name.1 led)
  | glx =>
    cases other
    have led : "GLX_".toList <+: (FunctionTable.filedUnder .glx category).toList := by
      rw [FunctionTable.filedUnder, if_pos vendor, String.toList_append]
      exact List.prefix_append _ _
    exact byName.windows.2 (Scope.hasPart_of_platform_name.2 led)

/-- Each API of a function spec is the category that a line of the spec gives. -/
theorem FunctionTable.exists_category_of_parse (source : String) (types : TypeMap) :
    ∀ group ∈ (parse source types).entries, ∃ category type modifiers,
      .field "category" category type modifiers ∈ shapes source ∧
        group.1 = filedUnder (dialectOf source) category := by
  rintro ⟨api, records⟩ member
  rw [parse_eq_collect] at member
  obtain ⟨nonempty, given⟩ := OrderedMap.mem_entries_collect member
  obtain ⟨record, inside⟩ := List.exists_mem_of_ne_nil records nonempty
  obtain ⟨name, block, last, filed, -⟩ := mem_kept_iff.1 (given record inside)
  obtain ⟨field, listed, rfl⟩ := Option.map_eq_some_iff.1 filed
  obtain ⟨line, within, read⟩ := List.mem_filterMap.1 (List.mem_of_getLast? listed)
  have own := (mem_of_mem_cutAtHeaders (mem_of_lastBlock? last)).2 line within
  cases line with
  | directive => cases read
  | header other => cases read
  | field key value type modifiers =>
    rw [field?] at read
    split at read
    · rename_i same
      cases read
      exact ⟨value, type, modifiers, same ▸ own, rfl⟩
    · cases read

end ExtensionLoader
