import ExtensionLoader.Proofs.Artifact.FunctionTable
import ExtensionLoader.Proofs.Artifact.Header
import ExtensionLoader.Proofs.Artifact.Names

/-! # What generated files include

Generated files include each other by quoted names. The shared header and a function table include
nothing, a header includes the shared header and, if it declares the loader, the function table
(`Header.including_fileLines`), and init code includes the header and the function table
(`InitCode.including_fileLines`). A file is read part by part: `Including` says of some lines what
they include, and that they stay lines in a text.
-/

namespace ExtensionLoader

open Text

/-- The name that a line includes in quotes. -/
def quotedInclude? (line : List Char) : Option String :=
  let text := trimStart line
  if "#include".toList.isPrefixOf text then
    match trimStart (text.drop "#include".length) with
    | '"' :: behind => (cutFirst '"' behind).map fun cut => String.ofList cut.1
    | _ => none
  else none

/-- The names that the lines of a text include in quotes, in order. -/
def quotedIncludes (text : String) : List String := (Text.lines text).filterMap quotedInclude?

/-- A beginning that no line with an inclusion has. -/
def StartsOther (front : List Char) : Prop :=
  trimStart front ≠ [] ∧ ¬ trimStart front <+: "#include".toList ∧
    ¬ "#include".toList <+: trimStart front

instance (front : List Char) : Decidable (StartsOther front) := inferInstanceAs (Decidable (_ ∧ _))

/-- A line that starts otherwise includes nothing, whatever follows. -/
theorem quotedInclude?_append_eq_none {front : List Char} (other : StartsOther front)
    (back : List Char) : quotedInclude? (front ++ back) = none := by
  obtain ⟨nonempty, notWithin, notBehind⟩ := other
  have start : trimStart (front ++ back) = trimStart front ++ back := by
    rw [trimStart, List.dropWhile_append, if_neg]
    · rfl
    · rwa [List.isEmpty_iff]
  rw [quotedInclude?, start, if_neg]
  rw [List.isPrefixOf_iff_prefix]
  intro includes
  rcases List.prefix_or_prefix_of_prefix (List.prefix_append (trimStart front) back) includes with
    within | behind
  · exact notWithin within
  · exact notBehind behind

theorem quotedInclude?_eq_none {front : List Char} (other : StartsOther front)
    (back : String) : quotedInclude? (String.ofList front ++ back).toList = none := by
  rw [String.toList_append, String.toList_ofList]
  exact quotedInclude?_append_eq_none other _

/-- Lines that can stand in a file, with the names that they include. -/
structure Including (lines names : List String) : Prop where
  physical : ∀ line ∈ lines, IsPhysicalLine line.toList
  named : (lines.map String.toList).filterMap quotedInclude? = names

namespace Including

variable {first second names more : List String}

theorem quotedIncludes_text (including : Including first names) :
    quotedIncludes (Artifact.text first) = names := by
  rw [quotedIncludes, Artifact.lines_text including.physical, including.named]

theorem append (front : Including first names) (back : Including second more) :
    Including (first ++ second) (names ++ more) where
  physical := List.forall_mem_append.2 ⟨front.physical, back.physical⟩
  named := by rw [List.map_append, List.filterMap_append, front.named, back.named]

/-- Lines without inclusions may stand before. -/
theorem behind (front : Including first []) (back : Including second names) :
    Including (first ++ second) names :=
  front.append back

/-- Lines without inclusions may stand behind. -/
theorem before (front : Including first names) (back : Including second []) :
    Including (first ++ second) names := by
  have whole := front.append back
  rwa [List.append_nil] at whole

end Including

/-- A line without an inclusion. -/
def IsPlainLine (line : String) : Prop :=
  IsPhysicalLine line.toList ∧ quotedInclude? line.toList = none

instance (line : String) : Decidable (IsPlainLine line) := inferInstanceAs (Decidable (_ ∧ _))

/-- A literal is made of its characters, so that nothing has to decode it. -/
theorem isPlainLine_ofList {line : List Char}
    (plain : IsPhysicalLine line ∧ quotedInclude? line = none) :
    IsPlainLine (String.ofList line) := by
  rwa [IsPlainLine, String.toList_ofList]

/-- Plain lines include nothing. -/
theorem including_plain {lines : List String} (plain : ∀ line ∈ lines, IsPlainLine line) :
    Including lines [] := by
  refine ⟨fun line member => (plain line member).1, List.filterMap_eq_nil_iff.2 ?_⟩
  rw [List.forall_mem_map]
  exact fun line member => (plain line member).2

theorem including_nil : Including [] [] := ⟨by simp, rfl⟩

theorem Including.cons {line : String} {rest names : List String} (plain : IsPlainLine line)
    (back : Including rest names) : Including (line :: rest) names :=
  (including_plain (List.forall_mem_singleton.2 plain)).behind back

/-- A word in a line that does not start like an inclusion. -/
theorem isPlainLine_word {front back : List Char} {word : String} (noFeed : '\n' ∉ front)
    (isWord : isWord word.toList = true) (physical : IsPhysicalLine back)
    (other : quotedInclude? (front ++ (word.toList ++ back)) = none) :
    IsPlainLine (String.ofList front ++ word ++ String.ofList back) := by
  have plain := isPhysicalLine_word isWord
  rw [IsPlainLine, String.toList_append, String.toList_append, List.append_assoc,
    String.toList_ofList, String.toList_ofList]
  refine ⟨IsPhysicalLine.append_left ?_ noFeed
    (List.append_ne_nil_of_left_ne_nil (isWord_ne_nil isWord) _), other⟩
  by_cases nothing : back = []
  · rwa [nothing, List.append_nil]
  · exact physical.append_left plain.1 nothing

/-- A word between a fixed front and the rest of a line leaves the line plain. -/
theorem isPlainLine_word_behind {front back : List Char} {word : String}
    (other : StartsOther front ∧ '\n' ∉ front) (isWord : isWord word.toList = true)
    (physical : IsPhysicalLine back) :
    IsPlainLine (String.ofList front ++ word ++ String.ofList back) :=
  isPlainLine_word other.2 isWord physical (quotedInclude?_append_eq_none other.1 _)

/-- A word at the end of a line leaves the line plain. -/
theorem isPlainLine_last_word {front : List Char} {word : String}
    (other : StartsOther front ∧ '\n' ∉ front) (isWord : isWord word.toList = true) :
    IsPlainLine (String.ofList front ++ word) := by
  have whole : IsPlainLine (String.ofList front ++ word ++ "") :=
    isPlainLine_word_behind other isWord (by decide)
  rwa [String.append_empty] at whole

/-- A line that includes a file by its name. -/
theorem including_file {front name : String} {indent : List Char} (blank : AllBlank indent)
    (start : front.toList = indent ++ "#include \"".toList) (noFeed : '\n' ∉ front.toList)
    (nameFeed : '\n' ∉ name.toList) (noQuote : '"' ∉ name.toList) :
    Including [front ++ name ++ "\""] [name] := by
  have line : (front ++ name ++ "\"").toList =
      indent ++ ("#include ".toList ++ '"' :: (name.toList ++ ['"'])) := by
    have opened : "#include \"".toList = "#include ".toList ++ ['"'] := by decide +kernel
    rw [String.toList_append, String.toList_append, start, opened, List.append_assoc,
      List.append_assoc, List.append_assoc]
    rfl
  have text : trimStart (front ++ name ++ "\"").toList =
      "#include ".toList ++ '"' :: (name.toList ++ ['"']) := by
    rw [line, trimStart_append blank]
    rfl
  refine ⟨List.forall_mem_singleton.2 ?_, ?_⟩
  · rw [String.toList_append, String.toList_append]
    refine IsPhysicalLine.append_left (by decide) ?_ (by decide)
    rw [List.mem_append, not_or]
    exact ⟨noFeed, nameFeed⟩
  · have read : quotedInclude? (front ++ name ++ "\"").toList = some name := by
      rw [quotedInclude?, text]
      change (cutFirst '"' (name.toList ++ ['"'])).map _ = _
      rw [cutFirst_append noQuote, Option.map_some, String.ofList_toList]
    rw [List.map_singleton, List.filterMap_cons_some read]
    rfl

variable {scope : Scope}

/-- The line that includes a file of the scope. -/
theorem including_fileName (named : isWord scope.root.toList = true) (kind : ArtifactKind) :
    Including ["#include \"" ++ scope.fileName kind ++ "\""] [scope.fileName kind] := by
  obtain ⟨noFeed, noQuote⟩ := scope.plain_fileName named kind
  have unindented : AllBlank [] := by decide
  exact including_file unindented rfl (by decide) noFeed noQuote

/-- The indented line that includes a file of the scope. -/
theorem including_indented_fileName (named : isWord scope.root.toList = true)
    (kind : ArtifactKind) :
    Including ["    #include \"" ++ scope.fileName kind ++ "\""] [scope.fileName kind] := by
  obtain ⟨noFeed, noQuote⟩ := scope.plain_fileName named kind
  have indented : AllBlank "    ".toList := by decide
  exact including_file indented rfl (by decide) noFeed noQuote

/-- The shared header includes nothing by a quoted name. -/
theorem including_globals : Including Globals.lines [] := by
  unfold Globals.lines
  repeat refine .cons (isPlainLine_ofList (by decide +kernel)) ?_
  exact including_nil

theorem quotedIncludes_globals : quotedIncludes Globals.contents = [] :=
  including_globals.quotedIncludes_text

namespace Header

theorem isPlainLine_ignoreMacro (named : isWord scope.root.toList = true) {front : List Char}
    (other : StartsOther front ∧ '\n' ∉ front) :
    IsPlainLine (String.ofList front ++ scope.ignoreMacro) :=
  isPlainLine_last_word other (scope.isWord_ignoreMacro named)

/-- A line that ends in the guard is plain. -/
theorem isPlainLine_guard (named : isWord scope.root.toList = true) {front : List Char}
    (other : StartsOther front ∧ '\n' ∉ front) :
    IsPlainLine (String.ofList front ++ scope.guard) :=
  isPlainLine_last_word other (scope.isWord_guard named)

/-- The lines that switch a scope off include nothing. -/
theorem including_ignoreLines (named : isWord scope.root.toList = true) {mark remark : String}
    (plain : IsPlainLine ("    // " ++ remark)) : Including (ignoreLines mark remark scope) [] := by
  unfold ignoreLines
  split
  · exact .cons (by decide) (.cons plain
      (.cons (isPlainLine_ignoreMacro named (by decide)) including_nil))
  · exact including_nil

/-- A header's opening includes the shared header. -/
theorem including_openingLines (named : isWord scope.root.toList = true) :
    Including (openingLines scope) [Globals.file] := by
  have start : Including ["#ifndef " ++ scope.guard, "#define " ++ scope.guard, ""] [] :=
    .cons (isPlainLine_guard named (by decide))
      (.cons (isPlainLine_guard named (by decide)) (including_plain (by decide)))
  have linux : Including (linuxLines scope) [] := by
    refine (Including.behind ?_ (including_ignoreLines named (by decide +kernel))).behind
      (including_plain (by decide +kernel))
    repeat refine .cons (isPlainLine_ofList (by decide +kernel)) ?_
    exact including_nil
  have windows : Including (windowsLines scope) [] := by
    refine (Including.behind ?_ (including_ignoreLines named (by decide +kernel))).behind
      (including_plain (by decide +kernel))
    repeat refine .cons (isPlainLine_ofList (by decide +kernel)) ?_
    exact including_nil
  have elsewhere : Including elsewhereLines [] := by
    refine .cons (isPlainLine_ofList (by decide +kernel)) (.cons (by decide +kernel) ?_)
    repeat refine .cons (isPlainLine_ofList (by decide +kernel)) ?_
    exact including_nil
  have gate : IsPlainLine ("#ifndef " ++ scope.ignoreMacro) :=
    isPlainLine_ignoreMacro named (by decide)
  have shared : Including ["", "#include <GL/gl.h>", "#include \"" ++ Globals.file ++ "\"", ""]
      [Globals.file] := ⟨by decide +kernel, by decide +kernel⟩
  exact (((start.behind linux).behind windows).behind elsewhere).behind (.cons gate shared)

/-- The defines of an API are plain. -/
theorem isPlainLine_of_mem_defineLines {group : String × OrderedMap String String}
    (words : GroupOfWords group) : ∀ line ∈ defineLines group, IsPlainLine line := by
  have other : ∀ line ∈ defineLines group, quotedInclude? line.toList = none := by
    rw [defineLines_eq, List.forall_mem_cons, forall_mem_underApi]
    refine ⟨?_, ?_, by decide⟩
    · exact quotedInclude?_eq_none (by decide) _
    · intro entry _
      rw [defineLine, String.append_assoc, String.append_assoc]
      exact quotedInclude?_eq_none (by decide) _
  exact fun line member => ⟨isPhysicalLine_defineLines words line member, other line member⟩

/-- The loader includes the scope's function table. -/
theorem including_loaderLines (named : isWord scope.root.toList = true) :
    Including (loaderLines scope) [scope.functionsFile] := by
  have start : Including ["#ifdef __cplusplus", "extern \"C\"", "\x7b", "#endif", ""] [] :=
    including_plain (by decide +kernel)
  have init : IsPlainLine ("extern GLboolean " ++ scope.initFunction ++ "(void);") :=
    isPlainLine_word_behind (by decide) (scope.isWord_initFunction named) (by decide)
  have flag : IsPlainLine ("extern GLboolean " ++ scope.root ++ ";") :=
    isPlainLine_word_behind (by decide) named (by decide)
  have pointers : Including ["", "// List the pointer prototypes for all functions of this API.",
      "#define GLEX_FUNC(t,n,a) extern t (APIENTRY *GLEX_##n) a"] [] :=
    including_plain (by decide +kernel)
  have table := including_indented_fileName named .functionTable
  have ending : Including ["#undef GLEX_FUNC", "", "#ifdef __cplusplus", "\x7d // extern \"C\"",
      "#endif", ""] [] := including_plain (by decide +kernel)
  exact start.behind (.cons init (.cons flag (pointers.behind (table.before ending))))

/-- A header's closing includes the function table, when there is one. -/
theorem including_closingLines (named : isWord scope.root.toList = true) (hasFunctions : Bool) :
    Including (closingLines scope hasFunctions)
      (if hasFunctions then [scope.functionsFile] else []) := by
  have gates : Including
      ["#endif // " ++ scope.ignoreMacro, "", "#endif // " ++ scope.guard] [] :=
    .cons (isPlainLine_ignoreMacro named (by decide)) (.cons (by decide)
      (.cons (isPlainLine_guard named (by decide)) including_nil))
  cases hasFunctions with
  | false => exact gates
  | true => exact (including_loaderLines named).before gates

/-- A header includes the shared header and, if it declares the loader, the function table. -/
theorem including_fileLines {table : ResolvedTable} (named : isWord scope.root.toList = true)
    (words : ∀ group ∈ groups table scope, GroupOfWords group) (hasFunctions : Bool) :
    Including (fileLines scope (bodyLines table scope hasFunctions))
      (Globals.file :: if hasFunctions then [scope.functionsFile] else []) := by
  have defined : Including ((groups table scope).flatMap defineLines) [] := by
    apply including_plain
    intro line member
    obtain ⟨group, listed, inside⟩ := List.mem_flatMap.1 member
    exact isPlainLine_of_mem_defineLines (words group listed) line inside
  rw [fileLines_bodyLines]
  exact ((including_openingLines named).before defined).append
    (including_closingLines named hasFunctions)

end Header

/-- Init code includes the header, and the function table twice. -/
theorem InitCode.including_fileLines (named : isWord scope.root.toList = true) :
    Including (fileLines scope) [scope.headerFile, scope.functionsFile, scope.functionsFile] := by
  have header := including_fileName named .header
  have table := including_indented_fileName named .functionTable
  have ignored {front : List Char} (other : StartsOther front ∧ '\n' ∉ front) :=
    Header.isPlainLine_ignoreMacro named other
  have gate : Including ["", "#ifndef " ++ scope.ignoreMacro, "",
      "// Initialize all function pointers to 0.",
      "#define GLEX_FUNC(t,n,a) t (APIENTRY *GLEX_##n) a=0"] [] :=
    .cons (by decide) (.cons (ignored (by decide)) (including_plain (by decide +kernel)))
  have cleared : IsPlainLine ("GLboolean " ++ scope.root ++ "=GL_FALSE;") :=
    isPlainLine_word_behind (by decide) named (by decide)
  have opened : IsPlainLine ("GLboolean " ++ scope.initFunction ++ "(void)") :=
    isPlainLine_word_behind (by decide) (scope.isWord_initFunction named) (by decide)
  have raised : IsPlainLine ("    " ++ scope.root ++ "=GL_TRUE;") := by
    -- Nothing but blanks stands before the word here, so its own first letters have to decide.
    apply isPlainLine_word (by decide) named (by decide)
    obtain ⟨rest, start⟩ := scope.startsWith_root
    rw [← start, List.append_assoc, ← List.append_assoc]
    exact quotedInclude?_append_eq_none (by decide) _
  have looked : IsPlainLine ("#define GLEX_FUNC(t,n,a) " ++ scope.root ++
      "&=((*((void**)&GLEX_##n)=(void*)GLEX_GET_PROC_ADDRESS(#n))!=0)") :=
    isPlainLine_word_behind (by decide) named (by decide +kernel)
  have returned : IsPlainLine ("    return " ++ scope.root ++ ";") :=
    isPlainLine_word_behind (by decide) named (by decide)
  have defined : Including ["#undef GLEX_FUNC", "", "GLboolean " ++ scope.root ++ "=GL_FALSE;", "",
      "// Get the addresses for all functions of this API.",
      "GLboolean " ++ scope.initFunction ++ "(void)", "\x7b", "    " ++ scope.root ++ "=GL_TRUE;",
      "", "#define GLEX_FUNC(t,n,a) " ++ scope.root ++
        "&=((*((void**)&GLEX_##n)=(void*)GLEX_GET_PROC_ADDRESS(#n))!=0)"] [] :=
    .cons (by decide) (.cons (by decide) (.cons cleared (.cons (by decide) (.cons
      (by decide +kernel) (.cons opened (.cons (by decide) (.cons raised (.cons (by decide)
        (.cons looked including_nil)))))))))
  have ending : Including ["#undef GLEX_FUNC", "", "    return " ++ scope.root ++ ";", "\x7d", "",
      "#endif // " ++ scope.ignoreMacro] [] :=
    .cons (by decide) (.cons (by decide) (.cons returned (.cons (by decide) (.cons (by decide)
      (.cons (ignored (by decide)) including_nil)))))
  exact header.append (gate.behind (table.append (defined.behind (table.before ending))))

/-- The lines of a function include nothing. -/
theorem FunctionTable.quotedInclude?_of_mem_recordLines (columns : Columns)
    (record : FunctionRecord) :
    ∀ line ∈ recordLines columns record, quotedInclude? line.toList = none := by
  rw [forall_mem_recordLines]
  refine ⟨?_, ?_, ?_, by decide⟩
  · obtain ⟨first, second, -, -, line⟩ := exists_entryLine_eq columns record
    rw [line]
    exact quotedInclude?_append_eq_none (by decide) _
  · exact quotedInclude?_eq_none (by decide) _
  · have line : aliasLine columns record = "    #define " ++
        (padRight columns.nameWidth record.name ++ (" GLEX_" ++ record.name)) := by
      unfold aliasLine
      rw [String.append_assoc, String.append_assoc]
    rw [line]
    exact quotedInclude?_eq_none (by decide) _

/-- A function table includes nothing. -/
theorem FunctionTable.including_fileLines {groups : List (String × List FunctionRecord)}
    (wellFormed : ∀ group ∈ groups, GroupWellFormed group) : Including (fileLines groups) [] := by
  apply including_plain
  intro line member
  refine ⟨isPhysicalLine_fileLines wellFormed line member, ?_⟩
  rcases mem_intercalate member with between | ⟨part, listed, inside⟩
  · cases List.mem_singleton.1 between
    decide
  · obtain ⟨group, given, rfl⟩ := List.mem_map.1 listed
    rcases List.mem_cons.1 inside with rfl | behind
    · exact quotedInclude?_eq_none (by decide) _
    · obtain ⟨record, -, own⟩ := List.mem_flatMap.1 behind
      exact quotedInclude?_of_mem_recordLines _ record line own

end ExtensionLoader
