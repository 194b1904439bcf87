import ExtensionLoader.Proofs.Artifact.Coherence
import ExtensionLoader.Proofs.Enumerant.Namespace

/-! # The directives of generated files

A line of a generated file may be a directive: it opens or closes a conditional, defines or
undefines a macro, or includes a file by a quoted name. What the specs give is in no line the
beginning, so no API, enumerant or function makes a directive of its own, and each file has exactly
the directives that its parts are written with (`FunctionTable.directing_fileLines`,
`Header.directing_bodyLines`, `InitCode.directing_fileLines`).
-/

namespace ExtensionLoader

open Text

/-- What a conditional asks of a macro. -/
inductive Condition
  | defined (name : String)
  | missing (name : String)
deriving DecidableEq

/-- What the preprocessor acts on: a conditional's start and end, definitions and inclusions. -/
inductive Directive
  | opens (condition : Condition)
  | closes
  | defines (name : String)
  | undefines (name : String)
  | includes (file : String)
deriving DecidableEq

/-- A macro is defined, unless it is there already. -/
def fallback (name : String) : List Directive :=
  [.opens (.missing name), .defines name, .closes]

/-- What stands behind a keyword at the start of a text. -/
def behindKeyword? (keyword : String) (text : List Char) : Option (List Char) :=
  if keyword.toList.isPrefixOf text then some (text.drop keyword.length) else none

/-- The word that a text starts with behind its blanks. -/
def firstWord (text : List Char) : String := String.ofList (splitWord (trimStart text)).1

/-- The directive of a line, behind the blanks that it starts with. -/
def directive? (line : List Char) : Option Directive :=
  let text := trimStart line
  if let some rest := behindKeyword? "#ifdef" text then some (.opens (.defined (firstWord rest)))
  else if let some rest := behindKeyword? "#ifndef" text then
    some (.opens (.missing (firstWord rest)))
  else if (behindKeyword? "#endif" text).isSome then some .closes
  else if let some rest := behindKeyword? "#define" text then some (.defines (firstWord rest))
  else if let some rest := behindKeyword? "#undef" text then some (.undefines (firstWord rest))
  else (quotedInclude? line).map .includes

/-- The first word behind a blank. -/
theorem firstWord_blank_word {word : String} (isWord : isWord word.toList = true)
    {rest : List Char} (ends : ∀ c ∈ rest.head?, isWordChar c = false) :
    firstWord (' ' :: (word.toList ++ rest)) = word := by
  have gap : AllBlank [' '] := by decide
  have start := trimStart_append gap (word.toList ++ rest)
  rw [trimStart_eq_self (isBlank_head?_word_append isWord rest), List.singleton_append] at start
  rw [firstWord, start, splitWord_word_append (isWord_iff.1 isWord).2 ends, String.ofList_toList]

/-- The beginning of a line may tell its directive. -/
theorem directive?_front {front : List Char} {directive : Option Directive}
    (known : ∀ text, directive? (front ++ text) = directive) (back : String) :
    directive? (String.ofList front ++ back).toList = directive := by
  rw [String.toList_append, String.toList_ofList, known]

section Word

variable (make : String → Directive) {front : List Char} {word : String}
  (known : ∀ text, directive? (front ++ text) = some (make (firstWord (' ' :: text))))
  (isWord : isWord word.toList = true)
include known isWord

/-- A keyword and a blank before a word. -/
theorem directive?_word_append {back : List Char} (ends : ∀ c ∈ back.head?, isWordChar c = false) :
    directive? (front ++ (word.toList ++ back)) = some (make word) := by
  rw [known, firstWord_blank_word isWord ends]

theorem directive?_word : directive? (String.ofList front ++ word).toList = some (make word) := by
  have whole : directive? (front ++ (word.toList ++ [])) = some (make word) :=
    directive?_word_append make known isWord nofun
  rw [List.append_nil] at whole
  rwa [String.toList_append, String.toList_ofList]

/-- The word may stand in a column of any width. -/
theorem directive?_padded (width : Nat) (tail : List Char) (behind : String) :
    directive? (String.ofList front ++ padRight width word ++ String.ofList (' ' :: tail) ++
      behind).toList = some (make word) := by
  obtain ⟨gap, blank, padded⟩ := exists_padRight_eq width word
  have ends : ∀ c ∈ (gap ++ (' ' :: tail ++ behind.toList)).head?, isWordChar c = false := by
    intro c head
    cases gap with
    | nil =>
      cases head
      rfl
    | cons d rest =>
      cases head
      exact isWordChar_of_isBlank (blank c List.mem_cons_self)
  have whole := directive?_word_append make known isWord ends
  simpa only [String.toList_append, String.toList_ofList, padded, List.append_assoc] using whole

end Word

theorem directive?_opens_missing {name : String} (isWord : isWord name.toList = true) :
    directive? ("#ifndef " ++ name).toList = some (.opens (.missing name)) :=
  directive?_word (fun name => .opens (.missing name)) (fun _ => rfl) isWord

theorem directive?_defines {name : String} (isWord : isWord name.toList = true) :
    directive? ("#define " ++ name).toList = some (.defines name) :=
  directive?_word .defines (fun _ => rfl) isWord

theorem directive?_closes (remark : String) :
    directive? ("#endif // " ++ remark).toList = some .closes :=
  directive?_front (fun _ => rfl) remark

/-- A line that includes a file is that inclusion. -/
theorem directive?_of_including {front : List Char} {name back : String}
    (known : ∀ text, directive? (front ++ text) = (quotedInclude? (front ++ text)).map .includes)
    (including : Including [String.ofList front ++ name ++ back] [name]) :
    directive? (String.ofList front ++ name ++ back).toList = some (.includes name) := by
  have named := including.named ▸ List.mem_singleton_self name
  obtain ⟨line, listed, read⟩ := List.mem_filterMap.1 named
  cases List.mem_singleton.1 listed
  rw [String.append_assoc, String.toList_append, String.toList_ofList] at read ⊢
  rw [known, read]
  rfl

/-- Lines with their directives in order. -/
def Directing (lines : List String) (directives : List Directive) : Prop :=
  (lines.map String.toList).filterMap directive? = directives

namespace Artifact

/-- The directives of a text in order. -/
def directives (text : String) : List Directive := (Text.lines text).filterMap directive?

end Artifact

namespace Directing

variable {first second rest : List String} {directives more : List Directive}

theorem nil : Directing [] [] := rfl

theorem skip {line : String} (other : directive? line.toList = none)
    (behind : Directing rest directives) : Directing (line :: rest) directives :=
  (List.filterMap_cons_none other).trans behind

theorem read {line : String} {directive : Directive}
    (own : directive? line.toList = some directive) (behind : Directing rest directives) :
    Directing (line :: rest) (directive :: directives) :=
  (List.filterMap_cons_some own).trans (congrArg (directive :: ·) behind)

/-- A literal is made of its characters, so that nothing has to decode it. -/
theorem readLiteral {line : List Char} {directive : Directive}
    (own : directive? line = some directive) (behind : Directing rest directives) :
    Directing (String.ofList line :: rest) (directive :: directives) :=
  read (by rwa [String.toList_ofList]) behind

theorem skipLiteral {line : List Char} (other : directive? line = none)
    (behind : Directing rest directives) : Directing (String.ofList line :: rest) directives :=
  skip (by rwa [String.toList_ofList]) behind

theorem append (front : Directing first directives) (back : Directing second more) :
    Directing (first ++ second) (directives ++ more) := by
  rw [Directing, List.map_append, List.filterMap_append, front, back]

/-- The directives of parts in a row are those of each, in order. -/
theorem flatMap {α : Type} {lines : α → List String} {given : α → List Directive}
    {items : List α} (each : ∀ item ∈ items, Directing (lines item) (given item)) :
    Directing (items.flatMap lines) (items.flatMap given) := by
  induction items with
  | nil => rfl
  | cons item others ih =>
    rw [List.forall_mem_cons] at each
    exact each.1.append (ih each.2)

theorem directives_text (directing : Directing first directives)
    (physical : ∀ line ∈ first, IsPhysicalLine line.toList) :
    Artifact.directives (Artifact.text first) = directives := by
  rw [Artifact.directives, Artifact.lines_text physical, directing]

theorem mem_of_directive? (directing : Directing first directives) {line : String}
    (member : line ∈ first) {directive : Directive}
    (own : directive? line.toList = some directive) : directive ∈ directives := by
  rw [← directing]
  exact List.mem_filterMap.2 ⟨line.toList, List.mem_map_of_mem member, own⟩

end Directing

namespace FunctionTable

/-- The lines of a function give its fallback. -/
theorem directing_recordLines (columns : Columns) {record : FunctionRecord}
    (isWord : isWord record.name.toList = true) :
    Directing (recordLines columns record) (fallback record.name) := by
  have entry : directive? (entryLine columns record).toList = none := by
    obtain ⟨first, second, -, -, line⟩ := exists_entryLine_eq columns record
    rw [line]
    rfl
  have named : directive? (aliasLine columns record).toList = some (.defines record.name) :=
    directive?_padded .defines (fun _ => rfl) isWord columns.nameWidth _ record.name
  exact .skip entry (.read (directive?_opens_missing isWord)
    (.read named (.readLiteral rfl .nil)))

/-- The block of an API gives the fallback of each function. -/
theorem directing_groupLines (columns : Columns) {group : String × List FunctionRecord}
    (wellFormed : GroupWellFormed group) :
    Directing (groupLines columns group) (group.2.flatMap fun record => fallback record.name) := by
  have remark : directive? ("// " ++ group.1).toList = none :=
    directive?_front (fun _ => rfl) group.1
  exact .skip remark (.flatMap fun record member =>
    directing_recordLines columns (wellFormed.records record member).name)

/-- Each function is given its plain name, unless that is a macro already. -/
def fileDirectives (groups : List (String × List FunctionRecord)) : List Directive :=
  groups.flatMap fun group => group.2.flatMap fun record => fallback record.name

/-- **The directives of a function table** are those of its functions, in order. -/
theorem directing_fileLines {groups : List (String × List FunctionRecord)}
    (wellFormed : ∀ group ∈ groups, GroupWellFormed group) :
    Directing (fileLines groups) (fileDirectives groups) := by
  unfold fileLines fileDirectives
  dsimp only
  -- The columns are as wide as all groups ask for, whichever of them the induction is at.
  generalize Columns.ofRecords (groups.flatMap Prod.snd) = columns
  induction groups with
  | nil => rfl
  | cons group rest ih =>
    rw [List.forall_mem_cons] at wellFormed
    have own := directing_groupLines columns wellFormed.1
    cases rest with
    | nil => simpa using own
    | cons next later =>
      rw [List.map_cons, List.map_cons, List.intercalate_cons_cons, List.append_assoc]
      exact own.append (.skip rfl (ih wellFormed.2))

end FunctionTable

variable {scope : Scope}

theorem directive?_fileName (named : isWord scope.root.toList = true) (kind : ArtifactKind) :
    directive? ("#include \"" ++ scope.fileName kind ++ "\"").toList =
      some (.includes (scope.fileName kind)) := by
  refine directive?_of_including ?_ (including_fileName named kind)
  exact fun _ => rfl

theorem directive?_indented_fileName (named : isWord scope.root.toList = true)
    (kind : ArtifactKind) :
    directive? ("    #include \"" ++ scope.fileName kind ++ "\"").toList =
      some (.includes (scope.fileName kind)) := by
  refine directive?_of_including ?_ (including_indented_fileName named kind)
  exact fun _ => rfl

namespace Header

/-- The lines of a header between its guard and what can be ignored. -/
def gateLines (scope : Scope) : List String :=
  ["#define " ++ scope.guard, ""] ++ linuxLines scope ++ windowsLines scope ++ elsewhereLines

/-- The lines of a header before its definitions, among those that can be ignored. -/
def systemLines : List String :=
  ["", "#include <GL/gl.h>", "#include \"" ++ Globals.file ++ "\"", ""]

/-- The lines of a header that can be ignored, around its body. -/
def ignoredLines (scope : Scope) (body : List String) : List String :=
  ("#ifndef " ++ scope.ignoreMacro) :: (systemLines ++ body) ++ ["#endif // " ++ scope.ignoreMacro]

/-- What a header holds between the lines of its guard. -/
def guardedLines (scope : Scope) (body : List String) : List String :=
  gateLines scope ++ ignoredLines scope body ++ [""]

theorem fileLines_eq (scope : Scope) (body : List String) : fileLines scope body =
    ("#ifndef " ++ scope.guard) :: guardedLines scope body ++ ["#endif // " ++ scope.guard] := by
  simp [fileLines, guardedLines, gateLines, ignoredLines, systemLines]

/-- A scope that is set aside on a platform has its macro defined there. -/
def ignoreDirectives (mark : String) (scope : Scope) : List Directive :=
  if holds mark.toList scope.guard.toList then [.defines scope.ignoreMacro] else []

/-- What one platform is asked for, given what is defined for it and the mark of the scopes that are
set aside there. -/
def platformDirectives (platform mark : String) (scope : Scope) (defined : List Directive) :
    List Directive :=
  Directive.opens (.defined platform) :: defined ++ ignoreDirectives mark scope ++
    [Directive.closes]

/-- The directives of the platform gate. -/
def gateDirectives (scope : Scope) : List Directive :=
  [Directive.defines scope.guard] ++
    platformDirectives "__linux" "_WGL_" scope (fallback "GLEX_GET_PROC_ADDRESS") ++
    platformDirectives "_WIN32" "_GLX_" scope
      (fallback "WIN32_LEAN_AND_MEAN" ++ fallback "GLEX_GET_PROC_ADDRESS") ++
    ([Directive.opens (.missing "GLEX_GET_PROC_ADDRESS"), Directive.closes] ++
      fallback "APIENTRY")

/-- The lines that switch a scope off, where its name carries the mark. -/
theorem directing_ignoreLines (named : isWord scope.root.toList = true) (mark remark : String) :
    Directing (ignoreLines mark remark scope) (ignoreDirectives mark scope) := by
  unfold ignoreLines ignoreDirectives
  split
  · have ignored : directive? ("    #define " ++ scope.ignoreMacro).toList =
        some (.defines scope.ignoreMacro) :=
      directive?_word .defines (fun _ => rfl) (scope.isWord_ignoreMacro named)
    exact .skip rfl (.skip (directive?_front (fun _ => rfl) remark) (.read ignored .nil))
  · exact .nil

/-- The platform gate gives its directives. -/
theorem directing_gateLines (named : isWord scope.root.toList = true) :
    Directing (gateLines scope) (gateDirectives scope) := by
  have guard : Directing ["#define " ++ scope.guard, ""] [.defines scope.guard] :=
    .read (directive?_defines (scope.isWord_guard named)) (.skip rfl .nil)
  have ended : Directing ["#endif", ""] [.closes] := .readLiteral rfl (.skip rfl .nil)
  have linux : Directing (linuxLines scope)
      (platformDirectives "__linux" "_WGL_" scope (fallback "GLEX_GET_PROC_ADDRESS")) := by
    refine .append (.append ?_ (directing_ignoreLines named _ _)) ended
    exact .readLiteral rfl (.skipLiteral rfl (.readLiteral rfl (.readLiteral rfl
      (.readLiteral rfl .nil))))
  have windows : Directing (windowsLines scope) (platformDirectives "_WIN32" "_GLX_" scope
      (fallback "WIN32_LEAN_AND_MEAN" ++ fallback "GLEX_GET_PROC_ADDRESS")) := by
    refine .append (.append ?_ (directing_ignoreLines named _ _)) ended
    exact .readLiteral rfl (.readLiteral rfl (.readLiteral rfl (.readLiteral rfl (.skipLiteral rfl
      (.readLiteral rfl (.readLiteral rfl (.readLiteral rfl .nil)))))))
  have elsewhere : Directing elsewhereLines
      ([.opens (.missing "GLEX_GET_PROC_ADDRESS"), .closes] ++ fallback "APIENTRY") := by
    refine .readLiteral rfl (.skip (directive?_front (fun _ => rfl) _) (.readLiteral rfl
      (.skip rfl ?_)))
    exact .readLiteral rfl (.readLiteral rfl (.readLiteral rfl (.skip rfl .nil)))
  exact ((guard.append linux).append windows).append elsewhere

theorem directing_systemLines : Directing systemLines [.includes Globals.file] := by
  have shared : directive? ("#include \"" ++ Globals.file ++ "\"").toList =
      some (.includes Globals.file) := by
    decide +kernel
  exact .skip rfl (.skipLiteral rfl (.read shared (.skip rfl .nil)))

/-- The enumerants of a scope. -/
def names (table : ResolvedTable) (scope : Scope) : List String :=
  (groups table scope).flatMap fun group => group.2.keys

/-- The defines of an API define its names. -/
theorem directing_defineLines {group : String × OrderedMap String String}
    (words : GroupOfWords group) :
    Directing (defineLines group) (group.2.keys.map Directive.defines) := by
  have remark : directive? ("// " ++ group.1).toList = none :=
    directive?_front (fun _ => rfl) group.1
  have defined (width : Nat) {entries : List (String × String)}
      (isWord : ∀ entry ∈ entries, isWord entry.1.toList = true) :
      Directing (entries.map (defineLine width)) (entries.map fun entry => .defines entry.1) := by
    induction entries with
    | nil => exact .nil
    | cons entry rest ih =>
      rw [List.forall_mem_cons] at isWord
      exact .read (directive?_padded .defines (fun _ => rfl) isWord.1 width [] entry.2)
        (ih isWord.2)
  have under := (defined (widest (group.2.keys.map String.utf8ByteSize)) words.names).append
    (.skip rfl .nil : Directing [""] [])
  rw [List.append_nil] at under
  rw [defineLines_eq, OrderedMap.keys, List.map_map]
  exact .skip remark under

/-- The function table is included while the macro that its lines call is defined. -/
def pass (scope : Scope) : List Directive :=
  [.defines "GLEX_FUNC", .includes scope.functionsFile, .undefines "GLEX_FUNC"]

/-- The directives of the loader: a pass over the table for each thing declared. -/
def loaderDirectives (scope : Scope) : List Directive :=
  [Directive.opens (.defined "__cplusplus"), Directive.closes] ++ pass scope ++
    [Directive.opens (.defined "__cplusplus"), Directive.closes]

/-- The loader's lines give its directives. -/
theorem directing_loaderLines (named : isWord scope.root.toList = true) :
    Directing (loaderLines scope) (loaderDirectives scope) := by
  have init :
      directive? ("extern GLboolean " ++ scope.initFunction ++ "(void);").toList = none := by
    rw [String.append_assoc]
    exact directive?_front (fun _ => rfl) _
  have flag : directive? ("extern GLboolean " ++ scope.root ++ ";").toList = none := by
    rw [String.append_assoc]
    exact directive?_front (fun _ => rfl) _
  refine .readLiteral rfl (.skipLiteral rfl (.skipLiteral rfl (.readLiteral rfl (.skip rfl ?_))))
  refine .skip init (.skip flag (.skip rfl (.skipLiteral rfl ?_)))
  refine .readLiteral rfl (.read (directive?_indented_fileName named .functionTable) ?_)
  refine .readLiteral rfl (.skip rfl ?_)
  exact .readLiteral rfl (.skipLiteral rfl (.readLiteral rfl (.skip rfl .nil)))

/-- The directives of a header's body: a define for each name, then the loader. -/
def bodyDirectives (table : ResolvedTable) (scope : Scope) (hasFunctions : Bool) :
    List Directive :=
  (names table scope).map Directive.defines ++ if hasFunctions then loaderDirectives scope else []

/-- **The directives of the body of a header** define the enumerants of the scope, and include the
function table if there is one. -/
theorem directing_bodyLines {table : ResolvedTable} (named : isWord scope.root.toList = true)
    (words : ∀ group ∈ groups table scope, GroupOfWords group) (hasFunctions : Bool) :
    Directing (bodyLines table scope hasFunctions) (bodyDirectives table scope hasFunctions) := by
  have defined : Directing ((groups table scope).flatMap defineLines)
      ((names table scope).map Directive.defines) := by
    rw [names, List.map_flatMap]
    exact .flatMap fun group member => directing_defineLines (words group member)
  refine defined.append ?_
  cases hasFunctions with
  | false => exact .nil
  | true => exact directing_loaderLines named

/-- The directives within the conditional that can switch the scope off. -/
def ignoredDirectives (table : ResolvedTable) (scope : Scope) (hasFunctions : Bool) :
    List Directive :=
  .opens (.missing scope.ignoreMacro) ::
    ([.includes Globals.file] ++ bodyDirectives table scope hasFunctions) ++ [.closes]

/-- The directives a header's guard encloses. -/
def guardedDirectives (table : ResolvedTable) (scope : Scope) (hasFunctions : Bool) :
    List Directive :=
  gateDirectives scope ++ ignoredDirectives table scope hasFunctions

/-- The directives of a header. -/
def fileDirectives (table : ResolvedTable) (scope : Scope) (hasFunctions : Bool) :
    List Directive :=
  .opens (.missing scope.guard) :: guardedDirectives table scope hasFunctions ++ [.closes]

section File

variable {table : ResolvedTable} (named : isWord scope.root.toList = true)
  (words : ∀ group ∈ groups table scope, GroupOfWords group) (hasFunctions : Bool)
include named words

/-- The lines a header's guard encloses give their directives. -/
theorem directing_guardedLines :
    Directing (guardedLines scope (bodyLines table scope hasFunctions))
      (guardedDirectives table scope hasFunctions) := by
  have inside := directing_systemLines.append (directing_bodyLines named words hasFunctions)
  have ended : Directing ["#endif // " ++ scope.ignoreMacro] [.closes] :=
    .read (directive?_closes scope.ignoreMacro) .nil
  have ignored := (Directing.read
    (directive?_opens_missing (scope.isWord_ignoreMacro named)) inside).append ended
  have blank : Directing [""] [] := .skip rfl .nil
  have whole := ((directing_gateLines named).append ignored).append blank
  rwa [List.append_nil] at whole

/-- **The directives of a header** in order. -/
theorem directing_fileLines :
    Directing (fileLines scope (bodyLines table scope hasFunctions))
      (fileDirectives table scope hasFunctions) := by
  have ended : Directing ["#endif // " ++ scope.guard] [.closes] :=
    .read (directive?_closes scope.guard) .nil
  rw [fileLines_eq]
  exact (Directing.read (directive?_opens_missing (scope.isWord_guard named))
    (directing_guardedLines named words hasFunctions)).append ended

end File

end Header

namespace InitCode

/-- The directives of init code. -/
def fileDirectives (scope : Scope) : List Directive :=
  .includes scope.headerFile :: .opens (.missing scope.ignoreMacro) ::
    (Header.pass scope ++ Header.pass scope ++ [Directive.closes])

/-- **The directives of init code** include the function table twice. -/
theorem directing_fileLines (named : isWord scope.root.toList = true) :
    Directing (fileLines scope) (fileDirectives scope) := by
  have ignored := directive?_opens_missing (scope.isWord_ignoreMacro named)
  have table := directive?_indented_fileName named .functionTable
  have cleared : directive? ("GLboolean " ++ scope.root ++ "=GL_FALSE;").toList = none := by
    rw [String.append_assoc]
    exact directive?_front (fun _ => rfl) _
  have opened : directive? ("GLboolean " ++ scope.initFunction ++ "(void)").toList = none := by
    rw [String.append_assoc]
    exact directive?_front (fun _ => rfl) _
  have raised : directive? ("    " ++ scope.root ++ "=GL_TRUE;").toList = none := by
    obtain ⟨rest, start⟩ := scope.startsWith_root
    rw [String.toList_append, String.toList_append, ← start]
    rfl
  have looked : directive? ("#define GLEX_FUNC(t,n,a) " ++ scope.root ++
      "&=((*((void**)&GLEX_##n)=(void*)GLEX_GET_PROC_ADDRESS(#n))!=0)").toList =
        some (.defines "GLEX_FUNC") := by
    rw [String.append_assoc]
    exact directive?_front (fun _ => rfl) _
  have returned : directive? ("    return " ++ scope.root ++ ";").toList = none := by
    rw [String.append_assoc]
    exact directive?_front (fun _ => rfl) _
  refine .read (directive?_fileName named .header) (.skip rfl (.read ignored (.skip rfl ?_)))
  refine .skipLiteral rfl (.readLiteral rfl (.read table (.readLiteral rfl (.skip rfl ?_))))
  refine .skip cleared (.skip rfl (.skipLiteral rfl (.skip opened (.skip rfl ?_))))
  refine .skip raised (.skip rfl (.read looked (.read table (.readLiteral rfl (.skip rfl ?_)))))
  exact .skip returned (.skip rfl (.skip rfl (.read (directive?_closes _) .nil)))

end InitCode

/-- A rendered header is the text of its lines. -/
theorem Header.eq_text_of_render {table : ResolvedTable} {hasFunctions : Bool} {contents : String}
    (given : render table scope hasFunctions = some contents) :
    contents = Artifact.text (fileLines scope (bodyLines table scope hasFunctions)) := by
  unfold render at given
  split at given
  · cases given
  · exact (Option.some.inj given).symm

namespace Artifact

variable (enums : ResolvedTable) (functions : FunctionTable) (scope : Scope)

/-- The lines of the file of a kind. -/
def fileLines : ArtifactKind → List String
  | .functionTable => FunctionTable.fileLines (functions.groups scope)
  | .header => Header.fileLines scope
      (Header.bodyLines enums scope (functions.render scope).isSome)
  | .initCode => InitCode.fileLines scope
  | .globals => Globals.lines

/-- The directives of the file of a kind; the shared header belongs to no scope. -/
def fileDirectives : ArtifactKind → List Directive
  | .functionTable => FunctionTable.fileDirectives (functions.groups scope)
  | .header => Header.fileDirectives enums scope (functions.render scope).isSome
  | .initCode => InitCode.fileDirectives scope
  | .globals => []

variable {enums functions scope}

theorem ne_globals_of_mem {artifact : Artifact}
    (member : artifact ∈ ofScope enums functions scope) : artifact.kind ≠ .globals := by
  intro shared
  have held := (named_of_mem_ofScope member).2
  rw [shared] at held
  cases held

/-- A file of a scope is the text of its lines. -/
theorem contents_eq_text {artifact : Artifact}
    (member : artifact ∈ ofScope enums functions scope) :
    artifact.contents = text (fileLines enums functions scope artifact.kind) := by
  have held := (named_of_mem_ofScope member).2
  cases kind : artifact.kind with
  | functionTable =>
    rw [kind, contents?, FunctionTable.render_eq_text] at held
    split at held
    · cases held
    · exact (Option.some.inj held).symm
  | header =>
    rw [kind] at held
    exact Header.eq_text_of_render held
  | initCode =>
    rw [kind, contents?] at held
    split at held
    · exact (Option.some.inj held).symm
    · cases held
  | globals => exact absurd kind (ne_globals_of_mem member)

/-- Tables whose contents can stand in generated files, as they do when they are read from specs. -/
structure Legible (enums : ResolvedTable) (functions : FunctionTable) : Prop where
  groups : ∀ group ∈ functions.entries, FunctionTable.GroupWellFormed group
  dialects : ∀ group ∈ functions.entries, ∀ record ∈ group.2,
    ∃ dialect : Dialect, dialect.functionPrefix.toList <+: record.name.toList
  words : enums.OfWords fun value => isWord value.toList = true
  namespaces : ∀ group ∈ enums.entries, ∀ name ∈ group.2.keys, InNamespace name

section Legible

variable (legible : Legible enums functions)
include legible

/-- A scope with a file is named by a word. -/
theorem isWord_root_of_mem {artifact : Artifact}
    (member : artifact ∈ ofScope enums functions scope) : isWord scope.root.toList = true := by
  have coherent := coherent_of_wellFormed legible.groups legible.words scope
  have present : artifact.kind ∈ (ofScope enums functions scope).map kind :=
    List.mem_map_of_mem member
  have ofFunction (has : functions.HasFunction scope) : isWord scope.root.toList = true := by
    obtain ⟨group, held, covers, -⟩ := has
    exact scope.isWord_root covers (legible.groups group held).api
  cases kind : artifact.kind with
  | functionTable => exact ofFunction (coherent.functionTable.1 (kind ▸ present))
  | header =>
    rcases coherent.header.1 (kind ▸ present) with has | ⟨group, held, covers, -⟩
    · exact ofFunction has
    · exact scope.isWord_root covers (legible.words.apis group held)
  | initCode =>
    exact ofFunction (coherent.functionTable.1 (coherent.initCode.1 (kind ▸ present)))
  | globals => exact absurd kind (ne_globals_of_mem member)

/-- A file of a scope has the lines that it is put together from, with their directives. -/
theorem lines_of_mem {artifact : Artifact} (member : artifact ∈ ofScope enums functions scope) :
    Text.lines artifact.contents =
        (fileLines enums functions scope artifact.kind).map String.toList ∧
      directives artifact.contents = fileDirectives enums functions scope artifact.kind := by
  have named := isWord_root_of_mem legible member
  have groups : ∀ group ∈ functions.groups scope, FunctionTable.GroupWellFormed group :=
    fun group listed => legible.groups group (List.mem_filter.1 listed).1
  have ofWords := Header.ofWords_of_mem_groups legible.words scope
  have known {lines : List String} {given : List Directive} (directing : Directing lines given)
      (physical : ∀ line ∈ lines, IsPhysicalLine line.toList) :
      Text.lines (text lines) = lines.map String.toList ∧ directives (text lines) = given :=
    ⟨lines_text physical, directing.directives_text physical⟩
  rw [contents_eq_text member]
  cases kind : artifact.kind with
  | functionTable =>
    exact known (FunctionTable.directing_fileLines groups)
      (FunctionTable.isPhysicalLine_fileLines groups)
  | header =>
    exact known (Header.directing_fileLines named ofWords _)
      (Header.including_fileLines named ofWords _).physical
  | initCode =>
    exact known (InitCode.directing_fileLines named) (InitCode.including_fileLines named).physical
  | globals => exact absurd kind (ne_globals_of_mem member)

/-- The enumerants of a scope lie in a namespace. -/
theorem inNamespace_of_mem_names : ∀ name ∈ Header.names enums scope, InNamespace name := by
  intro name member
  obtain ⟨group, listed, inside⟩ := List.mem_flatMap.1 member
  exact legible.namespaces group (List.mem_filter.1 listed).1 name inside

end Legible

end Artifact

end ExtensionLoader
