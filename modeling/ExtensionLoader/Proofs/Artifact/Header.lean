import ExtensionLoader.Proofs.Artifact.Merged
import ExtensionLoader.Proofs.Enumerant.Words

/-! # What a header tells

The headers of one scope open and close in the same way, so the text of a header tells its
definitions. A line of them that starts with a slash begins an API; on every other one the name and
the value of an enumerant stand as words, however wide the column of the names is. Two specs with
the same header give a scope the same enumerants (`Header.render_tells_enumerants`).
-/

namespace ExtensionLoader.Header

open Text

/-- An API, and enumerants with values, that are all words. -/
structure GroupOfWords (group : String × OrderedMap String String) : Prop where
  api : isWord group.1.toList = true
  names : ∀ entry ∈ group.2.entries, isWord entry.1.toList = true
  values : ∀ entry ∈ group.2.entries, isWord entry.2.toList = true

theorem ofWords_of_mem_groups {table : ResolvedTable}
    (words : table.OfWords fun value => isWord value.toList = true) (scope : Scope) :
    ∀ group ∈ groups table scope, GroupOfWords group := by
  intro group member
  have held : group ∈ table.entries := (List.mem_filter.1 member).1
  exact ⟨words.apis group held, words.names group held, words.values group held⟩

/-- The line that defines an enumerant, in a column of some width. -/
def defineLine (width : Nat) (entry : String × String) : String :=
  "#define " ++ padRight width entry.1 ++ " " ++ entry.2

/-- The line of an enumerant tells its name and its value. -/
theorem defineLine_inj {width otherWidth : Nat} {entry other : String × String}
    (name : isWord entry.1.toList = true) (value : isWord entry.2.toList = true)
    (nameAgain : isWord other.1.toList = true) (valueAgain : isWord other.2.toList = true)
    (same : defineLine width entry = defineLine otherWidth other) : entry = other := by
  obtain ⟨gap, blank, padded⟩ := exists_padRight_eq width entry.1
  obtain ⟨otherGap, blankAgain, paddedAgain⟩ := exists_padRight_eq otherWidth other.1
  have texts := congrArg String.toList same
  simp only [defineLine, String.toList_append, padded, paddedAgain, List.append_assoc,
    List.append_cancel_left_eq] at texts
  have apart {gap : List Char} (blank : AllBlank gap) (rest : List Char) :
      ∀ c ∈ (gap ++ (" ".toList ++ rest)).head?, isWordChar c = false := by
    intro c head
    rw [← List.append_assoc] at head
    have spaced : AllBlank (gap ++ " ".toList) := blank.append (by decide)
    exact isWordChar_of_isBlank
      (isBlank_of_mem_head? spaced (List.append_ne_nil_of_right_ne_nil _ (by decide)) head)
  obtain ⟨names, rest⟩ := word_append_inj name nameAgain (apart blank _) (apart blankAgain _) texts
  rw [← List.append_assoc, ← List.append_assoc] at rest
  have starts {word : List Char} (known : isWord word = true) :
      ∀ c ∈ word.head?, isBlank c = false := fun c head =>
    isBlank_of_mem_word known c (List.mem_of_mem_head? head)
  have values := gap_append_inj (blank.append (by decide)) (blankAgain.append (by decide))
    (starts value) (starts valueAgain) rest
  exact Prod.ext (String.toList_injective names) (String.toList_injective values)

/-- What stands under the line of an API: its enumerants and an empty line. -/
def underApi (group : String × OrderedMap String String) : List String :=
  group.2.entries.map (defineLine (widest (group.2.keys.map String.utf8ByteSize))) ++ [""]

theorem defineLines_eq (group : String × OrderedMap String String) :
    defineLines group = ("// " ++ group.1) :: underApi group := rfl

open Artifact (startsWith startsWith_append startsWith_remark)

theorem startsWith_defineLine (c : Char) (width : Nat) (entry : String × String) :
    startsWith c (defineLine width entry) = ('#' == c) := by
  unfold defineLine
  simp only [String.append_assoc]
  exact startsWith_append rfl _

theorem forall_mem_underApi {P : String → Prop} {group : String × OrderedMap String String} :
    (∀ line ∈ underApi group, P line) ↔ (∀ entry ∈ group.2.entries,
      P (defineLine (widest (group.2.keys.map String.utf8ByteSize)) entry)) ∧ P "" := by
  rw [underApi, List.forall_mem_append, List.forall_mem_map, List.forall_mem_singleton]

/-- The definitions of some APIs tell the APIs with their enumerants. -/
theorem eq_of_flatMap_defineLines_eq {first second : List (String × OrderedMap String String)}
    (words : ∀ group ∈ first, GroupOfWords group)
    (wordsAgain : ∀ group ∈ second, GroupOfWords group)
    (same : first.flatMap defineLines = second.flatMap defineLines) : first = second := by
  have cut (group : String × OrderedMap String String) :
      startsWith '/' ("// " ++ group.1) = true ∧
        ∀ line ∈ underApi group, startsWith '/' line = false := by
    refine ⟨startsWith_remark '/' group.1, ?_⟩
    rw [forall_mem_underApi]
    exact ⟨fun entry _ => startsWith_defineLine '/' _ entry, rfl⟩
  have lines : (first.flatMap fun group => ("// " ++ group.1) :: underApi group) =
      second.flatMap fun group => ("// " ++ group.1) :: underApi group := same
  have told := forall₂_of_flatMap_eq (fun group _ => cut group) (fun group _ => cut group) lines
  refine eq_of_forall₂ told ?_
  rintro group member other listed ⟨apis, under⟩
  have defined := List.append_cancel_right under
  rw [← List.forall₂_eq_eq_eq, List.forall₂_map_left_iff, List.forall₂_map_right_iff] at defined
  refine Prod.ext ((String.append_right_inj "// ").1 apis) (OrderedMap.ext_entries ?_)
  refine eq_of_forall₂ defined ?_
  intro entry inside next within line
  exact defineLine_inj ((words group member).names entry inside)
    ((words group member).values entry inside) ((wordsAgain other listed).names next within)
    ((wordsAgain other listed).values next within) line

/-- Each define of words is a line of the file. -/
theorem isPhysicalLine_defineLines {group : String × OrderedMap String String}
    (words : GroupOfWords group) : ∀ line ∈ defineLines group, IsPhysicalLine line.toList := by
  rw [defineLines_eq, List.forall_mem_cons, forall_mem_underApi]
  refine ⟨?_, ?_, by decide⟩
  · rw [String.toList_append]
    exact (isPhysicalLine_word words.api).append_left (by decide) (isWord_ne_nil words.api)
  · intro entry member
    have name := isPhysicalLine_word (words.names entry member)
    have value := words.values entry member
    rw [defineLine, String.toList_append]
    refine (isPhysicalLine_word value).append_left ?_ (isWord_ne_nil value)
    simp [not_feed_mem_padRight, name.1]

/-- A header is its opening, its definitions and its closing, unless it has no body. -/
theorem render_eq (table : ResolvedTable) (scope : Scope) (hasFunctions : Bool) :
    render table scope hasFunctions = if bodyLines table scope hasFunctions = [] then none
      else some (Artifact.text (openingLines scope) ++ definitions table scope ++
        Artifact.text (closingLines scope hasFunctions)) := by
  unfold render
  cases body : bodyLines table scope hasFunctions with
  | nil => rfl
  | cons line rest =>
    dsimp only
    rw [if_neg (List.cons_ne_nil _ _), ← body, fileLines_bodyLines, Artifact.text_append,
      Artifact.text_append]
    rfl

/-- Headers with the same text have the same groups. -/
theorem groups_eq_of_render_eq {table other : ResolvedTable} {scope : Scope} {hasFunctions : Bool}
    (words : ∀ group ∈ groups table scope, GroupOfWords group)
    (wordsAgain : ∀ group ∈ groups other scope, GroupOfWords group)
    (same : render table scope hasFunctions = render other scope hasFunctions) :
    groups table scope = groups other scope := by
  rw [render_eq, render_eq] at same
  split at same
  · rename_i nothing
    split at same
    · rename_i nothingAgain
      rw [groups_eq_nil_of_bodyLines nothing, groups_eq_nil_of_bodyLines nothingAgain]
    · cases same
  · split at same
    · cases same
    · have texts := Option.some.inj same
      rw [String.append_left_inj, String.append_right_inj] at texts
      have physical {table : ResolvedTable}
          (words : ∀ group ∈ groups table scope, GroupOfWords group) :
          ∀ line ∈ (groups table scope).flatMap defineLines, IsPhysicalLine line.toList := by
        intro line member
        obtain ⟨group, listed, inside⟩ := List.mem_flatMap.1 member
        exact isPhysicalLine_defineLines (words group listed) line inside
      exact eq_of_flatMap_defineLines_eq words wordsAgain
        (Artifact.lines_eq_of_text_eq (physical words) (physical wordsAgain) texts)

/-- **A header tells its enumerants.** If two specs, read and resolved, give a scope the same
header, or both give it none, then within the scope they have the same APIs with enumerants in the
same order, each with the same names and values in the same order. -/
theorem render_tells_enumerants {source other : String} {found foundAgain : Diagnostics}
    {scope : Scope} {hasFunctions : Bool}
    (same : render ((EnumTable.parse source).resolve found).1 scope hasFunctions =
      render ((EnumTable.parse other).resolve foundAgain).1 scope hasFunctions) :
    scope.pick (fun names => !names.isEmpty) ((EnumTable.parse source).resolve found).1 =
      scope.pick (fun names => !names.isEmpty) ((EnumTable.parse other).resolve foundAgain).1 := by
  rw [← groups_eq, ← groups_eq]
  exact groups_eq_of_render_eq
    (ofWords_of_mem_groups (EnumTable.ofWords_resolve source found) scope)
    (ofWords_of_mem_groups (EnumTable.ofWords_resolve other foundAgain) scope) same

/-- A table with a value that was looked up elsewhere. -/
def borrowedTable : ResolvedTable :=
  ((EnumTable.parse "A enum:\nX = 1\nB enum:\nuse A X\nC enum:\n").resolve []).1

/-- The same enumerants with their values written out, and without the API that has none. -/
def literalTable : ResolvedTable :=
  ((EnumTable.parse "A enum:\nX = 1\nB enum:\nX = 1\n").resolve []).1

/-- The two tables differ in an API without enumerants, which their headers do not show. -/
theorem render_tells_borrowed_enumerant :
    borrowedTable.keys = ["A", "B", "C"] ∧ literalTable.keys = ["A", "B"] ∧
    render borrowedTable .all true = render literalTable .all true ∧
    Scope.all.pick (fun names => !names.isEmpty) borrowedTable =
      Scope.all.pick (fun names => !names.isEmpty) literalTable := by
  have shown : groups borrowedTable .all = groups literalTable .all := by decide +kernel
  have same : render borrowedTable .all true = render literalTable .all true := by
    simp only [render, bodyLines, shown]
  exact ⟨by decide +kernel, by decide +kernel, same, render_tells_enumerants same⟩

end ExtensionLoader.Header
