import ExtensionLoader.Proofs.Artifact.Merged
import ExtensionLoader.Proofs.Function.WellFormed

/-! # What a function table tells

The text of a function table tells the functions that it declares. Its lines are those that it is
put together from, a line that starts with a slash begins an API and a line that starts with `G` a
function, and the return type, the name and the parameters of a function stand between the commas
and the brackets of that line, however wide the columns are. Two specs with the same function table
declare the same functions (`FunctionTable.render_tells_functions`).
-/

namespace ExtensionLoader

open Text

/-- Parameters without line feeds give a list without line feeds. -/
theorem FunctionRecord.not_mem_parametersText {record : FunctionRecord}
    (unbroken : ∀ parameter ∈ record.parameters,
      '\n' ∉ parameter.type.toList ∧ '\n' ∉ parameter.name.toList) :
    '\n' ∉ record.parametersText.toList := by
  have declared : ∀ text ∈ record.parameters.map Parameter.declaration, '\n' ∉ text.toList := by
    intro text member
    obtain ⟨parameter, listed, rfl⟩ := List.mem_map.1 member
    obtain ⟨type, name⟩ := unbroken parameter listed
    unfold Parameter.declaration
    split
    · exact name
    · simp [toString, type, name]
  unfold parametersText
  split
  · decide
  · rw [String.toList_intercalate]
    intro feed
    rcases mem_intercalate feed with between | ⟨part, listed, inside⟩
    · exact absurd between (by decide)
    · obtain ⟨text, given, rfl⟩ := List.mem_map.1 listed
      exact declared text given inside

theorem FunctionRecord.WellFormed.not_mem_parametersText {record : FunctionRecord}
    (wellFormed : record.WellFormed) : '\n' ∉ record.parametersText.toList :=
  FunctionRecord.not_mem_parametersText fun parameter member =>
    ⟨(wellFormed.parameters parameter member).1,
      not_mem_word (wellFormed.parameters parameter member).2 rfl⟩

namespace FunctionTable

/-- The line of a function, from its first character to its last. -/
theorem exists_entryLine_eq (columns : Columns) (record : FunctionRecord) :
    ∃ first second, AllBlank first ∧ AllBlank second ∧
      (entryLine columns record).toList = "GLEX_FUNC( ".toList ++
        (record.returnType.toList ++ ',' :: (first ++ (record.name.toList ++
          ',' :: (second ++ '(' :: (record.parametersText.toList ++ ") );".toList))))) := by
  obtain ⟨first, blank, returned⟩ := exists_padRight_eq columns.returnWidth
    (record.returnType ++ ",")
  obtain ⟨second, blankAgain, named⟩ := exists_padRight_eq (columns.nameWidth + 1)
    (record.name ++ ",")
  refine ⟨first ++ [' '], second ++ [' '], blank.append (by decide), blankAgain.append (by decide),
    ?_⟩
  unfold entryLine
  simp only [String.toList_append, returned, named, List.append_assoc]
  rfl

/-- The line of a function tells its return type, its name and its parameters. -/
theorem entryLine_inj {columns others : Columns} {record other : FunctionRecord}
    (wellFormed : record.WellFormed) (wellFormedAgain : other.WellFormed)
    (same : entryLine columns record = entryLine others other) :
    record.returnType = other.returnType ∧ record.name = other.name ∧
      record.parametersText = other.parametersText := by
  obtain ⟨first, second, blankFirst, blankSecond, line⟩ := exists_entryLine_eq columns record
  obtain ⟨third, fourth, blankThird, blankFourth, lineAgain⟩ := exists_entryLine_eq others other
  have texts := congrArg String.toList same
  rw [line, lineAgain, List.append_cancel_left_eq] at texts
  obtain ⟨returned, behind⟩ := append_mark_inj wellFormed.returnType.noComma
    wellFormedAgain.returnType.noComma texts
  have names := gap_append_inj blankFirst blankThird
    (isBlank_head?_word_append wellFormed.name _)
    (isBlank_head?_word_append wellFormedAgain.name _) behind
  obtain ⟨named, rest⟩ := word_append_inj wellFormed.name wellFormedAgain.name
    (by simp [isWordChar]) (by simp [isWordChar]) names
  have brackets := gap_append_inj blankSecond blankFourth (by simp [isBlank])
    (by simp [isBlank]) (List.cons.inj rest).2
  have parameters := List.append_cancel_right (List.cons.inj brackets).2
  exact ⟨String.toList_injective returned, String.toList_injective named,
    String.toList_injective parameters⟩

open Artifact (startsWith startsWith_append startsWith_remark ne_empty_of_startsWith)

theorem startsWith_entryLine (c : Char) (columns : Columns) (record : FunctionRecord) :
    startsWith c (entryLine columns record) = ('G' == c) := by
  unfold entryLine
  simp only [String.append_assoc]
  exact startsWith_append rfl _

theorem startsWith_condition (c : Char) (name : String) :
    startsWith c ("#ifndef " ++ name) = ('#' == c) :=
  startsWith_append rfl name

theorem startsWith_aliasLine (c : Char) (columns : Columns) (record : FunctionRecord) :
    startsWith c (aliasLine columns record) = (' ' == c) := by
  unfold aliasLine
  simp only [String.append_assoc]
  exact startsWith_append rfl _

theorem forall_mem_recordLines {P : String → Prop} {columns : Columns} {record : FunctionRecord} :
    (∀ line ∈ recordLines columns record, P line) ↔ P (entryLine columns record) ∧
      P ("#ifndef " ++ record.name) ∧ P (aliasLine columns record) ∧ P "#endif" := by
  simp [recordLines]

/-- Among the lines of some functions, those that start with `G` tell the functions. -/
theorem forall₂_entryLine {columns others : Columns} {records otherRecords : List FunctionRecord}
    (same : records.flatMap (recordLines columns) = otherRecords.flatMap (recordLines others)) :
    List.Forall₂ (fun record other => entryLine columns record = entryLine others other) records
      otherRecords := by
  have cut (columns : Columns) (record : FunctionRecord) :
      startsWith 'G' (entryLine columns record) = true ∧
        ∀ line ∈ ["#ifndef " ++ record.name, aliasLine columns record, "#endif"],
          startsWith 'G' line = false := by
    rw [startsWith_entryLine]
    refine ⟨rfl, ?_⟩
    simp only [List.forall_mem_cons, startsWith_condition, startsWith_aliasLine]
    exact ⟨rfl, rfl, rfl, fun line none => nomatch none⟩
  exact (forall₂_of_flatMap_eq (fun record _ => cut columns record)
    (fun record _ => cut others record) same).imp fun _ _ here => here.1

/-- The lines of a function are neither remarks nor empty. -/
theorem plain_recordLines (columns : Columns) (record : FunctionRecord) :
    ∀ line ∈ recordLines columns record, startsWith '/' line = false ∧ line ≠ "" := by
  rw [forall_mem_recordLines, startsWith_entryLine, startsWith_condition, startsWith_aliasLine]
  refine ⟨⟨rfl, ?_⟩, ⟨rfl, ?_⟩, ⟨rfl, ?_⟩, by decide⟩
  · exact ne_empty_of_startsWith (startsWith_entryLine 'G' columns record)
  · exact ne_empty_of_startsWith (startsWith_condition '#' record.name)
  · exact ne_empty_of_startsWith (startsWith_aliasLine ' ' columns record)

theorem plain_records (columns : Columns) (records : List FunctionRecord) :
    ∀ line ∈ records.flatMap (recordLines columns), startsWith '/' line = false ∧ line ≠ "" := by
  intro line member
  obtain ⟨record, -, listed⟩ := List.mem_flatMap.1 member
  exact plain_recordLines columns record line listed

/-- Without the empty lines between them, the groups stand one behind the other. -/
theorem filter_fileLines (groups : List (String × List FunctionRecord)) :
    (fileLines groups).filter (· ≠ "") =
      groups.flatMap (groupLines (.ofRecords (groups.flatMap Prod.snd))) := by
  unfold fileLines
  dsimp only
  rw [filter_intercalate (by decide), List.flatMap_map]
  refine List.flatMap_congr fun group _ => List.filter_eq_self.2 fun line listed => ?_
  rw [decide_eq_true_eq]
  rcases List.mem_cons.1 listed with rfl | inside
  · exact ne_empty_of_startsWith (startsWith_remark '/' group.1)
  · exact (plain_records _ group.2 line inside).2

/-- What is told of a group. -/
def told (group : String × List FunctionRecord) : String × List (String × String × String) :=
  (group.1, group.2.map fun record => (record.returnType, record.name, record.parametersText))

/-- Tables with the same lines tell of the same functions. -/
theorem told_eq_of_fileLines_eq {groups others : List (String × List FunctionRecord)}
    (wellFormed : ∀ group ∈ groups, GroupWellFormed group)
    (wellFormedAgain : ∀ group ∈ others, GroupWellFormed group)
    (same : fileLines groups = fileLines others) : groups.map told = others.map told := by
  have lines := congrArg (List.filter (· ≠ "")) same
  rw [filter_fileLines, filter_fileLines] at lines
  have cut (columns : Columns) (group : String × List FunctionRecord) :
      startsWith '/' ("// " ++ group.1) = true ∧
        ∀ line ∈ group.2.flatMap (recordLines columns), startsWith '/' line = false :=
    ⟨startsWith_remark '/' group.1,
      fun line member => (plain_records columns group.2 line member).1⟩
  refine map_eq_map_of_forall₂ (forall₂_of_flatMap_eq (fun group _ => cut _ group)
    (fun group _ => cut _ group) lines) ?_
  rintro group member other listed ⟨api, records⟩
  refine Prod.ext ((String.append_right_inj "// ").1 api) ?_
  refine map_eq_map_of_forall₂ (forall₂_entryLine records) ?_
  intro record inside next within line
  obtain ⟨returned, named, parameters⟩ := entryLine_inj ((wellFormed group member).records _ inside)
    ((wellFormedAgain other listed).records _ within) line
  rw [returned, named, parameters]

/-- Each line of a well-formed function is a line of the file. -/
theorem isPhysicalLine_recordLines {columns : Columns} {record : FunctionRecord}
    (wellFormed : record.WellFormed) :
    ∀ line ∈ recordLines columns record, IsPhysicalLine line.toList := by
  have named := isPhysicalLine_word wellFormed.name
  rw [forall_mem_recordLines]
  refine ⟨?_, ?_, ?_, by decide⟩
  · unfold entryLine
    rw [String.toList_append]
    refine .append_left (by decide) ?_ (by decide)
    simp [not_feed_mem_padRight, wellFormed.returnType.noFeed, named.1,
      wellFormed.not_mem_parametersText]
  · rw [String.toList_append]
    exact named.append_left (by decide) (isWord_ne_nil wellFormed.name)
  · unfold aliasLine
    rw [String.toList_append]
    refine named.append_left ?_ (isWord_ne_nil wellFormed.name)
    simp [not_feed_mem_padRight, named.1]

/-- Each line of a table of well-formed functions is a line of the file. -/
theorem isPhysicalLine_fileLines {groups : List (String × List FunctionRecord)}
    (wellFormed : ∀ group ∈ groups, GroupWellFormed group) :
    ∀ line ∈ fileLines groups, IsPhysicalLine line.toList := by
  intro line member
  rcases mem_intercalate member with between | ⟨part, listed, inside⟩
  · cases List.mem_singleton.1 between
    decide
  · obtain ⟨group, given, rfl⟩ := List.mem_map.1 listed
    rcases List.mem_cons.1 inside with rfl | behind
    · rw [String.toList_append]
      exact (isPhysicalLine_word (wellFormed group given).api).append_left (by decide)
        (isWord_ne_nil (wellFormed group given).api)
    · obtain ⟨record, within, own⟩ := List.mem_flatMap.1 behind
      exact isPhysicalLine_recordLines ((wellFormed group given).records record within) line own

/-- A table is the text of its lines, unless the scope has no function. -/
theorem render_eq_text (table : FunctionTable) (scope : Scope) :
    table.render scope = if table.groups scope = [] then none
      else some (Artifact.text (fileLines (table.groups scope))) := by
  unfold render
  cases table.groups scope with
  | nil => rfl
  | cons group rest => rw [if_neg (List.cons_ne_nil _ _)]

/-- Tables with the same text have the same lines. -/
theorem fileLines_eq_of_render_eq {table other : FunctionTable} {scope : Scope}
    (wellFormed : ∀ group ∈ table.groups scope, GroupWellFormed group)
    (wellFormedAgain : ∀ group ∈ other.groups scope, GroupWellFormed group)
    (same : table.render scope = other.render scope) :
    fileLines (table.groups scope) = fileLines (other.groups scope) := by
  rw [render_eq_text, render_eq_text] at same
  split at same
  · rename_i nothing
    split at same
    · rename_i nothingAgain
      rw [nothing, nothingAgain]
    · cases same
  · split at same
    · cases same
    · exact Artifact.lines_eq_of_text_eq (isPhysicalLine_fileLines wellFormed)
        (isPhysicalLine_fileLines wellFormedAgain) (Option.some.inj same)

/-- What a table declares: for each API the return types, the names and the parameter lists of its
functions. -/
def outline (table : FunctionTable) : List (String × List (String × String × String)) :=
  table.entries.map told

/-- The outline of a table is what its blocks tell. -/
theorem outline_eq {table : FunctionTable}
    (wellFormed : ∀ group ∈ table.entries, GroupWellFormed group) :
    table.outline = (table.groups .all).map told := by
  have filled : table.groups .all = table.entries := by
    rw [groups, List.filter_eq_self]
    intro group member
    have nonempty := (wellFormed group member).nonempty
    simpa [Scope.api?] using nonempty
  rw [filled, outline]

/-- **A function table tells its functions.** If two specs, read with any type maps, give the same
function table, or both give none, then they declare the same APIs in the same order, each with the
same functions in the same order: the same return types, names and parameter lists. -/
theorem render_tells_functions {source typeSource other otherTypes : String}
    (same : (parse source (.parse typeSource)).render .all =
      (parse other (.parse otherTypes)).render .all) :
    (parse source (.parse typeSource)).outline = (parse other (.parse otherTypes)).outline := by
  have wellFormed := wellFormed_parse source (TypeMap.givesFields_parse typeSource)
  have wellFormedAgain := wellFormed_parse other (TypeMap.givesFields_parse otherTypes)
  rw [outline_eq wellFormed, outline_eq wellFormedAgain]
  have belongs {table : FunctionTable} {group : String × List FunctionRecord}
      (member : group ∈ table.groups .all) : group ∈ table.entries := (List.mem_filter.1 member).1
  have wellFormedGroups := fun group member => wellFormed group (belongs member)
  have wellFormedGroupsAgain := fun group member => wellFormedAgain group (belongs member)
  exact told_eq_of_fileLines_eq wellFormedGroups wellFormedGroupsAgain
    (fileLines_eq_of_render_eq wellFormedGroups wellFormedGroupsAgain same)

/-- A function that returns a type the map gives a C type. -/
def flagSource : String := "Copy(from)\n\tcategory ARB\n\treturn Flag\n"

/-- A type map with one row. -/
def flagTypes : String := "Flag, *, *, GLboolean\n"

/-- The same function, with its return type as C has it and with its parameter list spelled out. -/
def spelledSource : String := "Copy()\n\treturn GLboolean\n\tcategory ARB\n\tparam GLvoid\n"

/-- The two tables differ in their parameters, which their texts do not show. -/
theorem render_tells_spelled_function :
    (parse flagSource (.parse flagTypes)).values ≠ (parse spelledSource (.parse "")).values ∧
    (parse flagSource (.parse flagTypes)).render .all =
      (parse spelledSource (.parse "")).render .all ∧
    (parse flagSource (.parse flagTypes)).outline = [("ARB", [("GLboolean", "glCopy", "GLvoid")])] ∧
    (parse flagSource (.parse flagTypes)).outline = (parse spelledSource (.parse "")).outline := by
  have same : (parse flagSource (.parse flagTypes)).render .all =
      (parse spelledSource (.parse "")).render .all := by
    decide +kernel
  exact ⟨by decide +kernel, same, by decide +kernel, render_tells_functions same⟩

end FunctionTable

end ExtensionLoader
