import ExtensionLoader.Proofs.Artifact.FunctionTable
import ExtensionLoader.Proofs.Artifact.Header
import ExtensionLoader.Proofs.Text.Column

/-! # Files in columns

In a function table, all names start at one column, all parameter lists at a second one, and what
the aliases stand for at a third one. In a header, the values of an API start at one column. Columns
are counted in characters, whatever alphabet the texts are in (`Artifact.columns_line_up`).
-/

namespace ExtensionLoader

open Text

/-- A function none of whose texts holds a line break. -/
structure FunctionRecord.Unbroken (record : FunctionRecord) : Prop where
  returnType : '\n' ∉ record.returnType.toList
  name : '\n' ∉ record.name.toList
  parameters : ∀ parameter ∈ record.parameters,
    '\n' ∉ parameter.type.toList ∧ '\n' ∉ parameter.name.toList

instance (record : FunctionRecord) : Decidable record.Unbroken :=
  decidable_of_iff ('\n' ∉ record.returnType.toList ∧ '\n' ∉ record.name.toList ∧
    ∀ parameter ∈ record.parameters,
      '\n' ∉ parameter.type.toList ∧ '\n' ∉ parameter.name.toList)
    ⟨fun ⟨returnType, name, parameters⟩ => ⟨returnType, name, parameters⟩,
      fun ⟨returnType, name, parameters⟩ => ⟨returnType, name, parameters⟩⟩

/-- No text of the table holds a line feed. -/
def FunctionTable.Unbroken (table : FunctionTable) : Prop :=
  ∀ group ∈ table.entries, '\n' ∉ group.1.toList ∧ ∀ record ∈ group.2, record.Unbroken

instance (table : FunctionTable) : Decidable table.Unbroken :=
  inferInstanceAs (Decidable (∀ group ∈ table.entries, _))

/-- No name or value of the table holds a line feed. -/
def ResolvedTable.Unbroken (table : ResolvedTable) : Prop :=
  ∀ group ∈ table.entries, '\n' ∉ group.1.toList ∧
    ∀ entry ∈ group.2.entries, '\n' ∉ entry.1.toList ∧ '\n' ∉ entry.2.toList

instance (table : ResolvedTable) : Decidable table.Unbroken :=
  inferInstanceAs (Decidable (∀ group ∈ table.entries, _))

/-- A text is cut at its line feeds into the lines that it is put together from. -/
theorem Artifact.feedLines_text {lines : List String}
    (unbroken : ∀ line ∈ lines, '\n' ∉ line.toList) :
    feedLines (Artifact.text lines).toList = lines.map String.toList := by
  induction lines with
  | nil => rfl
  | cons line rest ih =>
    rw [List.forall_mem_cons] at unbroken
    have shown : (Artifact.text (line :: rest)).toList =
        line.toList ++ '\n' :: (Artifact.text rest).toList := by
      rw [Artifact.text_cons, String.toList_append, String.toList_append, List.append_assoc]
      rfl
    rw [shown, feedLines_append unbroken.1, ih unbroken.2, List.map_cons]

/-- The lines that start with a mark. -/
def markedLines (mark : String) (text : String) : List (List Char) :=
  (feedLines text.toList).filter mark.toList.isPrefixOf

namespace FunctionTable

variable {table : FunctionTable} {scope : Scope} {records : List FunctionRecord}

/-- The line that passes a function to the macro, with its name and its parameters at two
columns. -/
def EntryAt (records : List FunctionRecord) (nameColumn parameterColumn : Nat)
    (record : FunctionRecord) (line : List Char) : Prop :=
  ∃ slot, Slot (records.map fun other => other.name ++ ",") (record.name ++ ",") slot ∧
    LineAt nameColumn "GLEX_FUNC( " (records.map fun other => other.returnType ++ ",")
      (record.returnType ++ ",") (slot ++ ("(" ++ record.parametersText ++ ") );").toList) line ∧
    nameColumn + slot.length = parameterColumn

/-- The line that gives a function its plain name, with what this stands for at a column. -/
def AliasAt (records : List FunctionRecord) (column : Nat) (record : FunctionRecord)
    (line : List Char) : Prop :=
  LineAt column "    #define " (records.map FunctionRecord.name) record.name
    ("GLEX_" ++ record.name).toList line

theorem isWidth_returnWidth (nonempty : records ≠ []) :
    IsWidth (Columns.ofRecords records).returnWidth
      (records.map fun record => record.returnType ++ ",") := by
  have wide : IsWidth _ (records.map fun record => record.returnType ++ ",") :=
    isWidth_widest (by simpa using nonempty)
  rw [List.map_map] at wide
  have sizes : String.utf8ByteSize ∘ (fun record : FunctionRecord => record.returnType ++ ",") =
      fun record => record.returnType.utf8ByteSize + 1 :=
    funext fun record => String.utf8ByteSize_append
  rwa [sizes] at wide

theorem isWidth_nameWidth (nonempty : records ≠ []) :
    IsWidth (Columns.ofRecords records).nameWidth (records.map FunctionRecord.name) := by
  have wide : IsWidth _ (records.map FunctionRecord.name) :=
    isWidth_widest (by simpa using nonempty)
  rwa [List.map_map] at wide

theorem entryLine_eq (columns : Columns) (record : FunctionRecord) : entryLine columns record =
    "GLEX_FUNC( " ++ padRight columns.returnWidth (record.returnType ++ ",") ++ " " ++
      (padRight (columns.nameWidth + 1) (record.name ++ ",") ++ " " ++
        ("(" ++ record.parametersText ++ ") );")) := by
  have bracket : " (" = " " ++ "(" := rfl
  unfold entryLine
  simp only [bracket, String.append_assoc]

theorem aliasLine_eq (columns : Columns) (record : FunctionRecord) : aliasLine columns record =
    "    #define " ++ padRight columns.nameWidth record.name ++ " " ++
      ("GLEX_" ++ record.name) := by
  have named : " GLEX_" = " " ++ "GLEX_" := rfl
  unfold aliasLine
  simp only [named, String.append_assoc]

/-- The entries of a block share the columns of their names and parameters. -/
theorem exists_entryAt (records : List FunctionRecord) : ∃ nameColumn parameterColumn,
    ∀ record ∈ records, EntryAt records nameColumn parameterColumn record
      (entryLine (.ofRecords records) record).toList := by
  refine ⟨11 + ((Columns.ofRecords records).returnWidth + 1),
    11 + ((Columns.ofRecords records).returnWidth + 1) +
      ((Columns.ofRecords records).nameWidth + 1 + 1), fun record member => ?_⟩
  have nonempty := List.ne_nil_of_mem member
  have names := (isWidth_nameWidth nonempty).append ","
  rw [List.map_map] at names
  obtain ⟨slot, length⟩ := slot_padRight names (List.mem_map.2 ⟨record, member, rfl⟩)
  refine ⟨_, slot, ?_, congrArg _ length⟩
  rw [entryLine_eq, ← String.toList_append]
  exact lineAt_padRight (isWidth_returnWidth nonempty) (List.mem_map.2 ⟨record, member, rfl⟩)
    "GLEX_FUNC( " _

theorem exists_aliasAt (records : List FunctionRecord) : ∃ column,
    ∀ record ∈ records, AliasAt records column record
      (aliasLine (.ofRecords records) record).toList := by
  refine ⟨12 + ((Columns.ofRecords records).nameWidth + 1), fun record member => ?_⟩
  rw [aliasLine_eq]
  exact lineAt_padRight (isWidth_nameWidth (List.ne_nil_of_mem member))
    (List.mem_map_of_mem member) "    #define " _

open Artifact (startsWith startsWith_remark)

/-- Whether a line starts with a mark. -/
def opensWith (mark line : String) : Bool := mark.toList.isPrefixOf line.toList

theorem opensWith_append (mark rest : String) : opensWith mark (mark ++ rest) = true := by
  rw [opensWith, List.isPrefixOf_iff_prefix, String.toList_append]
  exact List.prefix_append _ _

/-- A line does not start with a mark if its first character is another one. -/
theorem not_opensWith {mark line : String} {c : Char} (marked : mark.toList.head? = some c)
    (other : startsWith c line = false) : ¬ opensWith mark line = true := by
  rw [opensWith, List.isPrefixOf_iff_prefix]
  rintro ⟨rest, whole⟩
  rw [startsWith, ← whole, List.head?_append, marked] at other
  simp at other

/-- A function without line feeds gives lines without line feeds. -/
theorem unbroken_recordLines {columns : Columns} {record : FunctionRecord}
    (unbroken : record.Unbroken) : ∀ line ∈ recordLines columns record, '\n' ∉ line.toList := by
  rw [forall_mem_recordLines]
  refine ⟨?entry, ?condition, ?plainName, by decide⟩
  case entry =>
    have parameters := FunctionRecord.not_mem_parametersText unbroken.parameters
    simp only [entryLine_eq, String.toList_append, List.mem_append, not_or, not_feed_mem_padRight]
    exact ⟨⟨⟨by decide, unbroken.returnType, by decide⟩, by decide⟩,
      ⟨⟨unbroken.name, by decide⟩, by decide⟩, ⟨by decide, parameters⟩, by decide⟩
  case condition =>
    rw [String.toList_append, List.mem_append, not_or]
    exact ⟨by decide, unbroken.name⟩
  case plainName =>
    simp only [aliasLine_eq, String.toList_append, List.mem_append, not_or, not_feed_mem_padRight]
    exact ⟨⟨⟨by decide, unbroken.name⟩, by decide⟩, by decide, unbroken.name⟩

/-- Functions without line feeds give a table whose lines have none. -/
theorem unbroken_fileLines {groups : List (String × List FunctionRecord)}
    (unbroken : ∀ group ∈ groups, '\n' ∉ group.1.toList ∧ ∀ record ∈ group.2, record.Unbroken) :
    ∀ line ∈ fileLines groups, '\n' ∉ line.toList := by
  intro line member
  rcases mem_intercalate member with between | ⟨part, listed, inside⟩
  · cases List.mem_singleton.1 between
    decide
  · obtain ⟨group, given, rfl⟩ := List.mem_map.1 listed
    rcases List.mem_cons.1 inside with rfl | behind
    · rw [String.toList_append, List.mem_append, not_or]
      exact ⟨by decide, (unbroken group given).1⟩
    · obtain ⟨record, within, own⟩ := List.mem_flatMap.1 behind
      exact unbroken_recordLines ((unbroken group given).2 record within) line own

/-- What is picked out of the lines of a file, if it is one line of each function. -/
theorem filter_fileLines_eq {picks : String → Bool} {pick : Columns → FunctionRecord → String}
    (own : ∀ columns record, (recordLines columns record).filter picks = [pick columns record])
    (headings : ∀ api, ¬ picks ("// " ++ api) = true) (empty : ¬ picks "" = true)
    (groups : List (String × List FunctionRecord)) : (fileLines groups).filter picks =
      (groups.flatMap Prod.snd).map (pick (.ofRecords (groups.flatMap Prod.snd))) := by
  unfold fileLines
  dsimp only
  rw [filter_intercalate (Bool.eq_false_of_not_eq_true empty), List.flatMap_map, List.map_flatMap]
  refine List.flatMap_congr fun group _ => ?_
  rw [groupLines, List.filter_cons_of_neg (headings group.1), List.filter_flatMap]
  simp only [own]
  exact List.map_eq_flatMap.symm

/-- The functions of a scope, in the order of the file. -/
def functionsOf (table : FunctionTable) (scope : Scope) : List FunctionRecord :=
  (table.groups scope).flatMap Prod.snd

/-- The lines of a file that start with a mark, if the mark stands on one line of each function and
starts like no heading. -/
theorem markedLines_render {text mark : String} {c : Char}
    {pick : Columns → FunctionRecord → String} (unbroken : table.Unbroken)
    (rendered : table.render scope = some text) (marked : mark.toList.head? = some c)
    (heading : '/' ≠ c) (own : ∀ columns record,
      (recordLines columns record).filter (opensWith mark) = [pick columns record]) :
    markedLines mark text = (table.functionsOf scope).map fun record =>
      (pick (.ofRecords (table.functionsOf scope)) record).toList := by
  rw [render_eq_text] at rendered
  split at rendered
  · cases rendered
  · have lines : ∀ line ∈ fileLines (table.groups scope), '\n' ∉ line.toList :=
      unbroken_fileLines fun group member => unbroken group (List.mem_filter.1 member).1
    rw [← Option.some.inj rendered, markedLines, Artifact.feedLines_text lines, List.filter_map]
    have picked := filter_fileLines_eq own
      (fun api => not_opensWith marked ((startsWith_remark c api).trans (beq_false_of_ne heading)))
      (not_opensWith marked rfl) (table.groups scope)
    exact (congrArg (List.map String.toList) picked).trans (List.map_map ..)

/-- The lines of a function hold one entry. -/
theorem filter_recordLines_entry (columns : Columns) (record : FunctionRecord) :
    (recordLines columns record).filter (opensWith "GLEX_FUNC( ") = [entryLine columns record] := by
  have opens : opensWith "GLEX_FUNC( " (entryLine columns record) = true := by
    rw [entryLine_eq, String.append_assoc, String.append_assoc]
    exact opensWith_append _ _
  have apart {line : String} (unlike : startsWith 'G' line = false) :
      ¬ opensWith "GLEX_FUNC( " line = true := not_opensWith rfl unlike
  rw [recordLines, List.filter_cons_of_pos opens,
    List.filter_cons_of_neg (apart (startsWith_condition 'G' record.name)),
    List.filter_cons_of_neg (apart (startsWith_aliasLine 'G' columns record)),
    List.filter_cons_of_neg (apart rfl), List.filter_nil]

/-- The lines of a function hold one alias. -/
theorem filter_recordLines_alias (columns : Columns) (record : FunctionRecord) :
    (recordLines columns record).filter (opensWith "    #define ") =
      [aliasLine columns record] := by
  have opens : opensWith "    #define " (aliasLine columns record) = true := by
    rw [aliasLine_eq, String.append_assoc, String.append_assoc]
    exact opensWith_append _ _
  have apart {line : String} (unlike : startsWith ' ' line = false) :
      ¬ opensWith "    #define " line = true := not_opensWith rfl unlike
  rw [recordLines, List.filter_cons_of_neg (apart (startsWith_entryLine ' ' columns record)),
    List.filter_cons_of_neg (apart (startsWith_condition ' ' record.name)),
    List.filter_cons_of_pos opens, List.filter_cons_of_neg (apart rfl), List.filter_nil]

/-- How the lines of a function table stand in columns. -/
structure LinesUp (records : List FunctionRecord) (text : String) : Prop where
  entries : ∃ nameColumn parameterColumn,
    List.Forall₂ (EntryAt records nameColumn parameterColumn) records
      (markedLines "GLEX_FUNC( " text)
  aliases : ∃ column,
    List.Forall₂ (AliasAt records column) records (markedLines "    #define " text)

/-- The entries and aliases of a rendered table line up. -/
theorem linesUp_of_render {text : String} (unbroken : table.Unbroken)
    (rendered : table.render scope = some text) : LinesUp (table.functionsOf scope) text := by
  constructor
  case entries =>
    obtain ⟨nameColumn, parameterColumn, aligned⟩ := exists_entryAt (table.functionsOf scope)
    rw [markedLines_render unbroken rendered rfl (by decide) filter_recordLines_entry]
    exact ⟨_, _, List.forall₂_map_right_iff.2 (List.forall₂_same.2 aligned)⟩
  case aliases =>
    obtain ⟨column, aligned⟩ := exists_aliasAt (table.functionsOf scope)
    rw [markedLines_render unbroken rendered rfl (by decide) filter_recordLines_alias]
    exact ⟨_, List.forall₂_map_right_iff.2 (List.forall₂_same.2 aligned)⟩

end FunctionTable

namespace Header

variable {table : ResolvedTable} {scope : Scope}

/-- The lines of an API, with all values at one column. -/
def BlockLinesUp (group : String × OrderedMap String String) (lines : List (List Char)) : Prop :=
  ∃ column defined, lines = ("// " ++ group.1).toList :: (defined ++ [[]]) ∧
    List.Forall₂ (fun entry line =>
      LineAt column "#define " group.2.keys entry.1 entry.2.toList line) group.2.entries defined

/-- The defines of an API line up. -/
theorem blockLinesUp_defineLines (group : String × OrderedMap String String) :
    BlockLinesUp group ((defineLines group).map String.toList) := by
  refine ⟨8 + (widest (group.2.keys.map String.utf8ByteSize) + 1), (group.2.entries.map
    (defineLine (widest (group.2.keys.map String.utf8ByteSize)))).map String.toList, ?_, ?_⟩
  · rw [defineLines_eq, underApi, List.map_cons, List.map_append]
    rfl
  · rw [List.forall₂_map_right_iff, List.forall₂_map_right_iff, List.forall₂_same]
    intro entry member
    have named : entry.1 ∈ group.2.keys := List.mem_map_of_mem member
    exact lineAt_padRight (isWidth_widest (List.ne_nil_of_mem named)) named "#define " entry.2

/-- Names and values without line feeds give defines without line feeds. -/
theorem unbroken_defineLines {group : String × OrderedMap String String}
    (api : '\n' ∉ group.1.toList)
    (unbroken : ∀ entry ∈ group.2.entries, '\n' ∉ entry.1.toList ∧ '\n' ∉ entry.2.toList) :
    ∀ line ∈ defineLines group, '\n' ∉ line.toList := by
  rw [defineLines_eq, List.forall_mem_cons, forall_mem_underApi]
  refine ⟨?_, fun entry member => ?_, by decide⟩
  · rw [String.toList_append, List.mem_append, not_or]
    exact ⟨by decide, api⟩
  obtain ⟨name, value⟩ := unbroken entry member
  simp only [defineLine, String.toList_append, List.mem_append, not_or, not_feed_mem_padRight]
  exact ⟨⟨⟨by decide, name⟩, by decide⟩, value⟩

/-- A header opens, lists the enumerants of each API with their values at one column, and closes. -/
structure LinesUp (table : ResolvedTable) (scope : Scope) (hasFunctions : Bool) (text : String) :
    Prop where
  cut : ∃ middle blocks, text = Artifact.text (openingLines scope) ++ middle ++
      Artifact.text (closingLines scope hasFunctions) ∧
    feedLines middle.toList = blocks.flatten ∧
    List.Forall₂ BlockLinesUp (groups table scope) blocks

/-- The defines of a rendered header line up. -/
theorem linesUp_of_render {hasFunctions : Bool} {text : String} (unbroken : table.Unbroken)
    (rendered : render table scope hasFunctions = some text) :
    LinesUp table scope hasFunctions text := by
  rw [render_eq] at rendered
  split at rendered
  · cases rendered
  · refine ⟨definitions table scope, (groups table scope).map fun group =>
      (defineLines group).map String.toList, (Option.some.inj rendered).symm, ?_, ?_⟩
    · rw [definitions, Artifact.feedLines_text, List.map_flatMap, List.flatMap_def]
      intro line member
      obtain ⟨group, listed, inside⟩ := List.mem_flatMap.1 member
      have own := unbroken group (List.mem_filter.1 listed).1
      exact unbroken_defineLines own.1 own.2 line inside
    · rw [List.forall₂_map_right_iff, List.forall₂_same]
      exact fun group _ => blockLinesUp_defineLines group

end Header

namespace Artifact

/-- **Columns line up.** In the function table of a scope, all lines that pass a function to the
macro have its name at one column and its parameters at another one, and all lines that give a
function its plain name have what this stands for at one column; in a header, all lines of an API
have the values at one column. Columns are counted in characters. If the entries of a column are
ASCII, then the widest one has exactly one space behind it. -/
theorem columns_line_up (enums : ResolvedTable) (functions : FunctionTable) (scope : Scope) :
    (functions.Unbroken → ∀ text, functions.render scope = some text →
      FunctionTable.LinesUp (functions.functionsOf scope) text) ∧
    (enums.Unbroken → ∀ hasFunctions text, Header.render enums scope hasFunctions = some text →
      Header.LinesUp enums scope hasFunctions text) :=
  ⟨fun unbroken _ rendered => FunctionTable.linesUp_of_render unbroken rendered,
    fun unbroken _ _ rendered => Header.linesUp_of_render unbroken rendered⟩

/-- A table with a name that takes more bytes than characters. -/
def accentedEnums : ResolvedTable :=
  Sections.define (Sections.define .empty "Maß" "GL_Höhe" "1") "Maß" "GL_X" "2"

/-- Functions whose names take more bytes than characters. -/
def accentedFunctions : FunctionTable :=
  FunctionTable.push (FunctionTable.push .empty "Maß" ⟨"GLvoid", "glHöhe", []⟩) "Maß"
    ⟨"GLgröße", "glX", [⟨"GLint", "x"⟩]⟩

/-- The widest entries have an umlaut and are followed by more than one space. -/
def accentedText : String := Artifact.text
  ["// Maß",
    "GLEX_FUNC( GLvoid,    glHöhe,  (GLvoid) );",
    "#ifndef glHöhe",
    "    #define glHöhe  GLEX_glHöhe",
    "#endif",
    "GLEX_FUNC( GLgröße,   glX,     (GLint x) );",
    "#ifndef glX",
    "    #define glX     GLEX_glX",
    "#endif"]

/-- Padding counts characters, so names with accents line up as well. -/
theorem columns_of_accented_names_line_up :
    accentedFunctions.Unbroken ∧ accentedFunctions.render .all = some accentedText ∧
    FunctionTable.LinesUp (accentedFunctions.functionsOf .all) accentedText ∧
    accentedEnums.Unbroken ∧ ∃ text, Header.render accentedEnums .all true = some text ∧
      Header.LinesUp accentedEnums .all true text := by
  have lineUp := columns_line_up accentedEnums accentedFunctions .all
  have functions : accentedFunctions.Unbroken := by decide
  have enums : accentedEnums.Unbroken := by decide
  have table : accentedFunctions.render .all = some accentedText := by decide +kernel
  obtain ⟨text, header⟩ : ∃ text, Header.render accentedEnums .all true = some text :=
    Option.isSome_iff_exists.1 (by decide +kernel)
  exact ⟨functions, table, lineUp.1 functions _ table, enums, text, header,
    lineUp.2 enums _ _ header⟩

end Artifact

end ExtensionLoader
