import ExtensionLoader.Proofs.Artifact.Names
import ExtensionLoader.Proofs.Artifact.Text
import ExtensionLoader.Proofs.Text.Spaces
import Mathlib.Data.List.Forall2

/-! # The merged files and the files of single APIs

The files of all APIs together hold what the files of the single APIs hold, in table order. The
definitions of the merged header are those of the headers of the APIs one after the other; the
merged function table is that of the tables of the APIs with an empty line between two of them,
apart from the widths of its columns (`Artifact.merged_files_join_api_files`).
-/

namespace ExtensionLoader

namespace Scope

variable {α : Type}

/-- The entries of a map that belong to a scope and are to be kept. -/
def pick (scope : Scope) (kept : α → Bool) (map : OrderedMap String α) : List (String × α) :=
  map.entries.filter fun (name, held) => (scope.api?.all fun wanted => name = wanted) && kept held

theorem mem_pick_all {kept : α → Bool} {map : OrderedMap String α} {entry : String × α} :
    entry ∈ Scope.all.pick kept map ↔ entry ∈ map.entries ∧ kept entry.2 = true := by
  simp [pick, api?]

theorem mem_pick_api {api : String} {kept : α → Bool} {map : OrderedMap String α}
    {entry : String × α} : entry ∈ (Scope.api api).pick kept map ↔
      entry ∈ map.entries ∧ entry.1 = api ∧ kept entry.2 = true := by
  simp [pick, api?]

/-- The entry of an API is all that belongs to its scope. -/
theorem pick_api_of_mem {kept : α → Bool} {map : OrderedMap String α} {entry : String × α}
    (member : entry ∈ Scope.all.pick kept map) : (Scope.api entry.1).pick kept map = [entry] := by
  obtain ⟨present, keep⟩ := mem_pick_all.1 member
  have distinct := map.nodup
  obtain ⟨front, back, split⟩ := List.append_of_mem present
  rw [split, List.map_append, List.map_cons, List.nodup_append, List.nodup_cons] at distinct
  obtain ⟨-, ⟨notBehind, -⟩, apart⟩ := distinct
  have before (other : String × α) (earlier : other ∈ front) : other.1 ≠ entry.1 :=
    apart _ (List.mem_map_of_mem earlier) _ List.mem_cons_self
  have behind (other : String × α) (later : other ∈ back) : other.1 ≠ entry.1 := fun same =>
    notBehind (same ▸ List.mem_map_of_mem later)
  unfold pick
  rw [split, List.filter_append, List.filter_eq_nil_iff.2, List.filter_cons_of_pos,
    List.filter_eq_nil_iff.2, List.nil_append]
  · intro other later
    simp [api?, behind other later]
  · simpa [api?] using keep
  · intro other earlier
    simp [api?, before other earlier]

/-- The scope of all picks nothing exactly when no API's scope does. -/
theorem pick_all_eq_nil_iff {kept : α → Bool} {map : OrderedMap String α} :
    Scope.all.pick kept map = [] ↔ ∀ api ∈ map.keys, (Scope.api api).pick kept map = [] := by
  constructor
  · intro nothing api _
    apply List.eq_nil_iff_forall_not_mem.2
    intro entry member
    obtain ⟨present, -, keep⟩ := mem_pick_api.1 member
    exact List.not_mem_nil (nothing ▸ mem_pick_all.2 ⟨present, keep⟩)
  · intro nothing
    apply List.eq_nil_iff_forall_not_mem.2
    intro entry member
    have known : entry.1 ∈ map.keys := List.mem_map_of_mem (mem_pick_all.1 member).1
    have single := pick_api_of_mem member
    rw [nothing _ known] at single
    cases single

end Scope

theorem Header.groups_eq (table : ResolvedTable) (scope : Scope) :
    groups table scope = scope.pick (fun names => !names.isEmpty) table := rfl

theorem Header.groups_api {table : ResolvedTable} {group : String × OrderedMap String String}
    (member : group ∈ groups table .all) : groups table (.api group.1) = [group] := by
  rw [groups_eq] at member ⊢
  exact Scope.pick_api_of_mem member

theorem FunctionTable.groups_eq (table : FunctionTable) (scope : Scope) :
    table.groups scope = scope.pick (fun records => !records.isEmpty) table := rfl

/-- The scope of an API has that API's functions. -/
theorem FunctionTable.groups_api {table : FunctionTable} {group : String × List FunctionRecord}
    (member : group ∈ table.groups .all) : table.groups (.api group.1) = [group] := by
  rw [groups_eq] at member ⊢
  exact Scope.pick_api_of_mem member

/-- The APIs that have enumerants, in table order. -/
def ResolvedTable.filledApis (table : ResolvedTable) : List String :=
  (table.entries.filter fun (_, names) => !names.isEmpty).map Prod.fst

/-- The APIs that have functions, in table order. -/
def FunctionTable.filledApis (table : FunctionTable) : List String :=
  (table.entries.filter fun (_, records) => !records.isEmpty).map Prod.fst

namespace Artifact

/-- Texts whose lines are alike are alike. -/
theorem alike_text {first second : List String} (alike : List.Forall₂ Text.Alike first second) :
    Text.Alike (text first) (text second) := by
  induction alike with
  | nil => rfl
  | cons here _ ih =>
    rw [text_cons, text_cons]
    exact (here.append (.refl _)).append ih

end Artifact

namespace FunctionTable

/-- An entry is alike whatever its block is padded to. -/
theorem alike_entryLine (columns others : Columns) (record : FunctionRecord) :
    Text.Alike (entryLine columns record) (entryLine others record) := by
  have cut (columns : Columns) : entryLine columns record =
      "GLEX_FUNC( " ++ (Text.padRight columns.returnWidth (record.returnType ++ ",") ++ " ") ++
        (Text.padRight (columns.nameWidth + 1) (record.name ++ ",") ++ " (") ++
        (record.parametersText ++ ") );") := by
    unfold entryLine
    simp only [String.append_assoc]
  rw [cut, cut]
  exact (((Text.Alike.refl _).append (Text.alike_padRight rfl _ _ _)).append
    (Text.alike_padRight rfl _ _ _)).append (.refl _)

/-- An alias is alike whatever its block is padded to. -/
theorem alike_aliasLine (columns others : Columns) (record : FunctionRecord) :
    Text.Alike (aliasLine columns record) (aliasLine others record) := by
  have cut (columns : Columns) : aliasLine columns record =
      "    #define " ++ (Text.padRight columns.nameWidth record.name ++ " GLEX_") ++
        record.name := by
    unfold aliasLine
    simp only [String.append_assoc]
  rw [cut, cut]
  exact ((Text.Alike.refl _).append (Text.alike_padRight rfl _ _ _)).append (.refl _)

/-- The lines of functions are alike whatever the block is padded to. -/
theorem alike_recordLines (columns others : Columns) (records : List FunctionRecord) :
    List.Forall₂ Text.Alike (records.flatMap (recordLines columns))
      (records.flatMap (recordLines others)) := by
  induction records with
  | nil => exact .nil
  | cons record rest ih =>
    rw [List.flatMap_cons, List.flatMap_cons]
    exact .cons (alike_entryLine columns others record) (.cons (.refl _)
      (.cons (alike_aliasLine columns others record) (.cons (.refl _) ih)))

/-- The part of the file for one API, in columns of any widths. -/
def groupText (columns : Columns) (group : String × List FunctionRecord) : String :=
  Artifact.text (groupLines columns group)

theorem alike_groupText (columns others : Columns) (group : String × List FunctionRecord) :
    Text.Alike (groupText columns group) (groupText others group) :=
  Artifact.alike_text (.cons (.refl _) (alike_recordLines columns others group.2))

/-- A function table is its blocks with an empty line between them. -/
theorem render_eq (table : FunctionTable) (scope : Scope) :
    table.render scope = if table.groups scope = [] then none
      else some ("\n".intercalate ((table.groups scope).map
        (groupText (.ofRecords ((table.groups scope).flatMap Prod.snd))))) := by
  unfold render
  cases table.groups scope with
  | nil => rfl
  | cons group rest =>
    rw [if_neg (List.cons_ne_nil _ _)]
    dsimp only
    rw [fileLines, Artifact.text_intercalate, List.map_map]
    rfl

/-- There is no function table exactly when the scope has no function. -/
theorem render_eq_none_iff {table : FunctionTable} {scope : Scope} :
    table.render scope = none ↔ table.groups scope = [] := by
  rw [render_eq]
  split <;> simp_all

/-- The table of one API that has functions. -/
def apiText (group : String × List FunctionRecord) : String :=
  groupText (.ofRecords group.2) group

/-- The function table of an API is its block. -/
theorem render_api {table : FunctionTable} {group : String × List FunctionRecord}
    (member : group ∈ table.groups .all) : table.render (.api group.1) = some (apiText group) := by
  rw [render_eq, groups_api member, if_neg (List.cons_ne_nil _ _)]
  simp [apiText]

/-- The function table of all, up to runs of blanks. -/
theorem collapse_render_all (table : FunctionTable) :
    (table.render .all).map Text.collapseSpaces = if table.groups .all = [] then none
      else some ("\n".intercalate ((table.groups .all).map fun group =>
        Text.collapseSpaces (apiText group))) := by
  rw [render_eq]
  split
  · rfl
  · rw [Option.map_some, Text.collapseSpaces_intercalate, List.map_map]
    refine congrArg (fun texts => some ("\n".intercalate texts)) (List.map_congr_left ?_)
    intro group _
    exact alike_groupText _ _ group

end FunctionTable

namespace Header

/-- The lines of a header before its definitions. -/
def openingLines (scope : Scope) : List String :=
  ["#ifndef " ++ scope.guard, "#define " ++ scope.guard, ""] ++
  linuxLines scope ++ windowsLines scope ++ elsewhereLines ++
  ["#ifndef " ++ scope.ignoreMacro, "", "#include <GL/gl.h>",
    "#include \"" ++ Globals.file ++ "\"", ""]

/-- The lines of a header behind its definitions. -/
def closingLines (scope : Scope) (hasFunctions : Bool) : List String :=
  (if hasFunctions then loaderLines scope else []) ++
    ["#endif // " ++ scope.ignoreMacro, "", "#endif // " ++ scope.guard]

/-- A header is its opening, the defines of its groups and its closing. -/
theorem fileLines_bodyLines (table : ResolvedTable) (scope : Scope) (hasFunctions : Bool) :
    fileLines scope (bodyLines table scope hasFunctions) =
      openingLines scope ++ (groups table scope).flatMap defineLines ++
        closingLines scope hasFunctions := by
  simp only [fileLines, bodyLines, openingLines, closingLines, List.append_assoc]

/-- The definitions of a scope. -/
def definitions (table : ResolvedTable) (scope : Scope) : String :=
  Artifact.text ((groups table scope).flatMap defineLines)

/-- A header without a body has no enumerants. -/
theorem groups_eq_nil_of_bodyLines {table : ResolvedTable} {scope : Scope} {hasFunctions : Bool}
    (nothing : bodyLines table scope hasFunctions = []) : groups table scope = [] := by
  obtain ⟨noDefinitions, -⟩ := List.append_eq_nil_iff.1 nothing
  apply List.eq_nil_iff_forall_not_mem.2
  intro group member
  have empty := List.flatMap_eq_nil_iff.1 noDefinitions group member
  cases empty

/-- The definitions of all are those of each API, in order. -/
theorem definitions_all (table : ResolvedTable) : definitions table .all =
    String.join ((groups table .all).map fun group => definitions table (.api group.1)) := by
  rw [definitions, Artifact.text_flatMap]
  congr 1
  apply List.map_congr_left
  intro group member
  rw [definitions, groups_api member, List.flatMap_singleton]

end Header

namespace Artifact

variable (enums : ResolvedTable) (functions : FunctionTable)

/-- The definitions are what the header of a scope holds between its opening and its closing lines,
which do not depend on the enumerants. Without a header there are none. -/
def HoldsDefinitions (scope : Scope) (definitions : String) : Prop :=
  match emitted? enums functions scope .header with
  | some header => header = text (Header.openingLines scope) ++ definitions ++
      text (Header.closingLines scope (emitted? enums functions scope .functionTable).isSome)
  | none => definitions = ""

/-- A header holds its definitions as they are. -/
theorem holdsDefinitions (scope : Scope) :
    HoldsDefinitions enums functions scope (Header.definitions enums scope) := by
  unfold HoldsDefinitions
  rw [emitted?_eq, emitted?_eq]
  simp only [contents?, Header.render]
  cases body : Header.bodyLines enums scope (functions.render scope).isSome with
  | nil =>
    dsimp only
    rw [Header.definitions, Header.groups_eq_nil_of_bodyLines body]
    rfl
  | cons line rest =>
    dsimp only
    rw [← body, Header.fileLines_bodyLines, text_append, text_append]
    rfl

/-- An API with an enumerant has a header. -/
theorem isSome_header {group : String × OrderedMap String String}
    (member : group ∈ Header.groups enums .all) :
    (emitted? enums functions (.api group.1) .header).isSome = true := by
  rw [emitted?_eq]
  simp only [contents?, Header.render]
  cases body : Header.bodyLines enums (.api group.1) (functions.render (.api group.1)).isSome with
  | nil =>
    have nothing := Header.groups_eq_nil_of_bodyLines body
    rw [Header.groups_api member] at nothing
    cases nothing
  | cons line rest => rfl

theorem filledApis_eq : enums.filledApis = (Header.groups enums .all).map Prod.fst := by
  simp [ResolvedTable.filledApis, Header.groups, Scope.api?]

theorem filledApis_functions_eq :
    functions.filledApis = (functions.groups .all).map Prod.fst := by
  simp [FunctionTable.filledApis, FunctionTable.groups, Scope.api?]

/-- **The merged files join the files of the single APIs.** The merged header has the definitions
of the headers of all APIs with enumerants, in table order and byte for byte. The merged function
table has the tables of all APIs with functions, in table order, with an empty line between two of
them and with gaps of other widths; it is left out if and only if all of them are. -/
theorem merged_files_join_api_files :
    (∃ blocks : List String,
      List.Forall₂ (fun api block =>
        (emitted? enums functions (.api api) .header).isSome = true ∧
          HoldsDefinitions enums functions (.api api) block) enums.filledApis blocks ∧
      HoldsDefinitions enums functions .all (String.join blocks)) ∧
    (∃ tables : List String,
      List.Forall₂ (fun api table =>
        emitted? enums functions (.api api) .functionTable = some table)
        functions.filledApis tables ∧
      (emitted? enums functions .all .functionTable).map Text.collapseSpaces =
        if tables = [] then none
        else some ("\n".intercalate (tables.map Text.collapseSpaces))) ∧
    (emitted? enums functions .all .functionTable = none ↔
      ∀ api ∈ functions.keys, emitted? enums functions (.api api) .functionTable = none) := by
  refine ⟨?_, ?_, ?_⟩
  · refine ⟨(Header.groups enums .all).map fun group =>
      Header.definitions enums (.api group.1), ?_, ?_⟩
    · rw [filledApis_eq, List.forall₂_map_left_iff, List.forall₂_map_right_iff, List.forall₂_same]
      intro group member
      exact ⟨isSome_header enums functions member, holdsDefinitions enums functions _⟩
    · rw [← Header.definitions_all]
      exact holdsDefinitions enums functions .all
  · refine ⟨(functions.groups .all).map FunctionTable.apiText, ?_, ?_⟩
    · rw [filledApis_functions_eq, List.forall₂_map_left_iff, List.forall₂_map_right_iff,
        List.forall₂_same]
      intro group member
      rw [emitted?_eq]
      exact FunctionTable.render_api member
    · simp only [emitted?_eq, List.map_eq_nil_iff, List.map_map]
      exact functions.collapse_render_all
  · simp only [emitted?_eq, contents?, FunctionTable.render_eq_none_iff, FunctionTable.groups_eq]
    exact Scope.pick_all_eq_nil_iff

end Artifact

end ExtensionLoader
