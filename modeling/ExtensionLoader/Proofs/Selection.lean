import ExtensionLoader.Proofs.Spec.Layout
import ExtensionLoader.Selection

/-! # Names in an argument and names in a resource

A selection is told by its names alone: those that are not blank, in order, without the blanks
around them (`Selection.Selects`). How the names are written makes no difference. A resource lists
them line by line, with blanks, blank lines and comments anywhere (`Selection.Lists`), and selects
what the same names select between commas (`Selection.list_and_resource_select_alike`).
-/

namespace ExtensionLoader.Selection

open Text Spec

/-- A text with something to read at both of its ends. -/
structure Trimmed (text : List Char) : Prop where
  nonempty : text ≠ []
  starts : ∀ c ∈ text.head?, isBlank c = false
  ends : ∀ c ∈ text.getLast?, isBlank c = false

/-- The names that are not blank, in order and with repetitions, each without the blanks
around it. -/
inductive Trims : List String → List String → Prop
  | nil : Trims [] []
  | blank {name : String} {names named : List String} (blank : AllBlank name.toList)
    (rest : Trims names named) : Trims (name :: names) named
  | name {name core : String} {names named : List String} {lead trail : List Char}
    (whole : name.toList = lead ++ core.toList ++ trail) (blank : AllBlank lead)
    (blankBehind : AllBlank trail) (trimmed : Trimmed core.toList) (rest : Trims names named) :
    Trims (name :: names) (core :: named)

/-- What is selected by some names. -/
structure Selects (names : List String) (selection : Selection) : Prop where
  /-- Every API is selected exactly if no name says anything. -/
  all_iff : selection = all ↔ ∀ name ∈ names, AllBlank name.toList
  /-- The APIs that are selected otherwise. -/
  only_iff : ∀ named, selection = only named ↔ named ≠ [] ∧ Trims names named

/-- What is left of names that are trimmed, without the blank ones. -/
def kept (names : List (List Char)) : List (List Char) :=
  (names.map trim).filter fun name => !name.isEmpty

theorem kept_append (names others : List (List Char)) :
    kept (names ++ others) = kept names ++ kept others := by
  rw [kept, List.map_append, List.filter_append]
  rfl

theorem kept_cons (name : List Char) (names : List (List Char)) :
    kept (name :: names) = kept [name] ++ kept names :=
  kept_append [name] names

theorem kept_blank {name : List Char} (blank : AllBlank name) : kept [name] = [] := by
  have nothing : trim name = [] := congrArg trimEnd (trimStart_eq_nil blank)
  simp [kept, nothing]

theorem kept_trimmed {name : List Char} (trimmed : Trimmed (trim name)) :
    kept [name] = [trim name] := by
  simp [kept, trimmed.nonempty]

theorem kept_congr {name other : List Char} (same : trim name = trim other) :
    kept [name] = kept [other] := by
  simp only [kept, List.map_cons, List.map_nil, same]

theorem ofNames_congr {names others : List (List Char)} (same : kept names = kept others) :
    ofNames names = ofNames others := by
  unfold kept at same
  rw [ofNames, same, ofNames]

/-- A name is blank, or something is left when it is trimmed. -/
theorem allBlank_or_trimmed (name : List Char) : AllBlank name ∨ Trimmed (trim name) := by
  obtain ⟨lead, trail, blank, blankBehind, whole⟩ := exists_trim_append name
  by_cases nonempty : trim name = []
  · rw [nonempty, List.append_nil] at whole
    exact .inl (whole ▸ blank.append blankBehind)
  · exact .inr ⟨nonempty, isBlank_head?_trim name, isBlank_getLast?_trim name⟩

/-- The kept names are the given ones, trimmed and without the blank ones. -/
theorem trims_kept (names : List String) :
    Trims names ((kept (names.map String.toList)).map String.ofList) := by
  induction names with
  | nil => exact .nil
  | cons name names ih =>
    rw [List.map_cons, kept_cons]
    rcases allBlank_or_trimmed name.toList with blank | trimmed
    · rw [kept_blank blank]
      exact .blank blank ih
    · obtain ⟨lead, trail, blank, blankBehind, whole⟩ := exists_trim_append name.toList
      rw [kept_trimmed trimmed]
      exact .name (by rwa [String.toList_ofList]) blank blankBehind
        (by rwa [String.toList_ofList]) ih

/-- Only one list is the given one, trimmed and without the blank names. -/
theorem Trims.eq_kept {names named : List String} (trims : Trims names named) :
    named = (kept (names.map String.toList)).map String.ofList := by
  induction trims with
  | nil => rfl
  | blank blank _ ih => rwa [List.map_cons, kept_cons, kept_blank blank]
  | @name name core names named lead trail whole blank blankBehind trimmed _ ih =>
    have own : trim name.toList = core.toList := by
      rw [whole, trim_append blank core.toList blankBehind,
        trim_eq_self trimmed.starts trimmed.ends]
    rw [List.map_cons, kept_cons, kept_trimmed (own ▸ trimmed), own, ih]
    simp

/-- No name is kept exactly when all are blank. -/
theorem kept_eq_nil_iff (names : List String) :
    kept (names.map String.toList) = [] ↔ ∀ name ∈ names, AllBlank name.toList := by
  induction names with
  | nil => simp [kept]
  | cons name names ih =>
    rw [List.map_cons, kept_cons, List.append_eq_nil_iff, ih, List.forall_mem_cons]
    refine and_congr_left fun _ => ⟨fun nothing => ?_, kept_blank⟩
    rcases allBlank_or_trimmed name.toList with blank | trimmed
    · exact blank
    · rw [kept_trimmed trimmed] at nothing
      cases nothing

/-- With a name left, the selection is what is left. -/
theorem ofNames_of_kept_ne_nil {names : List (List Char)} (nonempty : kept names ≠ []) :
    ofNames names = only ((kept names).map String.ofList) := by
  unfold kept at nonempty ⊢
  rw [ofNames]
  split
  · contradiction
  · rfl

/-- **Names select what is left of them.** -/
theorem selects_ofNames (names : List String) :
    Selects names (ofNames (names.map String.toList)) := by
  by_cases nothing : kept (names.map String.toList) = []
  · have every : ofNames (names.map String.toList) = all := @ofNames_congr _ [] nothing
    refine ⟨iff_of_true every ((kept_eq_nil_iff names).1 nothing), fun named => ?_⟩
    rw [every]
    refine iff_of_false nofun fun both => both.1 ?_
    rw [both.2.eq_kept, nothing, List.map_nil]
  · have own := ofNames_of_kept_ne_nil nothing
    refine ⟨iff_of_false (own ▸ nofun) (mt (kept_eq_nil_iff names).2 nothing), fun named => ?_⟩
    rw [own, only.injEq]
    constructor
    · rintro rfl
      exact ⟨by simpa using nothing, trims_kept names⟩
    · exact fun both => both.2.eq_kept.symm

/-- The names on a line: none on a line of blanks or of a comment, one on every other line. -/
inductive ListLine : List String → List Char → Prop
  | bare {line : List Char} (bare : Tail line) : ListLine [] line
  | name {indent tail : List Char} (blank : AllBlank indent) (name : String) (ends : Tail tail) :
    ListLine [name] (indent ++ name.toList ++ tail)

/-- The names that a text lists on its lines, in order. The last line need not be broken. -/
inductive Lists : List String → List Char → Prop
  | last {names : List String} {line : List Char} (own : ListLine names line)
    (noFeed : '\n' ∉ line) : Lists names line
  | line {names others : List String} {line lineBreak rest : List Char}
    (own : ListLine names line) (noFeed : '\n' ∉ line) (breaks : lineBreak ∈ lineBreaks)
    (later : Lists others rest) : Lists (names ++ others) (line ++ lineBreak ++ rest)

/-- A carriage return at the end of a line is not part of the name. -/
theorem lineName_append_return (line : List Char) : lineName (line ++ ['\r']) = lineName line := by
  rw [lineName, List.takeWhile_append]
  split
  · rename_i whole
    have uncut : line.takeWhile (· ≠ '#') = line :=
      (List.takeWhile_prefix _).eq_of_length whole
    have blank : AllBlank ['\r'] := by decide
    rw [lineName, uncut]
    exact trim_append allBlank_nil line blank
  · rfl

/-- A return at the end of a line does not change its name, whether it belongs to the line break
or not. -/
theorem map_lineName_feedLines (text : List Char) :
    (feedLines (unifyBreaks text)).map lineName = (feedLines text).map lineName := by
  have shown := forall₂_shown text
  generalize feedLines text = raws at shown ⊢
  generalize feedLines (unifyBreaks text) = lines at shown ⊢
  induction shown with
  | nil => rfl
  | cons own _ ih =>
    rw [List.map_cons, List.map_cons, ih]
    rcases own with rfl | rfl
    · rfl
    · rw [lineName_append_return]

/-- A tail holds nothing but blanks before its comment. -/
theorem allBlank_takeWhile_of_tail {tail : List Char} (ends : Tail tail) :
    AllBlank (tail.takeWhile (· ≠ '#')) := by
  cases ends with
  | blank blank => exact fun c member => blank c ((List.takeWhile_sublist _).subset member)
  | @comment gap blank text =>
    have noHash : ∀ c ∈ gap, (decide (c ≠ '#')) = true := fun c member =>
      decide_eq_true (ne_of_isBlank (blank c member) rfl)
    rw [List.takeWhile_append_of_pos noHash]
    simpa using blank

/-- A line without a name gives a blank one. -/
theorem allBlank_lineName_of_bare {line : List Char} (bare : Tail line) :
    AllBlank (lineName line) := by
  have nothing : lineName line = [] :=
    congrArg trimEnd (trimStart_eq_nil (allBlank_takeWhile_of_tail bare))
  rw [nothing]
  exact allBlank_nil

/-- A line gives the name between its indent and its tail. -/
theorem lineName_of_name {indent name tail : List Char} (blank : AllBlank indent)
    (noHash : '#' ∉ name) (ends : Tail tail) : lineName (indent ++ name ++ tail) = trim name := by
  have uncut : ∀ c ∈ indent ++ name, (decide (c ≠ '#')) = true := by
    intro c member
    rcases List.mem_append.1 member with before | own
    · exact decide_eq_true (ne_of_isBlank (blank c before) rfl)
    · exact decide_eq_true (ne_of_mem_of_not_mem own noHash)
  rw [lineName, List.takeWhile_append_of_pos uncut]
  exact trim_append blank name (allBlank_takeWhile_of_tail ends)

/-- A line of a listing keeps the names it lists. -/
theorem ListLine.kept_eq {names : List String} {line : List Char} (own : ListLine names line)
    (noHash : ∀ name ∈ names, '#' ∉ name.toList) :
    kept [lineName line] = kept (names.map String.toList) := by
  cases own with
  | bare bare => exact kept_blank (allBlank_lineName_of_bare bare)
  | name blank name ends =>
    refine kept_congr ?_
    rw [lineName_of_name blank (noHash name List.mem_cons_self) ends, trim_trim]

/-- The names on the lines of a text are those that it lists. -/
theorem Lists.kept_eq {names : List String} {text : List Char} (lists : Lists names text)
    (noHash : ∀ name ∈ names, '#' ∉ name.toList) :
    kept ((feedLines text).map lineName) = kept (names.map String.toList) := by
  induction lists with
  | @last names line own noFeed =>
    rw [← own.kept_eq noHash]
    by_cases nonempty : line = []
    · rw [nonempty]
      rfl
    · rw [feedLines_eq_singleton nonempty noFeed]
      rfl
  | @line names others line lineBreak rest own noFeed breaks later ih =>
    have first : feedLines (line ++ lineBreak ++ rest) = line :: feedLines rest ∨
        feedLines (line ++ lineBreak ++ rest) = (line ++ ['\r']) :: feedLines rest := by
      rcases List.mem_pair.1 breaks with rfl | rfl
      · rw [List.append_assoc]
        exact .inl (feedLines_append noFeed rest)
      · have whole : line ++ ['\r', '\n'] ++ rest = line ++ ['\r'] ++ '\n' :: rest := by simp
        rw [whole]
        exact .inr (feedLines_append (by simp [noFeed]) rest)
    have named : (feedLines (line ++ lineBreak ++ rest)).map lineName =
        lineName line :: (feedLines rest).map lineName := by
      rcases first with cut | cut
      · rw [cut, List.map_cons]
      · rw [cut, List.map_cons, lineName_append_return]
    rw [List.forall_mem_append] at noHash
    rw [named, kept_cons, own.kept_eq noHash.1, ih noHash.2, List.map_append, kept_append]

theorem ofResource_of_lists {names : List String} {text : String}
    (lists : Lists names text.toList) (noHash : ∀ name ∈ names, '#' ∉ name.toList) :
    ofResource text = ofNames (names.map String.toList) := by
  refine ofNames_congr ?_
  rw [Text.lines, map_lineName_feedLines, lists.kept_eq noHash]

/-- Names joined with commas select those names. -/
theorem ofList_intercalate {names : List String} (noComma : ∀ name ∈ names, ',' ∉ name.toList) :
    ofList (",".intercalate names) = ofNames (names.map String.toList) := by
  rw [ofList, String.toList_intercalate, pieces_eq_splitOn]
  by_cases nonempty : names = []
  · rw [nonempty]
    rfl
  · have separate : ∀ name ∈ names.map String.toList, ',' ∉ name := by
      simpa using noComma
    exact congrArg ofNames (List.splitOn_intercalate ',' separate (by simpa using nonempty))

/-- An argument names a resource exactly when it is `@` and the name. -/
theorem resource?_eq_some_iff {argument resource : String} :
    resource? argument = some resource ↔ argument = "@" ++ resource := by
  have whole : argument = "@" ++ resource ↔ argument.toList = '@' :: resource.toList := by
    rw [← String.toList_inj, String.toList_append]
    rfl
  rw [whole, resource?]
  split
  · rename_i name cut
    rw [cut, List.cons.injEq, Option.some.injEq, ← String.toList_inj, String.toList_ofList]
    simp
  · rename_i noMark
    exact iff_of_false nofun (noMark _)

/-- An argument that does not start with `@` names no resource. -/
theorem resource?_eq_none {argument : String} (noMark : argument.toList.head? ≠ some '@') :
    resource? argument = none := by
  rw [Option.eq_none_iff_forall_ne_some]
  intro resource own
  rw [resource?_eq_some_iff.1 own, String.toList_append] at noMark
  exact noMark rfl

section Parse

variable (read : String → Except Fault String)

theorem parse_of_list {argument : String} (own : resource? argument = none) :
    parse (m := Id) read argument = .ok (ofList argument) := by
  rw [parse, own]
  rfl

/-- An argument that names a resource is the selection of that resource, if it can be read. -/
theorem parse_of_resource (resource : String) :
    parse (m := Id) read ("@" ++ resource) = (read resource).map ofResource := by
  rw [parse, resource?_eq_some_iff.2 rfl]
  change Bind.bind (m := Id) (read resource) _ = _
  cases read resource <;> rfl

/-- Nothing but a resource that cannot be read makes an argument fail. -/
theorem parse_eq_error_iff (argument : String) (fault : Fault) :
    parse (m := Id) read argument = .error fault ↔
      ∃ resource, argument = "@" ++ resource ∧ read resource = .error fault := by
  cases named : resource? argument with
  | none =>
    rw [parse_of_list read named]
    refine iff_of_false nofun ?_
    rintro ⟨resource, rfl, -⟩
    rw [resource?_eq_some_iff.2 rfl] at named
    cases named
  | some resource =>
    obtain rfl := resource?_eq_some_iff.1 named
    rw [parse_of_resource]
    constructor
    · intro failed
      cases given : read resource with
      | error own =>
        rw [given] at failed
        cases failed
        exact ⟨resource, rfl, given⟩
      | ok text =>
        rw [given] at failed
        cases failed
    · rintro ⟨other, same, failed⟩
      obtain rfl : resource = other := by
        rw [resource?_eq_some_iff.2 same] at named
        exact (Option.some.inj named).symm
      rw [failed]
      rfl

/-- **A list and a resource that hold the same names select the same APIs.** Names without commas
and hashes select the same in a list with commas as in every resource that lists them line by line,
whatever blanks, blank lines and comments it holds and however its lines are broken: the APIs that
are named, in order and with repetitions, or every API if nothing is named. An argument fails
exactly if it names a resource that cannot be read. -/
theorem list_and_resource_select_alike :
    (∀ names : List String, (∀ name ∈ names, ',' ∉ name.toList ∧ '#' ∉ name.toList) →
      (",".intercalate names).toList.head? ≠ some '@' →
      ∃ selection, Selects names selection ∧
        parse (m := Id) read (",".intercalate names) = .ok selection ∧
        ∀ resource text, read resource = .ok text → Lists names text.toList →
          parse (m := Id) read ("@" ++ resource) = .ok selection) ∧
    ∀ argument fault, parse (m := Id) read argument = .error fault ↔
      ∃ resource, argument = "@" ++ resource ∧ read resource = .error fault := by
  refine ⟨fun names separate noMark => ?_, parse_eq_error_iff read⟩
  refine ⟨ofNames (names.map String.toList), selects_ofNames names, ?_, ?_⟩
  · rw [parse_of_list read (resource?_eq_none noMark),
      ofList_intercalate fun name member => (separate name member).1]
  · intro resource text readable lists
    rw [parse_of_resource, readable, Except.map,
      ofResource_of_lists lists fun name member => (separate name member).2]

end Parse

/-- Names with blanks around them, one of them blank and one of them given again. -/
def spacedNames : List String := ["ARB_imaging", " ", "EXT_fog ", "ARB_imaging"]

/-- A resource that lists these names, with comments, blank lines and both kinds of line breaks. -/
def namesResource : String :=
  "# wanted\r\n\tARB_imaging  # first\n  \r\nEXT_fog \t# twice, see below\r\n\n ARB_imaging#"

/-- The resource of the example lists the names of the example. -/
theorem lists_namesResource : Lists spacedNames namesResource.toList := by
  have feed : ['\n'] ∈ lineBreaks := by decide
  have returnFeed : ['\r', '\n'] ∈ lineBreaks := by decide
  have heading : ListLine [] "# wanted".toList := .bare (.comment allBlank_nil " wanted".toList)
  have first : ListLine ["ARB_imaging"] "\tARB_imaging  # first".toList :=
    @ListLine.name ['\t'] _ (by decide) "ARB_imaging"
      (@Tail.comment [' ', ' '] (by decide) " first".toList)
  have second : ListLine [" "] "  ".toList :=
    @ListLine.name [' '] [] (by decide) " " (.blank allBlank_nil)
  have third : ListLine ["EXT_fog "] "EXT_fog \t# twice, see below".toList :=
    @ListLine.name [] _ allBlank_nil "EXT_fog "
      (@Tail.comment ['\t'] (by decide) " twice, see below".toList)
  have empty : ListLine [] "".toList := .bare (.blank allBlank_nil)
  have last : ListLine ["ARB_imaging"] " ARB_imaging#".toList :=
    @ListLine.name [' '] _ (by decide) "ARB_imaging" (@Tail.comment [] allBlank_nil [])
  have listed := Lists.line heading (by decide) returnFeed <|
    .line first (by decide) feed <| .line second (by decide) returnFeed <|
    .line third (by decide) returnFeed <| .line empty (by decide) feed <| .last last (by decide)
  convert listed using 1
  · rfl
  · decide +kernel

theorem list_and_resource_of_spaced_names :
    ∃ selection,
      parse (m := Id) (fun _ => .ok namesResource) (",".intercalate spacedNames) = .ok selection ∧
      parse (m := Id) (fun _ => .ok namesResource) "@names" = .ok selection ∧
      ∀ named, selection = only named ↔ named ≠ [] ∧ Trims spacedNames named := by
  obtain ⟨selection, selects, listed, held⟩ :=
    (list_and_resource_select_alike fun _ => .ok namesResource).1 spacedNames (by decide)
      (by decide)
  exact ⟨selection, listed, held "names" namesResource rfl lists_namesResource, selects.only_iff⟩

end ExtensionLoader.Selection
