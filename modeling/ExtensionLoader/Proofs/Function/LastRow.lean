import ExtensionLoader.Proofs.Function.TypeMap
import ExtensionLoader.Proofs.Spec.Layout

/-! # The last row counts

A row of a type map gives a C type to a spec type if its first and fourth fields name them
(`TypeMap.Gives`). Of all rows for a type the last one counts, and a row that gives nothing, such as
one with a wildcard, does not take an earlier one back (`TypeMap.type_map_keeps_last_rows`).
-/

namespace ExtensionLoader.TypeMap

open Text

variable {line : List Char} {type target : String}

/-- The fields of a row, which without its spaces and tabs is made of them with commas between. -/
structure HasFields (line : List Char) (given : List (List Char)) : Prop where
  nonempty : given ≠ []
  noComma : ∀ field ∈ given, ',' ∉ field
  whole : [','].intercalate given = line.filter fun c => c ≠ ' ' ∧ c ≠ '\t'

/-- The fields of a line are its pieces between commas, trimmed. -/
theorem fields_eq_iff {given : List (List Char)} : fields line = given ↔ HasFields line given := by
  rw [fields, pieces_eq_splitOn]
  constructor
  · rintro rfl
    refine ⟨?_, ?_, List.intercalate_splitOn ','⟩
    · rw [← pieces_eq_splitOn]
      exact pieces_ne_nil _ _
    · intro field member comma
      rw [← pieces_eq_splitOn] at member
      cases separator_eq_false_of_mem_pieces field member ',' comma
  · intro has
    rw [← has.whole]
    exact List.splitOn_intercalate ',' has.noComma has.nonempty

/-- A row gives a C type to a spec type: they are its fourth and its first field. Neither field is
empty, and a wildcard is no C type. -/
def Gives (line : List Char) (type target : String) : Prop :=
  ∃ second third more, HasFields line (type.toList :: second :: third :: target.toList :: more) ∧
    type ≠ "" ∧ target ≠ "" ∧ target ≠ "*"

/-- A line is a row exactly when it gives the type a target. -/
theorem row?_eq_some_iff : row? line = some (type, target) ↔ Gives line type target := by
  have named (field : List Char) (text : String) :
      String.ofList field = text ↔ field = text.toList := by
    rw [← String.toList_inj, String.toList_ofList]
  simp only [Gives, ← fields_eq_iff]
  unfold row?
  constructor
  · intro read
    split at read
    · rename_i first second third fourth more cut
      split at read
      · cases read
      · rename_i given
        cases read
        rw [List.isEmpty_iff, List.isEmpty_iff, not_or, not_or] at given
        obtain ⟨source, own, foreign⟩ := given
        refine ⟨second, third, more, ?_, mt (named first "").1 source, mt (named fourth "").1 own,
          mt (named fourth "*").1 foreign⟩
        rw [cut, String.toList_ofList, String.toList_ofList]
    · cases read
  · rintro ⟨second, third, more, cut, source, own, foreign⟩
    have kept : ¬ (type.toList.isEmpty = true ∨ target.toList.isEmpty = true ∨
        target.toList = ['*']) := by
      rw [List.isEmpty_iff, List.isEmpty_iff, not_or, not_or]
      exact ⟨mt (@String.toList_inj type "").1 source, mt (@String.toList_inj target "").1 own,
        mt (@String.toList_inj target "*").1 foreign⟩
    rw [cut]
    dsimp only
    rw [if_neg kept, String.ofList_toList, String.ofList_toList]

/-- The C type that a row gives to a spec type. -/
def target? (type : String) (line : List Char) : Option String :=
  ((row? line).filter fun row => row.1 = type).map Prod.snd

/-- A line has a target for a type exactly when it gives it. -/
theorem target?_eq_some_iff : target? type line = some target ↔ Gives line type target := by
  rw [← row?_eq_some_iff, target?]
  cases row? line with
  | none => simp
  | some row =>
    obtain ⟨source, own⟩ := row
    simp [Option.filter_some]

theorem target?_eq_none_iff : target? type line = none ↔ ∀ target, ¬ Gives line type target := by
  simp only [Option.eq_none_iff_forall_ne_some, ne_eq, target?_eq_some_iff]

/-- The last line that gives any C type to a spec type gives it this one. -/
def LastGives (lines : List (List Char)) (type target : String) : Prop :=
  ∃ before line after, lines = before ++ line :: after ∧ Gives line type target ∧
    ∀ other ∈ after, ∀ text, ¬ Gives other type text

/-- All types but the forced one are looked up from the last row on. -/
theorem get?_parse_eq (source : String) (other : type ≠ "void") :
    (parse source).get? type = (Spec.cleanedLines source).reverse.findSome? (target? type) := by
  rw [parse, OrderedMap.get?_insert, if_neg other, OrderedMap.get?_ofList, ← List.getLast?_map,
    List.filter_filterMap, List.map_filterMap, List.getLast?_filterMap]
  rfl

/-- The search from the end finds what the last row gives. -/
theorem findSome?_reverse_eq_some_iff {lines : List (List Char)} :
    lines.reverse.findSome? (target? type) = some target ↔ LastGives lines type target := by
  rw [List.findSome?_eq_some_iff]
  simp only [target?_eq_some_iff, target?_eq_none_iff, LastGives]
  constructor
  · rintro ⟨after, line, before, whole, own, others⟩
    refine ⟨before.reverse, line, after.reverse, ?_, own, ?_⟩
    · rw [← List.reverse_reverse lines, whole]
      simp
    · simpa using others
  · rintro ⟨before, line, after, rfl, own, others⟩
    exact ⟨after.reverse, line, before.reverse, by simp, own, by simpa using others⟩

theorem findSome?_reverse_eq_none_iff {lines : List (List Char)} :
    lines.reverse.findSome? (target? type) = none ↔
      ∀ line ∈ lines, ∀ target, ¬ Gives line type target := by
  simp [List.findSome?_eq_none_iff, target?_eq_none_iff]

theorem translate_eq_iff {types : TypeMap} : types.translate type = target ↔
    types.get? type = some target ∨ types.get? type = none ∧ type = target := by
  rw [translate]
  cases types.get? type <;> simp

/-- Behind a line break, a source takes precedence over the one before it. -/
theorem get?_parse_append {lineBreak : String} (breaks : lineBreak.toList ∈ Spec.lineBreaks)
    (source later : String) (other : type ≠ "void") :
    (parse (source ++ lineBreak ++ later)).get? type =
      ((parse later).get? type).or ((parse source).get? type) := by
  rw [get?_parse_eq _ other, get?_parse_eq _ other, get?_parse_eq _ other,
    Spec.cleanedLines_append_break breaks, List.reverse_append, List.findSome?_append]

/-- **Of the rows for a type the last one counts.** A type map gives `void` the type `GLvoid`. To
any other type it gives what the last row gives that gives it anything, and nothing if there is no
such row; a type without an entry is translated as itself. So of two sources, one behind the other,
the second one decides about each type that it gives anything, and the first one about all others.
-/
theorem type_map_keeps_last_rows (source : String) :
    (parse source).get? "void" = some "GLvoid" ∧
    (∀ type, type ≠ "void" →
      (∀ target, (parse source).get? type = some target ↔
        LastGives (Spec.cleanedLines source) type target) ∧
      ((parse source).get? type = none ↔
        ∀ line ∈ Spec.cleanedLines source, ∀ target, ¬ Gives line type target)) ∧
    (∀ type target, (parse source).translate type = target ↔
      (parse source).get? type = some target ∨ (parse source).get? type = none ∧ type = target) ∧
    ∀ later lineBreak : String, lineBreak.toList ∈ Spec.lineBreaks → ∀ type, type ≠ "void" →
      (parse (source ++ lineBreak ++ later)).get? type =
        ((parse later).get? type).or ((parse source).get? type) := by
  refine ⟨?void, ?rows, fun type target => translate_eq_iff, ?behind⟩
  case void => rw [parse, OrderedMap.get?_insert, if_pos rfl]
  case rows =>
    intro type other
    rw [get?_parse_eq source other]
    exact ⟨fun target => findSome?_reverse_eq_some_iff, findSome?_reverse_eq_none_iff⟩
  case behind =>
    exact fun later lineBreak breaks type other => get?_parse_append breaks source later other

/-- Neither a row with a wildcard nor a short one takes an earlier row back, in the same source or
in one behind it. -/
theorem wildcards_and_short_rows_erase_nothing :
    let source := "Int, *, *, GLint # signed\nInt, *, *, *\nInt, GLbyte\nvoid, *, *, int"
    let later := "Int, *, *, *, *, *\nFlag, , , GLboolean"
    ("Int" ≠ "void" ∧ "\r\n".toList ∈ Spec.lineBreaks) ∧
    LastGives (Spec.cleanedLines source) "Int" "GLint" ∧
    (parse (source ++ "\r\n" ++ later)).get? "Int" = some "GLint" := by
  intro source later
  obtain ⟨-, rows, -, behind⟩ := type_map_keeps_last_rows source
  have own : (parse source).get? "Int" = some "GLint" := by decide +kernel
  have nothing : (parse later).get? "Int" = none := by decide +kernel
  refine ⟨⟨by decide, by decide⟩, ((rows "Int" (by decide)).1 "GLint").1 own, ?_⟩
  rw [behind later "\r\n" (by decide) "Int" (by decide), nothing, own]
  rfl

end ExtensionLoader.TypeMap
