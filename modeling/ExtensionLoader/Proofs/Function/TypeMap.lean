import ExtensionLoader.Function.TypeMap
import ExtensionLoader.Proofs.OrderedMap
import ExtensionLoader.Proofs.Spec.Line

/-! # The types that a type map gives

The rows of a type map are cut at their commas, so the C types that it gives hold neither a comma
nor a line feed, and translating keeps such a type one of this kind
(`TypeMap.givesFields_parse`).
-/

namespace ExtensionLoader.TypeMap

open Text

/-- A text that can be a field of a row: on one line, and without a comma. -/
structure IsField (text : String) : Prop where
  noComma : ',' ∉ text.toList
  noFeed : '\n' ∉ text.toList

theorem isField_of_isWord {text : String} (word : isWord text.toList = true) : IsField text :=
  ⟨not_mem_word word rfl, not_mem_word word rfl⟩

/-- A type map that translates into texts without commas and line feeds. -/
def GivesFields (types : TypeMap) : Prop := ∀ type, IsField type → IsField (types.translate type)

/-- The fields of a line can stand in a row. -/
theorem isField_of_mem_fields {line field : List Char} (noFeed : '\n' ∉ line)
    (member : field ∈ fields line) : IsField (String.ofList field) := by
  refine ⟨?_, ?_⟩
  · rw [String.toList_ofList]
    intro comma
    cases separator_eq_false_of_mem_pieces field member ',' comma
  · rw [String.toList_ofList]
    intro feed
    exact noFeed (List.mem_filter.1 (mem_of_mem_pieces member feed)).1

/-- The target of a row can stand in a row. -/
theorem isField_of_row? {line : List Char} {row : String × String} (noFeed : '\n' ∉ line)
    (read : row? line = some row) : IsField row.2 := by
  unfold row? at read
  split at read
  · rename_i source second third target rest cut
    split at read
    · cases read
    · cases read
      exact isField_of_mem_fields noFeed (by simp [cut])
  · cases read

/-- What a parsed map gives can stand in a row. -/
theorem isField_of_get?_parse {source type target : String}
    (given : (parse source).get? type = some target) : IsField target := by
  rw [parse, OrderedMap.get?_insert] at given
  split at given
  · cases given
    exact isField_of_isWord (by decide)
  · obtain ⟨line, listed, read⟩ := List.mem_filterMap.1
      (OrderedMap.mem_of_mem_entries_ofList (OrderedMap.mem_entries_iff.2 given))
    exact isField_of_row? (Spec.not_mem_cleanedLines line listed) read

/-- A parsed map gives only texts that can stand in a row. -/
theorem givesFields_parse (source : String) : (parse source).GivesFields := by
  intro type field
  unfold translate
  cases given : (parse source).get? type with
  | none => exact field
  | some target => exact isField_of_get?_parse given

end ExtensionLoader.TypeMap
