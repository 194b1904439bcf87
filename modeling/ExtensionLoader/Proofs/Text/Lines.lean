import ExtensionLoader.Text.Lines
import Mathlib.Data.List.Basic

/-! # Texts made of lines

A text of lines, each with a line feed behind it (`Text.ofLines`), has these lines
(`Text.lines_ofLines`), if none of them holds a part of a line break.
-/

namespace ExtensionLoader.Text

/-- The text of some lines, each with a line feed behind it. -/
def ofLines (lines : List (List Char)) : String :=
  String.ofList (lines.flatMap fun line => line ++ ['\n'])

/-- A line without a line feed, and without a return at its end. -/
def IsPhysicalLine (line : List Char) : Prop := '\n' ∉ line ∧ line.getLast? ≠ some '\r'

instance (line : List Char) : Decidable (IsPhysicalLine line) :=
  inferInstanceAs (Decidable (_ ∧ _))

/-- A line is kept up to the line feed behind it. -/
theorem unifyBreaks_append {line : List Char} (physical : IsPhysicalLine line)
    (rest : List Char) : unifyBreaks (line ++ '\n' :: rest) = line ++ '\n' :: unifyBreaks rest := by
  induction line with
  | nil => simp [unifyBreaks]
  | cons c line ih =>
    obtain ⟨noFeed, noReturn⟩ := physical
    rw [List.mem_cons, not_or] at noFeed
    have kept : ¬(c = '\r' ∧ (line ++ '\n' :: rest).head? = some '\n') := by
      rintro ⟨rfl, next⟩
      cases line with
      | nil => exact noReturn rfl
      | cons d line =>
        cases next
        exact noFeed.2 List.mem_cons_self
    have others : IsPhysicalLine line := by
      refine ⟨noFeed.2, fun last => noReturn ?_⟩
      rw [List.getLast?_cons, last]
      rfl
    rw [List.cons_append, unifyBreaks, if_neg kept, ih others, List.cons_append]

theorem feedLines_append {line : List Char} (noFeed : '\n' ∉ line) (rest : List Char) :
    feedLines (line ++ '\n' :: rest) = line :: feedLines rest := by
  induction line with
  | nil => simp [feedLines]
  | cons c line ih =>
    rw [List.mem_cons, not_or] at noFeed
    rw [List.cons_append, feedLines, if_neg (Ne.symm noFeed.1), ih noFeed.2]

/-- The lines of a text are those it was made of. -/
theorem lines_ofLines {lines : List (List Char)}
    (physical : ∀ line ∈ lines, IsPhysicalLine line) : Text.lines (ofLines lines) = lines := by
  rw [Text.lines, ofLines, String.toList_ofList]
  induction lines with
  | nil => rfl
  | cons line rest ih =>
    have first : IsPhysicalLine line := physical line List.mem_cons_self
    have others : ∀ other ∈ rest, IsPhysicalLine other := fun other member =>
      physical other (List.mem_cons_of_mem line member)
    rw [List.flatMap_cons, List.append_assoc, List.singleton_append, unifyBreaks_append first,
      feedLines_append first.1, ih others]

/-- No line holds a line feed. -/
theorem not_mem_feedLines (text : List Char) : ∀ line ∈ feedLines text, '\n' ∉ line := by
  induction text with
  | nil => simp [feedLines]
  | cons c rest ih =>
    rw [feedLines]
    split
    · exact List.forall_mem_cons.2 ⟨List.not_mem_nil, ih⟩
    · rename_i solid
      split
      · simpa using Ne.symm solid
      · rename_i first later cut
        rw [cut, List.forall_mem_cons] at ih
        refine List.forall_mem_cons.2 ⟨?_, ih.2⟩
        rw [List.mem_cons, not_or]
        exact ⟨Ne.symm solid, ih.1⟩

/-- No line of a text holds a line feed. -/
theorem not_mem_lines {text : String} : ∀ line ∈ Text.lines text, '\n' ∉ line :=
  not_mem_feedLines _

end ExtensionLoader.Text
