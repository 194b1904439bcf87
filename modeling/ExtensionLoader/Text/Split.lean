/-! # Cutting a text at separators

A text is cut at every separator into its pieces (`Text.pieces`), at the first
one (`Text.cutFirst`) or at the last one (`Text.cutLast`). No character but the
separators is lost, and no piece holds one.
-/

namespace ExtensionLoader.Text

/-- The parts of a text between its separators: one more than there are
separators, so an empty text has one empty piece. -/
def pieces (separator : Char → Bool) : List Char → List (List Char)
  | [] => [[]]
  | c :: rest =>
    if separator c then [] :: pieces separator rest
    else
      match pieces separator rest with
      | [] => [[c]]
      | piece :: later => (c :: piece) :: later

/-- What stands before and behind the first `mark`. -/
def cutFirst (mark : Char) (text : List Char) : Option (List Char × List Char) :=
  match text.dropWhile (· ≠ mark) with
  | [] => none
  | _ :: rest => some (text.takeWhile (· ≠ mark), rest)

/-- What stands before and behind the last `mark`. -/
def cutLast (mark : Char) (text : List Char) : Option (List Char × List Char) :=
  (cutFirst mark text.reverse).map fun (behind, before) => (before.reverse, behind.reverse)

/-- Whether `part` stands somewhere in the text. -/
def holds (part : List Char) : List Char → Bool
  | [] => part.isEmpty
  | c :: rest => part.isPrefixOf (c :: rest) || holds part rest

/-- Whether the text ends in `ending`. -/
def endsWith (ending text : List Char) : Bool := ending.isSuffixOf text

/-- There is always a piece, if only an empty one. -/
theorem pieces_ne_nil (separator : Char → Bool) (text : List Char) :
    pieces separator text ≠ [] := by
  cases text with
  | nil => simp [pieces]
  | cons c rest =>
    rw [pieces]
    split
    · simp
    · split <;> simp

/-- No piece holds a separator. -/
theorem separator_eq_false_of_mem_pieces {separator : Char → Bool} {text : List Char} :
    ∀ piece ∈ pieces separator text, ∀ c ∈ piece, separator c = false := by
  induction text with
  | nil => simp [pieces]
  | cons c rest ih =>
    intro piece present
    rw [pieces] at present
    by_cases here : separator c
    · simp only [here, ↓reduceIte, List.mem_cons] at present
      rcases present with rfl | present
      · simp
      · exact ih piece present
    · simp only [here, Bool.false_eq_true, ↓reduceIte] at present
      split at present
      · rename_i none
        exact absurd none (pieces_ne_nil separator rest)
      · rename_i first later cut
        rcases List.mem_cons.1 present with rfl | present
        · intro d member
          rcases List.mem_cons.1 member with rfl | member
          · simpa using here
          · exact ih first (cut ▸ List.mem_cons_self) d member
        · exact ih piece (cut ▸ List.mem_cons_of_mem _ present)

end ExtensionLoader.Text
