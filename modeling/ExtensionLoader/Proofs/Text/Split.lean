import ExtensionLoader.Text.Split
import Mathlib.Data.List.Basic
import Mathlib.Data.List.TakeWhile

/-! # The pieces of a text

A text is cut at each of its separators (`Text.pieces_append_cons`), and a part of the text is
one of its pieces exactly if it holds no separator and stands between separators or ends of
the text (`Text.mem_pieces_iff`).
-/

namespace ExtensionLoader.Text

variable {separator : Char → Bool}

/-- A separator cuts a text in two. -/
theorem pieces_append_cons {c : Char} (separates : separator c = true)
    (front behind : List Char) :
    pieces separator (front ++ c :: behind) =
      pieces separator front ++ pieces separator behind := by
  induction front with
  | nil => simp [pieces, separates]
  | cons d rest ih =>
    by_cases here : separator d = true
    · simp [pieces, here, ih]
    · obtain ⟨first, later, cut⟩ := List.exists_cons_of_ne_nil (pieces_ne_nil separator rest)
      simp [pieces, here, ih, cut]

theorem pieces_eq_singleton {text : List Char} (inside : ∀ c ∈ text, separator c = false) :
    pieces separator text = [text] := by
  induction text with
  | nil => rfl
  | cons c rest ih =>
    have first : separator c = false := inside c List.mem_cons_self
    have others : pieces separator rest = [rest] :=
      ih fun d member => inside d (List.mem_cons_of_mem c member)
    simp [pieces, first, others]

/-- The first piece is empty if there is no text, or if the text starts with a separator. -/
theorem of_pieces_eq_nil_cons {text : List Char} {later : List (List Char)}
    (cut : pieces separator text = [] :: later) :
    (text = [] ∧ later = []) ∨
      ∃ c rest, text = c :: rest ∧ separator c = true ∧ later = pieces separator rest := by
  cases text with
  | nil =>
    cases cut
    exact .inl ⟨rfl, rfl⟩
  | cons c rest =>
    rw [pieces] at cut
    split at cut
    · rename_i here
      cases cut
      exact .inr ⟨c, rest, rfl, here, rfl⟩
    · split at cut <;> cases cut

/-- Cutting a text at a class of separators is what the library does for lists. -/
theorem pieces_eq_splitOnP (separator : Char → Bool) (text : List Char) :
    pieces separator text = text.splitOnP separator := by
  induction text with
  | nil => rfl
  | cons c rest ih =>
    rw [pieces, List.splitOnP_cons_eq_if_modifyHead, ← ih]
    cases cut : pieces separator rest with
    | nil => exact absurd cut (pieces_ne_nil separator rest)
    | cons piece later => rfl

theorem pieces_eq_splitOn (mark : Char) (text : List Char) :
    pieces (· == mark) text = text.splitOn mark :=
  pieces_eq_splitOnP _ text

/-- A part of a text that stands between separators or ends of the text. -/
def StandsApart (separator : Char → Bool) (part text : List Char) : Prop :=
  ∃ before behind, text = before ++ part ++ behind ∧
    (∀ c ∈ before.getLast?, separator c = true) ∧ (∀ c ∈ behind.head?, separator c = true)

/-- The first piece starts the text, and each other one stands behind a separator. -/
private theorem places_of_pieces (separator : Char → Bool) (text : List Char) :
    ∃ first later, pieces separator text = first :: later ∧
      (∃ behind, text = first ++ behind ∧ ∀ c ∈ behind.head?, separator c = true) ∧
      ∀ piece ∈ later, ∃ before c behind, text = before ++ c :: (piece ++ behind) ∧
        separator c = true ∧ ∀ d ∈ behind.head?, separator d = true := by
  induction text with
  | nil => exact ⟨[], [], rfl, ⟨[], rfl, by simp⟩, by simp⟩
  | cons c rest ih =>
    obtain ⟨first, later, cut, ⟨behind, starts, apart⟩, others⟩ := ih
    have further : ∀ piece ∈ later, ∃ before d behind,
        c :: rest = before ++ d :: (piece ++ behind) ∧
          separator d = true ∧ ∀ e ∈ behind.head?, separator e = true := by
      intro piece member
      obtain ⟨before, d, after, whole, left, right⟩ := others piece member
      exact ⟨c :: before, d, after, by simp [whole], left, right⟩
    by_cases here : separator c = true
    · refine ⟨[], first :: later, by simp [pieces, here, cut], ⟨c :: rest, rfl, by simp [here]⟩, ?_⟩
      intro piece member
      rcases List.mem_cons.1 member with rfl | member
      · exact ⟨[], c, behind, by simp [starts], here, apart⟩
      · exact further piece member
    · exact ⟨c :: first, later, by simp [pieces, here, cut], ⟨behind, by simp [starts], apart⟩,
        further⟩

theorem standsApart_of_mem_pieces {piece text : List Char}
    (member : piece ∈ pieces separator text) : StandsApart separator piece text := by
  obtain ⟨first, later, cut, ⟨behind, starts, apart⟩, others⟩ := places_of_pieces separator text
  rw [cut] at member
  rcases List.mem_cons.1 member with rfl | member
  · exact ⟨[], behind, starts, by simp, apart⟩
  · obtain ⟨before, c, after, whole, left, right⟩ := others piece member
    exact ⟨before ++ [c], after, by simp [whole], by simp [left], right⟩

/-- What stands apart and holds no separator is a piece. -/
theorem mem_pieces_of_standsApart {piece text : List Char}
    (inside : ∀ c ∈ piece, separator c = false) (apart : StandsApart separator piece text) :
    piece ∈ pieces separator text := by
  obtain ⟨before, behind, rfl, left, right⟩ := apart
  have tail : piece ∈ pieces separator (piece ++ behind) := by
    cases behind with
    | nil => simp [pieces_eq_singleton inside]
    | cons c rest => simp [pieces_append_cons (right c rfl), pieces_eq_singleton inside]
  rcases List.eq_nil_or_concat' before with rfl | ⟨front, c, rfl⟩
  · simpa using tail
  · have separates : separator c = true := left c (by simp)
    rw [List.append_assoc, List.append_assoc, List.singleton_append,
      pieces_append_cons separates]
    exact List.mem_append_right _ tail

/-- The pieces of a text are the parts without a separator that stand apart in it. -/
theorem mem_pieces_iff {piece text : List Char} :
    piece ∈ pieces separator text ↔
      (∀ c ∈ piece, separator c = false) ∧ StandsApart separator piece text :=
  ⟨fun member => ⟨separator_eq_false_of_mem_pieces piece member, standsApart_of_mem_pieces member⟩,
    fun ⟨inside, apart⟩ => mem_pieces_of_standsApart inside apart⟩

/-- A change that keeps separators changes each piece. -/
theorem pieces_map {change : Char → Char} {text : List Char}
    (kept : ∀ c ∈ text, separator (change c) = separator c) :
    pieces separator (text.map change) = (pieces separator text).map (List.map change) := by
  induction text with
  | nil => rfl
  | cons c rest ih =>
    rw [List.forall_mem_cons] at kept
    rw [List.map_cons, pieces, pieces, kept.1, ih kept.2]
    split
    · rfl
    · cases pieces separator rest <;> rfl

/-- Between a first and a last piece, a part stands between two marks exactly if it is one of the
pieces. -/
theorem between_marks_infix_iff {mark : Char} {first part text last : List Char}
    (inFirst : mark ∉ first) (inLast : mark ∉ last) (inside : mark ∉ part)
    (notFirst : part ≠ first) (notLast : part ≠ last) :
    mark :: (part ++ [mark]) <:+: first ++ mark :: (text ++ mark :: last) ↔
      part ∈ pieces (· == mark) text := by
  have plain {other : List Char} (absent : mark ∉ other) : ∀ c ∈ other, (c == mark) = false := by
    intro c member
    exact beq_false_of_ne (ne_of_mem_of_not_mem member absent)
  constructor
  · rintro ⟨before, behind, whole⟩
    have apart : StandsApart (· == mark) part (first ++ mark :: (text ++ mark :: last)) :=
      ⟨before ++ [mark], mark :: behind, by simp [← whole], by simp, by simp⟩
    have member := mem_pieces_of_standsApart (plain inside) apart
    have cut (front back : List Char) : pieces (· == mark) (front ++ mark :: back) =
        pieces (· == mark) front ++ pieces (· == mark) back :=
      @pieces_append_cons (· == mark) mark (beq_self_eq_true mark) front back
    rw [cut, cut, pieces_eq_singleton (plain inFirst), pieces_eq_singleton (plain inLast),
      List.mem_append, List.mem_append, List.mem_singleton, List.mem_singleton] at member
    rcases member with same | within | same
    · exact absurd same notFirst
    · exact within
    · exact absurd same notLast
  · intro member
    obtain ⟨before, behind, rfl, left, right⟩ := standsApart_of_mem_pieces member
    obtain ⟨front, opened⟩ : ∃ front, mark :: before = front ++ [mark] := by
      rcases List.eq_nil_or_concat' before with rfl | ⟨front, c, rfl⟩
      · exact ⟨[], rfl⟩
      · obtain rfl : c = mark := by simpa using left
        exact ⟨c :: front, rfl⟩
    obtain ⟨back, closed⟩ : ∃ back, behind ++ mark :: last = mark :: back := by
      cases behind with
      | nil => exact ⟨last, rfl⟩
      | cons c behind =>
        obtain rfl : c = mark := by simpa using right
        exact ⟨behind ++ c :: last, rfl⟩
    refine ⟨first ++ front, back, ?_⟩
    calc first ++ front ++ mark :: (part ++ [mark]) ++ back
        = first ++ (front ++ [mark]) ++ part ++ mark :: back := by simp
      _ = first ++ mark :: (before ++ part ++ behind ++ mark :: last) := by
        rw [← opened, ← closed]
        simp

/-- A text is cut at the first mark. -/
theorem cutFirst_append {mark : Char} {front : List Char} (absent : mark ∉ front)
    (behind : List Char) : cutFirst mark (front ++ mark :: behind) = some (front, behind) := by
  have others : ∀ c ∈ front, decide (c ≠ mark) = true := by
    intro c member
    simp only [ne_eq, decide_eq_true_eq]
    rintro rfl
    exact absent member
  rw [cutFirst, List.dropWhile_append_of_pos others, List.takeWhile_append_of_pos others]
  simp

/-- A text without the mark is not cut. -/
theorem cutFirst_eq_none {mark : Char} {text : List Char} (absent : mark ∉ text) :
    cutFirst mark text = none := by
  have passed : text.dropWhile (· ≠ mark) = [] := by
    rw [List.dropWhile_eq_nil_iff]
    intro c member
    simp only [ne_eq, decide_eq_true_eq]
    rintro rfl
    exact absent member
  rw [cutFirst, passed]

/-- What stands before the first mark of a text, and what stands behind it, is told by the text. -/
theorem append_mark_inj {mark : Char} {front other behind rest : List Char}
    (absent : mark ∉ front) (absentAgain : mark ∉ other)
    (same : front ++ mark :: behind = other ++ mark :: rest) : front = other ∧ behind = rest := by
  have cut := congrArg (cutFirst mark) same
  rwa [cutFirst_append absent, cutFirst_append absentAgain, Option.some.injEq,
    Prod.mk.injEq] at cut

/-- A cut is at the mark that no other precedes. -/
theorem cutFirst_eq_some_iff {mark : Char} {text front behind : List Char} :
    cutFirst mark text = some (front, behind) ↔
      mark ∉ front ∧ text = front ++ mark :: behind := by
  constructor
  · intro cut
    rw [cutFirst] at cut
    split at cut
    · cases cut
    · rename_i first rest passed
      cases cut
      have stops : decide (first ≠ mark) = false := by
        have head := List.head?_dropWhile_not (fun c => decide (c ≠ mark)) text
        rwa [passed] at head
      have isMark : first = mark := by simpa using stops
      refine ⟨fun member => ?_, ?_⟩
      · simpa using List.mem_takeWhile_imp member
      · rw [← isMark, ← passed, isMark]
        exact List.takeWhile_append_dropWhile.symm
  · rintro ⟨absent, rfl⟩
    exact cutFirst_append absent behind

/-- What stands behind the last mark has no mark in it. -/
theorem cutLast_eq_some_iff {mark : Char} {text front behind : List Char} :
    cutLast mark text = some (front, behind) ↔
      mark ∉ behind ∧ text = front ++ mark :: behind := by
  rw [cutLast, Option.map_eq_some_iff]
  constructor
  · rintro ⟨⟨last, before⟩, cut, same⟩
    cases same
    obtain ⟨absent, whole⟩ := cutFirst_eq_some_iff.1 cut
    refine ⟨by simpa using absent, ?_⟩
    rw [← List.reverse_reverse text, whole]
    simp
  · rintro ⟨absent, rfl⟩
    refine ⟨(behind.reverse, front.reverse), cutFirst_eq_some_iff.2 ⟨by simpa using absent, ?_⟩, ?_⟩
    · simp
    · simp

/-- The pieces of a text are parts of it. -/
theorem mem_of_mem_pieces {piece text : List Char} {c : Char}
    (member : piece ∈ pieces separator text)
    (inside : c ∈ piece) : c ∈ text := by
  obtain ⟨before, behind, rfl, -⟩ := standsApart_of_mem_pieces member
  exact List.mem_append_left behind (List.mem_append_right before inside)

theorem holds_iff {part text : List Char} : holds part text = true ↔ part <:+: text := by
  induction text with
  | nil => simp [holds]
  | cons c rest ih =>
    rw [holds, Bool.or_eq_true, List.isPrefixOf_iff_prefix, ih, List.infix_cons_iff]

end ExtensionLoader.Text
