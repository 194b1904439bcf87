import ExtensionLoader.Proofs.Spec.Layout

/-! # Lines that are too wide

A line stands in its text behind as many line feeds as there are lines before it
(`Spec.getElem?_feedLines_iff`), and its width does not count the returns at its end. So the
warnings about a source tell its wide lines (`Spec.IsWide`), each one once, by its number and in
order (`Spec.listsWide_wideLines`).
-/

namespace ExtensionLoader.Spec

open Text

/-- Where a line starts, the lines before it are as many as the line feeds. -/
theorem length_feedLines {before : List Char} (starts : LineStarts before) :
    (feedLines before).length = before.count '\n' := by
  induction before with
  | nil => rfl
  | cons c rest ih =>
    by_cases nonempty : rest = []
    · obtain rfl : c = '\n' := starts c (by rw [nonempty]; rfl)
      rw [nonempty]
      rfl
    · have others := ih (starts.of_cons nonempty)
      obtain ⟨line, later, cut⟩ := List.exists_cons_of_ne_nil (feedLines_ne_nil nonempty)
      rw [feedLines, List.count_cons, ← others, cut]
      split <;> simp_all

/-- A text is its first line, perhaps with more behind a line feed. -/
theorem exists_firstLine (text : List Char) :
    ∃ line behind, text = line ++ behind ∧ '\n' ∉ line ∧ ∀ c ∈ behind.head?, c = '\n' := by
  refine ⟨text.takeWhile (· ≠ '\n'), text.dropWhile (· ≠ '\n'),
    List.takeWhile_append_dropWhile.symm, fun feed => ?_, fun c first => ?_⟩
  · simpa using List.mem_takeWhile_imp feed
  · have stops := List.head?_dropWhile_not (· ≠ '\n') text
    rw [Option.mem_def.1 first] at stops
    simpa using stops

theorem feedLines_cut {line behind : List Char} (noFeed : '\n' ∉ line)
    (ends : ∀ c ∈ behind.head?, c = '\n') (nonempty : line ++ behind ≠ []) :
    feedLines (line ++ behind) = line :: feedLines behind.tail := by
  cases behind with
  | nil =>
    rw [List.append_nil] at nonempty ⊢
    exact feedLines_eq_singleton nonempty noFeed
  | cons c rest =>
    obtain rfl : c = '\n' := ends c rfl
    exact feedLines_append noFeed rest

/-- Behind a further line a line starts. -/
theorem LineStarts.append_feed {before : List Char} (starts : LineStarts before)
    (line : List Char) : LineStarts (line ++ '\n' :: before) := by
  intro c last
  rw [List.getLast?_append, List.getLast?_cons] at last
  cases own : before.getLast? with
  | none =>
    rw [own] at last
    exact (Option.some.inj last).symm
  | some d =>
    rw [own] at last
    exact (Option.some.inj last).symm.trans (starts d own)

/-- A line that is not empty stands in its text behind as many line feeds as its place says. -/
theorem getElem?_feedLines_iff {text line : List Char} {index : Nat} (nonempty : line ≠ []) :
    (feedLines text)[index]? = some line ↔
      ∃ before behind, text = before ++ line ++ behind ∧ LineStarts before ∧ '\n' ∉ line ∧
        (∀ c ∈ behind.head?, c = '\n') ∧ index = before.count '\n' := by
  constructor
  · intro held
    induction index generalizing text with
    | zero =>
      have some : text ≠ [] := by
        rintro rfl
        cases held
      obtain ⟨first, behind, rfl, noFeed, ends⟩ := exists_firstLine text
      rw [feedLines_cut noFeed ends some] at held
      cases held
      exact ⟨[], behind, rfl, nofun, noFeed, ends, rfl⟩
    | succ index ih =>
      have some : text ≠ [] := by
        rintro rfl
        cases held
      obtain ⟨first, behind, rfl, noFeed, ends⟩ := exists_firstLine text
      rw [feedLines_cut noFeed ends some, List.getElem?_cons_succ] at held
      obtain ⟨before, later, rest, starts, plain, stops, rfl⟩ := ih held
      cases behind with
      | nil => simp [nonempty] at rest
      | cons c behind =>
        obtain rfl : c = '\n' := ends c rfl
        rw [List.tail_cons] at rest
        refine ⟨first ++ '\n' :: before, later, by simp [rest], starts.append_feed first, plain,
          stops, ?_⟩
        rw [List.count_append, List.count_eq_zero_of_not_mem noFeed, List.count_cons_self,
          Nat.zero_add]
  · rintro ⟨before, behind, rfl, starts, noFeed, ends, rfl⟩
    have cut := feedLines_cut noFeed ends (List.append_ne_nil_of_left_ne_nil nonempty behind)
    rw [List.append_assoc, feedLines_append_of_lineStarts starts, ← length_feedLines starts,
      List.getElem?_append_right le_rfl, Nat.sub_self, cut]
    rfl

/-- A line of a text that is wider than a limit, by its number and its width. The line stands at
the start of the text or behind a line feed, up to the next line feed or the end; the returns at
its end are no part of its width. -/
inductive IsWide (limit : Nat) : List Char → Nat → Nat → Prop
  | line {before line returns behind : List Char} (starts : LineStarts before)
    (noFeed : '\n' ∉ line) (solid : line.getLast? ≠ some '\r') (only : ∀ c ∈ returns, c = '\r')
    (ends : ∀ c ∈ behind.head?, c = '\n') (wide : limit < line.length) :
    IsWide limit (before ++ (line ++ returns) ++ behind) (before.count '\n' + 1) line.length

/-- The wide lines of a text, each one once and in order. -/
structure ListsWide (limit : Nat) (text : List Char) (wide : List (Nat × Nat)) : Prop where
  inOrder : wide.Pairwise fun one later => one.1 < later.1
  mem_iff (number width : Nat) : (number, width) ∈ wide ↔ IsWide limit text number width

/-- The warning about a line of a resource that is too wide. It says where the line stands, with
the first line as number one, how wide it is and how wide it may be. -/
def warningOf (resource : String) (limit number width : Nat) : Diagnostic where
  severity := .warning
  code := "glex::parse::line-width"
  message := resource ++ ":" ++ toString number ++ ": line is " ++ toString width ++
    " characters wide (maximum " ++ toString limit ++ ")"
  help := none

/-- The warnings about some lines of a resource that are too wide. -/
def warningsOf (resource : String) (limit : Nat) (wide : List (Nat × Nat)) : Diagnostics :=
  wide.map fun (number, width) => warningOf resource limit number width

theorem warning_widthMessage (resource : String) (limit number width : Nat) :
    Diagnostic.warning widthCode (widthMessage resource number width limit) =
      warningOf resource limit number width := rfl

/-- Returns at the end of a line have no width. -/
theorem width_append_returns {line returns : List Char}
    (solid : line.getLast? ≠ some '\r') (only : ∀ c ∈ returns, c = '\r') :
    width (line ++ returns) = line.length := by
  have gone : ∀ c ∈ returns.reverse, (c == '\r') = true := fun c member =>
    beq_iff_eq.2 (only c (List.mem_reverse.1 member))
  rw [width, dropEndWhile, List.reverse_append, List.dropWhile_append_of_pos gone,
    List.length_reverse]
  rcases List.eq_nil_or_concat' line with rfl | ⟨front, c, rfl⟩
  · rfl
  · have kept : c ≠ '\r' := by simpa using solid
    simp [kept]

/-- A line is what counts for its width and some returns. -/
theorem exists_returns (raw : List Char) :
    ∃ line returns, raw = line ++ returns ∧ line.getLast? ≠ some '\r' ∧
      ∀ c ∈ returns, c = '\r' := by
  obtain ⟨returns, only, whole⟩ := exists_dropEndWhile_append raw
  refine ⟨_, returns, whole, fun last => ?_, only⟩
  have stops := List.head?_dropWhile_not (· == '\r') raw.reverse
  rw [dropEndWhile, List.getLast?_reverse] at last
  rw [last] at stops
  exact absurd stops (by decide)

/-- The width of a line does not count a return that belongs to its line break. -/
theorem width_eq_of_shown {raw line : List Char} (shown : Shown raw line) :
    width raw = width line := by
  obtain ⟨kept, returns, rfl, solid, only⟩ := exists_returns line
  rcases shown with rfl | rfl
  · rfl
  · have onlyToo : ∀ c ∈ returns ++ ['\r'], c = '\r' := by
      simpa [or_imp, forall_and] using only
    rw [List.append_assoc, width_append_returns solid onlyToo, width_append_returns solid only]

/-- The widths of the lines of a text. The lines may be cut at line feeds alone. -/
theorem widths_eq (source : String) :
    (Text.lines source).map width = (feedLines source.toList).map width := by
  have same := (forall₂_shown source.toList).imp fun _ _ => width_eq_of_shown
  have widths := List.forall₂_map_left_iff.2 (List.forall₂_map_right_iff.2 same)
  rw [List.forall₂_eq_eq_eq] at widths
  exact widths.symm

/-- The wide lines are those at whose index the width exceeds the limit. -/
theorem isWide_iff {limit : Nat} {text : List Char} {number width : Nat} :
    IsWide limit text number width ↔
      ∃ index, ((feedLines text).map Spec.width)[index]? = some width ∧ limit < width ∧
        number = index + 1 := by
  constructor
  · rintro ⟨starts, noFeed, solid, only, ends, wide⟩
    rename_i before line returns behind
    have nonempty : line ++ returns ≠ [] :=
      List.append_ne_nil_of_left_ne_nil (List.ne_nil_of_length_pos (Nat.zero_lt_of_lt wide)) returns
    have plain : '\n' ∉ line ++ returns := by
      simp only [List.mem_append, not_or]
      exact ⟨noFeed, fun feed => absurd (only _ feed) (by decide)⟩
    have placed := (getElem?_feedLines_iff nonempty).2
      ⟨before, behind, rfl, starts, plain, ends, rfl⟩
    refine ⟨_, ?_, wide, rfl⟩
    rw [List.getElem?_map, placed, Option.map_some, width_append_returns solid only]
  · rintro ⟨index, placed, wide, rfl⟩
    rw [List.getElem?_map, Option.map_eq_some_iff] at placed
    obtain ⟨raw, placed, rfl⟩ := placed
    obtain ⟨line, returns, rfl, solid, only⟩ := exists_returns raw
    rw [width_append_returns solid only] at wide ⊢
    have nonempty : line ++ returns ≠ [] :=
      List.append_ne_nil_of_left_ne_nil (List.ne_nil_of_length_pos (Nat.zero_lt_of_lt wide)) returns
    obtain ⟨before, behind, rfl, starts, plain, ends, rfl⟩ :=
      (getElem?_feedLines_iff nonempty).1 placed
    rw [List.mem_append, not_or] at plain
    exact .line starts plain.1 solid only ends wide

/-- The numbers and the widths of the lines of a source that are wider than a limit. -/
def wideLines (limit : Nat) (source : String) : List (Nat × Nat) :=
  ((Text.lines source).map width).zipIdx.filterMap fun (width, index) =>
    if limit < width then some (index + 1, width) else none

theorem pairwise_zipIdx {α : Type} (items : List α) :
    items.zipIdx.Pairwise fun one later => one.2 < later.2 := by
  have places := List.pairwise_lt_range' (s := 0) (n := items.length)
  rw [← List.zipIdx_map_snd 0 items, List.pairwise_map] at places
  exact places

/-- **The wide lines of a source are found**, each one once and in order. -/
theorem listsWide_wideLines (limit : Nat) (source : String) :
    ListsWide limit source.toList (wideLines limit source) where
  inOrder := by
    refine (pairwise_zipIdx _).filterMap _ ?_
    rintro ⟨width, index⟩ ⟨widthToo, later⟩ before found told foundToo toldToo
    dsimp only at before told toldToo
    split at told
    · split at toldToo
      · cases told
        cases toldToo
        exact Nat.succ_lt_succ before
      · cases toldToo
    · cases told
  mem_iff number width := by
    rw [isWide_iff, wideLines, widths_eq, List.mem_filterMap]
    constructor
    · rintro ⟨⟨own, index⟩, placed, told⟩
      dsimp only at told
      split at told
      · rename_i wide
        cases told
        exact ⟨index, List.mk_mem_zipIdx_iff_getElem?.1 placed, wide, rfl⟩
      · cases told
    · rintro ⟨index, placed, wide, rfl⟩
      exact ⟨(width, index), List.mk_mem_zipIdx_iff_getElem?.2 placed, if_pos wide⟩

theorem widthWarnings_eq (resource source : String) (limit : Nat) :
    widthWarnings resource source limit = warningsOf resource limit (wideLines limit source) := by
  rw [widthWarnings, warningsOf, wideLines, List.zipIdx_map, List.filterMap_map,
    List.map_filterMap]
  congr 1
  funext place
  obtain ⟨line, index⟩ := place
  by_cases wide : limit < width line
  · simp [wide, warning_widthMessage]
  · simp [wide]

end ExtensionLoader.Spec
