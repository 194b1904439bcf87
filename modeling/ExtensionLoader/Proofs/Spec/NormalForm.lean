import ExtensionLoader.Proofs.Spec.Line

/-! # The normal form of a line

A cleaned line has no blanks around it, no hash that opens a comment and no block comment
(`Spec.IsClean`). Taking a block comment out joins what stands before it and behind it, and neither
a comment nor a part of one arises at the seam (`Spec.not_holdsBlock_append`). The lines in normal
form are those that cleaning leaves as they are (`Spec.cleanLine_eq_self_iff`); the lines that leave
nothing at all hold nothing but blanks and comments (`Spec.commentary_of_cleanLine_eq_nil`).
-/

namespace ExtensionLoader.Spec

open Text

variable {line : List Char}

/-- A text with a block comment: an opener, and a closer somewhere behind it. -/
def HoldsBlock (text : List Char) : Prop :=
  ∃ before inside after, text = before ++ opener ++ inside ++ closer ++ after

/-- A hash that is kept has a backslash before it. -/
theorem escapes_of_dropHashComment {escaped : Bool} {before behind : List Char}
    (cut : dropHashComment escaped line = before ++ '#' :: behind) :
    escapes escaped before = true := by
  induction line generalizing escaped before with
  | nil => simp [dropHashComment] at cut
  | cons c rest ih =>
    rw [dropHashComment] at cut
    split at cut
    · simp at cut
    · rename_i kept
      cases before with
      | nil =>
        obtain ⟨rfl, -⟩ := List.cons.inj cut
        simpa [escapes] using kept
      | cons d before =>
        obtain ⟨rfl, own⟩ := List.cons.inj cut
        rw [escapes_cons]
        exact ih own

/-- Behind the cut at a comment every hash is escaped. -/
theorem hashesEscaped_dropHashComment (line : List Char) :
    HashesEscaped (dropHashComment false line) := by
  intro front behind cut
  by_contra different
  have unescaped := escapes_of_dropHashComment cut
  rw [escapes_eq_false different] at unescaped
  cases unescaped

theorem dropHashComment_eq_self (kept : HashesEscaped line) :
    dropHashComment false line = line := by
  have whole := dropHashComment_append kept.escapes []
  rwa [List.append_nil, dropHashComment, List.append_nil] at whole

/-- The cut is at the first opener. -/
theorem cutAtOpener_eq_some {before behind : List Char}
    (cut : cutAtOpener line = some (before, behind)) :
    line = before ++ opener ++ behind ∧ ¬ opener <:+: before := by
  induction line generalizing before behind with
  | nil => cases cut
  | cons c rest ih =>
    rw [cutAtOpener] at cut
    split at cut
    · rename_i opens
      obtain ⟨rfl, second⟩ := opens
      obtain ⟨later, rfl⟩ := List.head?_eq_some_iff.1 second
      cases cut
      exact ⟨rfl, by simp [opener]⟩
    · rename_i plain
      obtain ⟨⟨front, back⟩, later, same⟩ := Option.map_eq_some_iff.1 cut
      cases same
      obtain ⟨rfl, noOpener⟩ := ih later
      refine ⟨rfl, ?_⟩
      rw [List.infix_cons_iff, not_or]
      refine ⟨?_, noOpener⟩
      -- An opener at the first character would have been the cut.
      rintro ⟨after, whole⟩
      cases front with
      | nil => cases whole
      | cons d front =>
        cases whole
        exact plain ⟨rfl, rfl⟩

/-- There is nothing behind a closer exactly when there is none. -/
theorem afterLastCloser_eq_none_iff : afterLastCloser line = none ↔ ¬ closer <:+: line := by
  refine ⟨?_, afterLastCloser_eq_none⟩
  rintro none ⟨before, after, rfl⟩
  rw [List.append_assoc] at none
  induction before with
  | nil =>
    rw [List.nil_append, closer, List.cons_append, afterLastCloser] at none
    split at none
    · cases none
    · simp at none
  | cons c before ih =>
    rw [List.cons_append, afterLastCloser] at none
    split at none
    · cases none
    · rename_i later
      exact ih later

/-- What stands behind the last closer holds none. -/
theorem afterLastCloser_eq_some {after : List Char} (cut : afterLastCloser line = some after) :
    (∃ inside, line = inside ++ closer ++ after) ∧ ¬ closer <:+: after := by
  induction line generalizing after with
  | nil => cases cut
  | cons c rest ih =>
    rw [afterLastCloser] at cut
    split at cut
    · rename_i behind later
      cases cut
      obtain ⟨⟨inside, rfl⟩, noCloser⟩ := ih later
      exact ⟨⟨c :: inside, rfl⟩, noCloser⟩
    · rename_i none
      split at cut
      · rename_i closes
        obtain ⟨rfl, second⟩ := closes
        obtain ⟨behind, rfl⟩ := List.head?_eq_some_iff.1 second
        cases cut
        exact ⟨⟨[], rfl⟩, fun within =>
          afterLastCloser_eq_none_iff.1 none (within.trans (List.suffix_cons '/' behind).isInfix)⟩
      · cases cut

/-- Where no opener stands before the last character of the front and no closer in the back, joining
them gives no block comment: an opener across the seam is left open. -/
theorem not_holdsBlock_append {front back : List Char} (noOpener : ¬ opener <:+: front.dropLast)
    (noCloser : ¬ closer <:+: back) : ¬ HoldsBlock (front ++ back) := by
  rintro ⟨before, inside, after, whole⟩
  rw [List.append_assoc, List.append_assoc, List.append_eq_append_iff] at whole
  rcases whole with ⟨seam, -, rfl⟩ | ⟨seam, rfl, rest⟩
  · exact noCloser ⟨seam ++ inside, after, by simp⟩
  · by_cases last : seam = []
    · rw [last, List.nil_append] at rest
      exact noCloser ⟨inside, after, by rw [← rest, List.append_assoc]⟩
    · refine noOpener ⟨before, seam.dropLast, ?_⟩
      rw [List.dropLast_append_of_ne_nil last]

/-- What taking out a block comment does: nothing where there is none, and otherwise the line is cut
at its first opener and at the last closer behind that. -/
theorem dropBlockComment_cases (line : List Char) :
    ¬ HoldsBlock line ∧ dropBlockComment line = line ∨
      ∃ before inside after, line = before ++ opener ++ inside ++ closer ++ after ∧
        ¬ opener <:+: before ∧ ¬ closer <:+: after ∧ dropBlockComment line = before ++ after := by
  cases opened : cutAtOpener line with
  | none =>
    have noOpener := cutAtOpener_eq_none_iff.1 opened
    refine .inl ⟨?_, dropBlockComment_eq_self noOpener⟩
    rintro ⟨before, inside, after, rfl⟩
    exact noOpener ⟨before, inside ++ closer ++ after, by simp⟩
  | some cut =>
    obtain ⟨before, behind⟩ := cut
    obtain ⟨whole, noOpener⟩ := cutAtOpener_eq_some opened
    cases closed : afterLastCloser behind with
    | none =>
      refine .inl ⟨?_, by rw [dropBlockComment, opened]; dsimp only; rw [closed]⟩
      rw [whole]
      refine not_holdsBlock_append ?_ (afterLastCloser_eq_none_iff.1 closed)
      rw [List.dropLast_append_of_ne_nil (by decide)]
      exact not_opener_infix_append noOpener (by decide)
    | some after =>
      obtain ⟨⟨inside, rfl⟩, noCloser⟩ := afterLastCloser_eq_some closed
      refine .inr ⟨before, inside, after, by simp [whole], noOpener, noCloser, ?_⟩
      rw [dropBlockComment, opened]
      dsimp only
      rw [closed]

/-- With its comment dropped a line holds no block comment. -/
theorem not_holdsBlock_dropBlockComment (line : List Char) :
    ¬ HoldsBlock (dropBlockComment line) := by
  rcases dropBlockComment_cases line with
    ⟨none, kept⟩ | ⟨before, _, after, -, noOpener, noCloser, cut⟩
  · rwa [kept]
  · rw [cut]
    refine not_holdsBlock_append (fun within => noOpener ?_) noCloser
    exact within.trans (List.dropLast_prefix before).isInfix

theorem dropBlockComment_eq_self_of_noBlock (none : ¬ HoldsBlock line) :
    dropBlockComment line = line := by
  rcases dropBlockComment_cases line with ⟨-, kept⟩ | ⟨before, inside, after, whole, -⟩
  · exact kept
  · exact absurd ⟨before, inside, after, whole⟩ none

/-- A hash behind a block comment is escaped by a character behind it as well. -/
theorem hashesEscaped_dropBlockComment (kept : HashesEscaped line) :
    HashesEscaped (dropBlockComment line) := by
  rcases dropBlockComment_cases line with ⟨-, same⟩ | ⟨before, inside, after, rfl, -, -, cut⟩
  · rwa [same]
  · rw [cut]
    have closes : (before ++ opener ++ inside ++ closer).getLast? ≠ some '\\' := by
      rw [List.getLast?_append_of_ne_nil _ (by decide)]
      decide
    have front : HashesEscaped before := by
      rw [List.append_assoc, List.append_assoc, List.append_assoc] at kept
      exact kept.of_append_left
    exact front.append (kept.of_append_right closes)

/-- Of a line is dropped what stands from some hash on. -/
theorem exists_dropHashComment_append (escaped : Bool) (line : List Char) :
    ∃ rest, line = dropHashComment escaped line ++ rest ∧ ∀ c ∈ rest.head?, c = '#' := by
  induction line generalizing escaped with
  | nil => exact ⟨[], rfl, nofun⟩
  | cons c line ih =>
    rw [dropHashComment]
    split
    · rename_i opens
      exact ⟨c :: line, rfl, fun d first => Option.some.inj first ▸ opens.1⟩
    · obtain ⟨rest, whole, starts⟩ := ih (c == '\\')
      exact ⟨rest, congrArg (List.cons c) whole, starts⟩

/-- A gap with a hash behind it is a tail. -/
theorem tail_of_blank {gap rest : List Char} (blank : AllBlank gap)
    (starts : ∀ c ∈ rest.head?, c = '#') : Tail (gap ++ rest) := by
  cases rest with
  | nil =>
    rw [List.append_nil]
    exact .blank blank
  | cons c rest =>
    obtain rfl := starts c rfl
    exact .comment blank rest

/-- Only lines of blanks and comments leave nothing when they are cleaned. -/
theorem commentary_of_cleanLine_eq_nil (empty : cleanLine line = []) : Commentary line := by
  obtain ⟨lead, trail, blank, blankBehind, left⟩ :=
    exists_trim_append (dropBlockComment (dropHashComment false line))
  rw [← cleanLine, empty, List.append_nil] at left
  have blanks := blank.append blankBehind
  rw [← left] at blanks
  obtain ⟨rest, whole, starts⟩ := exists_dropHashComment_append false line
  have hashes := hashesEscaped_dropHashComment line
  rcases dropBlockComment_cases (dropHashComment false line) with
    ⟨-, kept⟩ | ⟨before, inside, after, held, -, -, cut⟩
  · rw [kept] at blanks
    rw [whole]
    exact .tail (tail_of_blank blanks starts)
  · rw [cut] at blanks
    rw [held] at hashes whole
    have blankBefore : AllBlank before := fun c member =>
      blanks c (List.mem_append_left after member)
    have blankAfter : AllBlank after := fun c member =>
      blanks c (List.mem_append_right before member)
    have escaped : HashesEscaped inside := by
      refine hashes.of_append_left.of_append_left.of_append_right ?_
      rw [List.getLast?_append_of_ne_nil _ (by decide)]
      decide
    rw [whole]
    have shape := Commentary.span blankBefore escaped (tail_of_blank blankAfter starts)
    simpa only [List.append_assoc] using shape

/-- A line in normal form: no blanks around it, no hash that opens a comment, no block comment. -/
structure IsClean (line : List Char) : Prop where
  starts : ∀ c ∈ line.head?, isBlank c = false
  ends : ∀ c ∈ line.getLast?, isBlank c = false
  hashes : HashesEscaped line
  noBlock : ¬ HoldsBlock line

/-- A line without comments is clean once it is trimmed. -/
theorem isClean_trim (hashes : HashesEscaped line) (noBlock : ¬ HoldsBlock line) :
    IsClean (trim line) := by
  obtain ⟨lead, trail, blank, -, whole⟩ := exists_trim_append line
  refine ⟨isBlank_head?_trim line, isBlank_getLast?_trim line, ?hashes, ?noBlock⟩
  case hashes =>
    have solid : lead.getLast? ≠ some '\\' := fun last =>
      not_mem_of_allBlank blank rfl (List.mem_of_getLast? last)
    rw [whole] at hashes
    exact (hashes.of_append_left).of_append_right solid
  case noBlock =>
    rintro ⟨before, inside, after, own⟩
    refine noBlock ⟨lead ++ before, inside, after ++ trail, ?_⟩
    rw [whole, own]
    simp only [List.append_assoc]

theorem isClean_cleanLine (line : List Char) : IsClean (cleanLine line) :=
  isClean_trim (hashesEscaped_dropBlockComment (hashesEscaped_dropHashComment line))
    (not_holdsBlock_dropBlockComment _)

/-- Without comments, cleaning a line is trimming it. -/
theorem cleanLine_eq_trim (hashes : HashesEscaped line) (noBlock : ¬ HoldsBlock line) :
    cleanLine line = trim line := by
  rw [cleanLine, dropHashComment_eq_self hashes, dropBlockComment_eq_self_of_noBlock noBlock]

theorem cleanLine_eq_self_iff : cleanLine line = line ↔ IsClean line := by
  refine ⟨fun kept => kept ▸ isClean_cleanLine line, fun clean => ?_⟩
  rw [cleanLine_eq_trim clean.hashes clean.noBlock, trim_eq_self clean.starts clean.ends]

instance (line : List Char) : Decidable (HashesEscaped line) :=
  decidable_of_iff (dropHashComment false line = line)
    ⟨fun kept => kept ▸ hashesEscaped_dropHashComment line, dropHashComment_eq_self⟩

instance (line : List Char) : Decidable (HoldsBlock line) :=
  decidable_of_iff (dropBlockComment line ≠ line)
    ⟨fun cut => not_not.1 fun none => cut (dropBlockComment_eq_self_of_noBlock none),
      fun block kept => not_holdsBlock_dropBlockComment line (kept.symm ▸ block)⟩

/-- **Cleaning brings a line into its normal form.** Whatever stands in a line, what is left has no
blank at either end, a backslash directly before each hash and no block comment; cleaning it again
changes nothing. Of a line without comments it is the line itself, trimmed. -/
theorem cleaning_normalizes (line : List Char) :
    IsClean (cleanLine line) ∧ cleanLine (cleanLine line) = cleanLine line ∧
      (HashesEscaped line → ¬ HoldsBlock line → cleanLine line = trim line) :=
  ⟨isClean_cleanLine line, cleanLine_eq_self_iff.2 (isClean_cleanLine line), cleanLine_eq_trim⟩

/-- Of the marks in this line, the star belongs to an opener and to a closer, and the hash is
escaped. -/
theorem overlapping_marks_are_no_comment :
    let line := "\tA /*/ \\# b ".toList
    HashesEscaped line ∧ ¬ HoldsBlock line ∧ cleanLine line = trim line := by
  intro line
  have hashes : HashesEscaped line := by decide
  have noBlock : ¬ HoldsBlock line := by decide
  exact ⟨hashes, noBlock, (cleaning_normalizes line).2.2 hashes noBlock⟩

/-- An opener may arise where a block comment is taken out. -/
example : cleanLine "a //* b */* c # */".toList = "a /* c".toList := by decide

end ExtensionLoader.Spec
