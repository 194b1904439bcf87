import ExtensionLoader.Proofs.Text.Lines
import ExtensionLoader.Proofs.Text.Word
import ExtensionLoader.Spec.Line
import Mathlib.Data.List.Infix

/-! # What is left of a line

A line is written as its content with blanks before it and, behind it, blanks and perhaps a
comment (`Spec.Tail`). Cleaning the line gives the content back, if that holds no comment mark
of its own (`Spec.cleanLine_of_content`); of any other line it keeps at least what stands
before the first mark (`Spec.exists_cleanLine_eq`), and of a line of comments alone nothing
that can be read (`Spec.cleanLine_of_commentary`). A source is laid out as items in order, each
on a line of its own, with lines in between that give nothing (`Spec.Layout`).
-/

namespace ExtensionLoader.Spec

open Text

/-- What may stand behind the content of a line: blanks, and behind them a comment. -/
inductive Tail : List Char → Prop
  | blank {gap : List Char} (blank : AllBlank gap) : Tail gap
  | comment {gap : List Char} (blank : AllBlank gap) (text : List Char) : Tail (gap ++ '#' :: text)

/-- The opener of a block comment. -/
def opener : List Char := ['/', '*']

/-- The closer of a block comment. -/
def closer : List Char := ['*', '/']

/-- Every hash of a text stands directly behind a backslash, so none of them opens a comment. -/
def HashesEscaped (text : List Char) : Prop :=
  ∀ front behind, text = front ++ '#' :: behind → front.getLast? = some '\\'

/-- Block comments one after the other, and perhaps a comment behind a hash. No text closes its
comment early, not even with the star of the opener. -/
inductive Comments : List Char → Prop
  | tail {line : List Char} (ends : Tail line) : Comments line
  | block {indent text rest : List Char} (blank : AllBlank indent)
    (body : ¬ closer <:+: '*' :: text) (others : Comments rest) :
    Comments (indent ++ (opener ++ text ++ closer) ++ rest)

/-- A line without content: nothing but blanks and comments. -/
inductive Commentary : List Char → Prop
  | tail {line : List Char} (ends : Tail line) : Commentary line
  /-- A block comment and any others behind it. A hash in one of them may leave it open. -/
  | block {indent text rest : List Char} (blank : AllBlank indent)
    (noCloser : ¬ closer <:+: text) (others : Comments rest) :
    Commentary (indent ++ (opener ++ text ++ closer) ++ rest)
  /-- A text from the first opener to the last closer, which counts as one comment. -/
  | span {indent text tail : List Char} (blank : AllBlank indent) (escaped : HashesEscaped text)
    (ends : Tail tail) : Commentary (indent ++ (opener ++ text ++ closer) ++ tail)

theorem hashesEscaped_of_not_mem {text : List Char} (noHash : '#' ∉ text) :
    HashesEscaped text := by
  rintro front behind rfl
  exact absurd (List.mem_append_right front List.mem_cons_self) noHash

/-- Texts whose hashes are escaped may be joined. -/
theorem HashesEscaped.append {first second : List Char} (kept : HashesEscaped first)
    (keptAgain : HashesEscaped second) : HashesEscaped (first ++ second) := by
  intro front behind whole
  rcases List.append_eq_append_iff.1 whole with ⟨before, rfl, own⟩ | ⟨after, rfl, own⟩
  · rw [List.getLast?_append, keptAgain before behind own, Option.some_or]
  · cases after with
    | nil => cases keptAgain [] behind own.symm
    | cons c after =>
      cases own
      exact kept front after rfl

theorem HashesEscaped.of_append_left {first second : List Char}
    (kept : HashesEscaped (first ++ second)) : HashesEscaped first := by
  rintro front behind rfl
  exact kept front (behind ++ second) (by simp)

/-- Hashes stay escaped without a text that does not escape the first character behind it. -/
theorem HashesEscaped.of_append_right {first second : List Char}
    (kept : HashesEscaped (first ++ second)) (unescaped : first.getLast? ≠ some '\\') :
    HashesEscaped second := by
  rintro front behind rfl
  have escaped := kept (first ++ front) behind (by simp)
  by_cases nonempty : front = []
  · rw [nonempty, List.append_nil] at escaped
    exact absurd escaped unescaped
  · rwa [List.getLast?_append_of_ne_nil _ nonempty] at escaped

/-- A text without a hash may stand before. -/
theorem HashesEscaped.append_left {lead text : List Char} (noHash : '#' ∉ lead)
    (kept : HashesEscaped text) : HashesEscaped (lead ++ text) :=
  (hashesEscaped_of_not_mem noHash).append kept

/-- A text without a hash may stand behind. -/
theorem HashesEscaped.append_right {text rest : List Char} (kept : HashesEscaped text)
    (noHash : '#' ∉ rest) : HashesEscaped (text ++ rest) :=
  kept.append (hashesEscaped_of_not_mem noHash)

/-- Whether a hash would be escaped behind a text. -/
def escapes (escaped : Bool) (text : List Char) : Bool :=
  (text.getLast?.map fun c => c == '\\').getD escaped

theorem escapes_cons (escaped : Bool) (c : Char) (text : List Char) :
    escapes escaped (c :: text) = escapes (c == '\\') text := by
  cases text with
  | nil => rfl
  | cons d rest => simp [escapes, List.getLast?_cons]

theorem escapes_eq_false {text : List Char} (different : text.getLast? ≠ some '\\') :
    escapes false text = false := by
  rw [escapes]
  cases last : text.getLast? with
  | none => rfl
  | some c => simpa [last] using different

/-- A gap escapes nothing. -/
theorem escapes_gap {gap : List Char} (blank : AllBlank gap) (apart : gap ≠ []) (escaped : Bool) :
    escapes escaped gap = false := by
  obtain ⟨c, rest, rfl⟩ := List.exists_cons_of_ne_nil apart
  have solid : (c == '\\') = false := by
    rw [beq_eq_false_iff_ne]
    rintro rfl
    cases blank '\\' List.mem_cons_self
  rw [escapes_cons, solid]
  refine escapes_eq_false fun last => ?_
  exact not_mem_of_allBlank blank rfl (List.mem_cons_of_mem c (List.mem_of_getLast? last))

theorem HashesEscaped.escapes {text : List Char} (kept : HashesEscaped text) :
    ∀ before behind, text = before ++ '#' :: behind → Spec.escapes false before = true := by
  intro before behind whole
  rw [Spec.escapes, kept before behind whole]
  rfl

/-- A front whose hashes are escaped is kept. -/
theorem dropHashComment_append {front : List Char} {escaped : Bool}
    (kept : ∀ before behind, front = before ++ '#' :: behind → escapes escaped before = true)
    (back : List Char) :
    dropHashComment escaped (front ++ back) =
      front ++ dropHashComment (escapes escaped front) back := by
  induction front generalizing escaped with
  | nil => rfl
  | cons c rest ih =>
    have plain : ¬(c = '#' ∧ escaped = false) := by
      rintro ⟨rfl, rfl⟩
      cases kept [] rest rfl
    have others : ∀ before behind, rest = before ++ '#' :: behind →
        escapes (c == '\\') before = true := by
      rintro before behind rfl
      rw [← escapes_cons escaped c before]
      exact kept (c :: before) behind rfl
    rw [List.cons_append, dropHashComment, if_neg plain, ih others, escapes_cons,
      List.cons_append]

theorem dropHashComment_append_of_not_mem {front : List Char} (noHash : '#' ∉ front)
    (escaped : Bool) (back : List Char) :
    dropHashComment escaped (front ++ back) =
      front ++ dropHashComment (escapes escaped front) back := by
  refine dropHashComment_append ?_ back
  rintro before behind rfl
  exact absurd (List.mem_append_right before List.mem_cons_self) noHash

/-- A comment opens within a text, or the whole text is kept. -/
theorem dropHashComment_cases (escaped : Bool) (text back : List Char) :
    dropHashComment escaped (text ++ back) <+: text ∨
      dropHashComment escaped (text ++ back) =
        text ++ dropHashComment (escapes escaped text) back := by
  induction text generalizing escaped with
  | nil => exact .inr rfl
  | cons c rest ih =>
    rw [List.cons_append, dropHashComment]
    split
    · exact .inl (List.nil_prefix)
    · rw [escapes_cons]
      rcases ih (c == '\\') with within | whole
      · exact .inl (List.cons_prefix_cons.2 ⟨rfl, within⟩)
      · exact .inr (congrArg (List.cons c) whole)

theorem dropHashComment_sublist (escaped : Bool) (line : List Char) :
    (dropHashComment escaped line).Sublist line := by
  induction line generalizing escaped with
  | nil => exact .refl _
  | cons c rest ih =>
    rw [dropHashComment]
    split
    · exact List.nil_sublist _
    · exact (ih _).cons_cons c

/-- Of the tail of a line, blanks are left. -/
theorem dropHashComment_tail {content tail : List Char} (kept : HashesEscaped content)
    (ends : Tail tail) (unescaped : tail.head? = some '#' → content.getLast? ≠ some '\\') :
    ∃ gap, AllBlank gap ∧ dropHashComment false (content ++ tail) = content ++ gap := by
  cases ends with
  | blank blank =>
    have left := dropHashComment_append_of_not_mem (not_mem_of_allBlank blank rfl)
      (escapes false content) []
    rw [List.append_nil, dropHashComment, List.append_nil] at left
    exact ⟨tail, blank, by rw [dropHashComment_append kept.escapes, left]⟩
  | @comment gap blank text =>
    -- A blank between a backslash and the hash ends the escape.
    have opens : escapes (escapes false content) gap = false := by
      by_cases apart : gap = []
      · subst apart
        exact escapes_eq_false (unescaped rfl)
      · exact escapes_gap blank apart _
    refine ⟨gap, blank, ?_⟩
    rw [dropHashComment_append kept.escapes,
      dropHashComment_append_of_not_mem (not_mem_of_allBlank blank rfl), opens]
    simp [dropHashComment]

/-- A block comment is left open by a comment within it, or it is kept with what is left of the
text behind it. -/
theorem dropHashComment_block (text rest : List Char) :
    dropHashComment false (text ++ (closer ++ rest)) <+: text ∨
      dropHashComment false (text ++ (closer ++ rest)) =
        text ++ (closer ++ dropHashComment false rest) := by
  refine (dropHashComment_cases false text (closer ++ rest)).imp_right fun kept => ?_
  have unescaped : escapes (escapes false text) closer = false := rfl
  rw [kept, dropHashComment_append_of_not_mem (by decide), unescaped]

/-- The opener of a comment is kept, with the blanks before it. -/
theorem dropHashComment_opener {indent : List Char} (blank : AllBlank indent)
    (behind : List Char) :
    dropHashComment false (indent ++ (opener ++ behind)) =
      indent ++ (opener ++ dropHashComment false behind) := by
  have noMark : '#' ∉ indent ++ opener := by
    rw [List.mem_append, not_or]
    exact ⟨not_mem_of_allBlank blank rfl, by decide⟩
  have unescaped : escapes false (indent ++ opener) = false := by
    refine escapes_eq_false ?_
    rw [List.getLast?_append_of_ne_nil _ (by decide)]
    decide
  rw [← List.append_assoc, dropHashComment_append_of_not_mem noMark, unescaped,
    List.append_assoc]

/-- A front without a slash stands before the opener. -/
theorem cutAtOpener_append {front : List Char} (noSlash : '/' ∉ front) (back : List Char) :
    cutAtOpener (front ++ back) =
      (cutAtOpener back).map fun cut => (front ++ cut.1, cut.2) := by
  induction front with
  | nil => simp
  | cons c rest ih =>
    rw [List.mem_cons, not_or] at noSlash
    have plain : ¬(c = '/' ∧ (rest ++ back).head? = some '*') := fun opens =>
      noSlash.1 opens.1.symm
    rw [List.cons_append, cutAtOpener, if_neg plain, ih noSlash.2, Option.map_map]
    rfl

/-- What stands before the first slash of a line is no part of a block comment. -/
theorem dropBlockComment_append {front : List Char} (noSlash : '/' ∉ front) (back : List Char) :
    dropBlockComment (front ++ back) = front ++ dropBlockComment back := by
  rw [dropBlockComment, cutAtOpener_append noSlash, dropBlockComment]
  cases cutAtOpener back with
  | none => rfl
  | some cut =>
    obtain ⟨before, behind⟩ := cut
    dsimp only [Option.map_some]
    cases afterLastCloser behind with
    | none => rfl
    | some after => exact List.append_assoc front before after

/-- There is no cut exactly when there is no opener. -/
theorem cutAtOpener_eq_none_iff {line : List Char} :
    cutAtOpener line = none ↔ ¬ opener <:+: line := by
  induction line with
  | nil => simp [cutAtOpener, opener]
  | cons c rest ih =>
    rw [cutAtOpener, List.infix_cons_iff, not_or, ← ih]
    by_cases opens : c = '/' ∧ rest.head? = some '*'
    · obtain ⟨rfl, second⟩ := opens
      obtain ⟨behind, rfl⟩ := List.head?_eq_some_iff.1 second
      simp [opener]
    · have different : ¬ opener <+: c :: rest := by
        rintro ⟨behind, whole⟩
        cases whole
        exact opens ⟨rfl, rfl⟩
      rw [if_neg opens, Option.map_eq_none_iff]
      exact ⟨fun none => ⟨different, none⟩, fun both => both.2⟩

theorem dropBlockComment_eq_self {line : List Char} (noOpener : ¬ opener <:+: line) :
    dropBlockComment line = line := by
  rw [dropBlockComment, cutAtOpener_eq_none_iff.2 noOpener]

theorem not_opener_infix_append_left {lead text : List Char} (noSlash : '/' ∉ lead)
    (noOpener : ¬ opener <:+: text) : ¬ opener <:+: lead ++ text := by
  rw [← cutAtOpener_eq_none_iff] at noOpener ⊢
  rw [cutAtOpener_append noSlash, noOpener, Option.map_none]

theorem not_opener_infix_of_not_mem {text : List Char} (noStar : '*' ∉ text) :
    ¬ opener <:+: text := by
  intro within
  exact noStar (within.subset (by simp [opener]))

/-- A text without a star does not complete an opener. -/
theorem not_opener_infix_append {text behind : List Char} (noOpener : ¬ opener <:+: text)
    (noStar : '*' ∉ behind) : ¬ opener <:+: text ++ behind := by
  induction text with
  | nil => exact not_opener_infix_of_not_mem noStar
  | cons c rest ih =>
    rw [List.infix_cons_iff, not_or] at noOpener
    rw [List.cons_append, List.infix_cons_iff, not_or]
    refine ⟨?_, ih noOpener.2⟩
    rintro ⟨after, whole⟩
    -- An opener across the seam would have its star behind it.
    cases rest with
    | nil =>
      cases behind with
      | nil => cases whole
      | cons d behind =>
        cases whole
        exact noStar List.mem_cons_self
    | cons d rest =>
      cases whole
      exact noOpener.1 ⟨rest, rfl⟩

/-- Without a closer there is nothing behind one. -/
theorem afterLastCloser_eq_none {line : List Char} (noCloser : ¬ closer <:+: line) :
    afterLastCloser line = none := by
  induction line with
  | nil => rfl
  | cons c rest ih =>
    rw [List.infix_cons_iff, not_or] at noCloser
    have different : ¬(c = '*' ∧ rest.head? = some '/') := by
      rintro ⟨rfl, second⟩
      obtain ⟨behind, rfl⟩ := List.head?_eq_some_iff.1 second
      exact noCloser.1 ⟨behind, rfl⟩
    rw [afterLastCloser, ih noCloser.2]
    exact if_neg different

/-- A closer without another one behind it is the last one. -/
theorem afterLastCloser_append {rest : List Char} (noCloser : ¬ closer <:+: rest)
    (text : List Char) : afterLastCloser (text ++ (closer ++ rest)) = some rest := by
  induction text with
  | nil =>
    have none : afterLastCloser ('/' :: rest) = none := by
      refine afterLastCloser_eq_none fun within => ?_
      rcases List.infix_cons_iff.1 within with ⟨after, whole⟩ | later
      · cases whole
      · exact noCloser later
    rw [List.nil_append, closer, List.cons_append, afterLastCloser, List.singleton_append, none]
    rfl
  | cons c text ih => rw [List.cons_append, afterLastCloser, ih]

/-- A front without a star brings no closer in. -/
theorem not_closer_infix_append_left {lead text : List Char} (noStar : '*' ∉ lead)
    (noCloser : ¬ closer <:+: text) : ¬ closer <:+: lead ++ text := by
  induction lead with
  | nil => exact noCloser
  | cons c rest ih =>
    rw [List.mem_cons, not_or] at noStar
    rw [List.cons_append, List.infix_cons_iff, not_or]
    refine ⟨?_, ih noStar.2⟩
    rintro ⟨after, whole⟩
    exact noStar.1 (List.cons.inj whole).1

theorem dropBlockComment_of_unclosed {text : List Char} (noCloser : ¬ closer <:+: text) :
    dropBlockComment (opener ++ text) = opener ++ text := by
  have cut : cutAtOpener (opener ++ text) = some ([], text) := rfl
  rw [dropBlockComment, cut]
  dsimp only
  rw [afterLastCloser_eq_none noCloser]

theorem dropBlockComment_of_closed {rest : List Char} (noCloser : ¬ closer <:+: rest)
    (text : List Char) : dropBlockComment (opener ++ (text ++ (closer ++ rest))) = rest := by
  have cut : cutAtOpener (opener ++ (text ++ (closer ++ rest))) =
      some ([], text ++ (closer ++ rest)) := rfl
  rw [dropBlockComment, cut]
  dsimp only
  rw [afterLastCloser_append noCloser]
  rfl

/-- The two sides of an opener come from the line. -/
theorem cutAtOpener_sublist {line before behind : List Char}
    (cut : cutAtOpener line = some (before, behind)) : (before ++ behind).Sublist line := by
  induction line generalizing before behind with
  | nil => cases cut
  | cons c rest ih =>
    rw [cutAtOpener] at cut
    split at cut
    · cases cut
      exact (List.tail_sublist rest).cons c
    · obtain ⟨⟨front, back⟩, later, same⟩ := Option.map_eq_some_iff.1 cut
      cases same
      exact (ih later).cons_cons c

/-- What stands behind the last closer comes from the line. -/
theorem afterLastCloser_sublist {line after : List Char}
    (cut : afterLastCloser line = some after) : after.Sublist line := by
  induction line generalizing after with
  | nil => cases cut
  | cons c rest ih =>
    rw [afterLastCloser] at cut
    split at cut
    · rename_i behind later
      cases cut
      exact (ih later).cons c
    · split at cut
      · cases cut
        exact (List.tail_sublist rest).cons c
      · cases cut

/-- Dropping a comment adds nothing. -/
theorem dropBlockComment_sublist (line : List Char) : (dropBlockComment line).Sublist line := by
  rw [dropBlockComment]
  split
  · exact .refl _
  · rename_i before behind opened
    split
    · exact .refl _
    · rename_i after closed
      exact ((afterLastCloser_sublist closed).append_left before).trans
        (cutAtOpener_sublist opened)

/-- Cleaning adds nothing to a line. -/
theorem cleanLine_sublist (line : List Char) : (cleanLine line).Sublist line :=
  (trim_sublist _).trans
    ((dropBlockComment_sublist _).trans (dropHashComment_sublist false line))

/-- **Cleaning gives the content of a line back.** -/
theorem cleanLine_of_content {indent content tail : List Char} (blank : AllBlank indent)
    (kept : HashesEscaped content) (noOpener : ¬ opener <:+: content) (ends : Tail tail)
    (unescaped : tail.head? = some '#' → content.getLast? ≠ some '\\') :
    cleanLine (indent ++ content ++ tail) = trim content := by
  have unmarked : escapes false indent = false := by
    refine escapes_eq_false fun last => ?_
    exact not_mem_of_allBlank blank rfl (List.mem_of_getLast? last)
  obtain ⟨gap, blankGap, left⟩ := dropHashComment_tail kept ends unescaped
  have noStar : '*' ∉ gap := not_mem_of_allBlank blankGap rfl
  have noSlash : '/' ∉ indent := not_mem_of_allBlank blank rfl
  rw [cleanLine, List.append_assoc,
    dropHashComment_append_of_not_mem (not_mem_of_allBlank blank rfl), unmarked, left,
    dropBlockComment_append noSlash,
    dropBlockComment_eq_self (not_opener_infix_append noOpener noStar), ← List.append_assoc,
    trim_append blank content blankGap]

theorem cleanLine_of_tail {line : List Char} (ends : Tail line) : cleanLine line = [] :=
  cleanLine_of_content allBlank_nil (hashesEscaped_of_not_mem List.not_mem_nil) (by simp [opener])
    ends (by simp)

/-- What may be left behind the last closer of a line of comments: blanks, and behind them perhaps
a comment that a hash leaves open. -/
inductive Remainder : List Char → Prop
  | blank {gap : List Char} (blank : AllBlank gap) : Remainder gap
  | unclosed {gap text : List Char} (blank : AllBlank gap) (body : ¬ closer <:+: '*' :: text) :
    Remainder (gap ++ (opener ++ text))

/-- What is left of a comment's line closes nothing. -/
theorem Remainder.not_closer {back : List Char} (left : Remainder back) :
    ¬ closer <:+: back := by
  cases left with
  | blank blank =>
    exact fun within => not_mem_of_allBlank blank rfl (within.subset List.mem_cons_self)
  | @unclosed gap text blank body =>
    have noStar : '*' ∉ gap ++ ['/'] := by
      rw [List.mem_append, not_or]
      exact ⟨not_mem_of_allBlank blank rfl, by decide⟩
    have whole : gap ++ (opener ++ text) = gap ++ ['/'] ++ '*' :: text := by
      simp [opener]
    rw [whole]
    exact not_closer_infix_append_left noStar body

/-- What is left of a comment's line is blank or starts with a slash. -/
theorem Remainder.trim_append {indent back : List Char} (blank : AllBlank indent)
    (left : Remainder back) :
    trim (indent ++ back) = [] ∨ ∃ behind, trim (indent ++ back) = '/' :: behind := by
  cases left with
  | blank blankGap =>
    left
    rw [trim, trimStart_append blank, trimStart_eq_nil blankGap]
    rfl
  | @unclosed gap text blankGap body =>
    right
    rw [trim, trimStart_append blank, trimStart_append blankGap, ← trim]
    exact ⟨_, trim_cons_of_solid rfl ('*' :: text)⟩

/-- Behind some comments a hash leaves a remainder. What stands before it are closed comments. -/
theorem exists_remainder {line : List Char} (only : Comments line) :
    ∃ front back, dropHashComment false line = front ++ back ∧ Remainder back ∧
      (front = [] ∨ closer <:+ front) := by
  induction only with
  | tail ends =>
    obtain ⟨gap, blank, left⟩ := dropHashComment_tail
      (hashesEscaped_of_not_mem List.not_mem_nil) ends (by simp)
    exact ⟨[], gap, left, .blank blank, .inl rfl⟩
  | @block indent text rest blank body others ih =>
    rw [List.append_assoc, List.append_assoc, List.append_assoc, dropHashComment_opener blank]
    rcases dropHashComment_block text rest with within | kept
    · refine ⟨[], _, rfl, .unclosed blank fun closes => body ?_, .inl rfl⟩
      exact closes.trans (List.cons_prefix_cons.2 ⟨rfl, within⟩).isInfix
    · obtain ⟨front, back, left, remains, ends⟩ := ih
      refine ⟨indent ++ (opener ++ (text ++ (closer ++ front))), back, ?_, remains, .inr ?_⟩
      · rw [kept, left]
        simp only [List.append_assoc]
      · rcases ends with rfl | last
        · exact ⟨indent ++ (opener ++ text), by simp⟩
        · simp only [← List.append_assoc]
          exact last.trans (List.suffix_append _ _)

/-- Of a line without content nothing is left, or a block comment that a hash leaves open. -/
theorem cleanLine_of_commentary {line : List Char} (only : Commentary line) :
    cleanLine line = [] ∨ ∃ behind, cleanLine line = '/' :: behind := by
  cases only with
  | tail ends => exact .inl (cleanLine_of_tail ends)
  | @block indent text rest blank noCloser others =>
    have noSlash : '/' ∉ indent := not_mem_of_allBlank blank rfl
    rw [cleanLine, List.append_assoc, List.append_assoc, List.append_assoc,
      dropHashComment_opener blank, dropBlockComment_append noSlash]
    rcases dropHashComment_block text rest with within | kept
    · right
      generalize dropHashComment false (text ++ (closer ++ rest)) = left at within ⊢
      have unclosed : ¬ closer <:+: left := fun closes => noCloser (closes.trans within.isInfix)
      rw [dropBlockComment_of_unclosed unclosed, trim, trimStart_append blank, ← trim]
      exact ⟨_, trim_cons_of_solid rfl ('*' :: left)⟩
    · -- The block that is taken out ends at the last of the comments that are closed.
      obtain ⟨front, back, left, remains, ends⟩ := exists_remainder others
      obtain ⟨inside, closed⟩ : ∃ inside, text ++ (closer ++ dropHashComment false rest) =
          inside ++ (closer ++ back) := by
        rcases ends with rfl | ⟨lead, rfl⟩
        · exact ⟨text, by rw [left, List.nil_append]⟩
        · exact ⟨text ++ (closer ++ lead), by simp only [left, List.append_assoc]⟩
      rw [kept, closed, dropBlockComment_of_closed remains.not_closer]
      exact remains.trim_append blank
  | @span indent text tail blank escaped ends =>
    left
    have noMark : '#' ∉ indent ++ opener := by
      rw [List.mem_append, not_or]
      exact ⟨not_mem_of_allBlank blank rfl, by decide⟩
    have kept : HashesEscaped (indent ++ opener ++ (text ++ closer)) :=
      (escaped.append_right (by decide)).append_left noMark
    have unescaped : (indent ++ opener ++ (text ++ closer)).getLast? ≠ some '\\' := by
      rw [← List.append_assoc, List.getLast?_append_of_ne_nil _ (by decide)]
      decide
    obtain ⟨gap, blankGap, left⟩ := dropHashComment_tail kept ends fun _ => unescaped
    have whole : indent ++ (opener ++ text ++ closer) = indent ++ opener ++ (text ++ closer) := by
      simp only [List.append_assoc]
    rw [cleanLine, whole, left, List.append_assoc, List.append_assoc, List.append_assoc,
      dropBlockComment_append (not_mem_of_allBlank blank rfl),
      dropBlockComment_of_closed (Remainder.blank blankGap).not_closer, trim,
      trimStart_append blank, trimStart_eq_nil blankGap]
    rfl

/-- What stands before the first mark of a comment is kept, whatever follows. -/
theorem exists_cleanLine_eq {indent lead : List Char} (blank : AllBlank indent)
    (nonempty : lead ≠ []) (noHash : '#' ∉ lead) (noSlash : '/' ∉ lead)
    (starts : ∀ c ∈ lead.head?, isBlank c = false) (ends : ∀ c ∈ lead.getLast?, isBlank c = false)
    (rest : List Char) : ∃ behind, cleanLine (indent ++ lead ++ rest) = lead ++ behind := by
  have noMark : '#' ∉ indent ++ lead := by
    rw [List.mem_append, not_or]
    exact ⟨not_mem_of_allBlank blank rfl, noHash⟩
  have noOpen : '/' ∉ indent ++ lead := by
    rw [List.mem_append, not_or]
    exact ⟨not_mem_of_allBlank blank rfl, noSlash⟩
  rw [cleanLine, dropHashComment_append_of_not_mem noMark, dropBlockComment_append noOpen]
  generalize dropBlockComment (dropHashComment _ rest) = left
  have started : trimStart (lead ++ left) = lead ++ left := by
    refine trimStart_eq_self fun c head => ?_
    rw [List.head?_append_of_ne_nil _ nonempty] at head
    exact starts c head
  rw [trim, List.append_assoc, trimStart_append blank, started,
    trimEnd_append_of_solid nonempty ends]
  exact ⟨trimEnd left, rfl⟩

/-- No cleaned line holds a line feed. -/
theorem not_mem_cleanedLines {source : String} : ∀ line ∈ cleanedLines source, '\n' ∉ line := by
  intro line member
  obtain ⟨own, listed, rfl⟩ := List.mem_map.1 (List.mem_filter.1 member).1
  exact fun feed => not_mem_lines own listed ((cleanLine_sublist own).subset feed)

/-- Lines that hold items in order, with other lines before, between and behind them. -/
inductive Layout {α : Type} (holds : α → List Char → Prop) (other : List Char → Prop) :
    List α → List (List Char) → Prop
  | nil : Layout holds other [] []
  | other {items : List α} {line : List Char} {lines : List (List Char)} (gives : other line)
    (rest : Layout holds other items lines) : Layout holds other items (line :: lines)
  | item {item : α} {items : List α} {line : List Char} {lines : List (List Char)}
    (gives : holds item line) (rest : Layout holds other items lines) :
    Layout holds other (item :: items) (line :: lines)

/-- A reader that sees each item on its line, and nothing on the other lines, sees the items in
order. -/
theorem Layout.filterMap_eq {α β : Type} {holds : α → List Char → Prop}
    {other : List Char → Prop} {items : List α} {lines : List (List Char)}
    (layout : Layout holds other items lines) (read : List Char → Option β) (shape : α → β)
    (sees : ∀ item line, holds item line → read line = some (shape item))
    (skips : ∀ line, other line → read line = none) :
    lines.filterMap read = items.map shape := by
  induction layout with
  | nil => rfl
  | other gives rest ih => rw [List.filterMap_cons_none (skips _ gives), ih]
  | item gives rest ih => rw [List.filterMap_cons_some (sees _ _ gives), ih, List.map_cons]

/-- Each item of a layout has its line. -/
theorem Layout.exists_of_mem {α : Type} {holds : α → List Char → Prop}
    {other : List Char → Prop} {items : List α} {lines : List (List Char)}
    (layout : Layout holds other items lines) {item : α} (member : item ∈ items) :
    ∃ line, holds item line := by
  induction layout with
  | nil => cases member
  | other _ _ ih => exact ih member
  | @item first items line lines gives _ ih =>
    rcases List.mem_cons.1 member with rfl | later
    · exact ⟨line, gives⟩
    · exact ih later

/-- Reading the cleaned lines amounts to cleaning and reading each line. -/
theorem filterMap_cleanedLines {α : Type} {read : List Char → Option α} (empty : read [] = none)
    (source : String) :
    (cleanedLines source).filterMap read =
      (lines source).filterMap fun line => read (cleanLine line) := by
  rw [cleanedLines, List.filterMap_filter, List.filterMap_map]
  congr 1
  funext line
  cases cleaned : cleanLine line with
  | nil => simp [cleaned, empty]
  | cons c rest => simp [cleaned]

end ExtensionLoader.Spec
