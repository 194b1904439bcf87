import ExtensionLoader.Proofs.Spec.Congruence
import ExtensionLoader.Proofs.Spec.Line
import Mathlib.Data.List.Forall2

/-! # The layout of a source

No reader sees how a source is laid out. Blanks around a line and a comment behind it are gone when
the line is cleaned, whatever the line holds (`Spec.cleanLine_append_tail`), and a line of blanks or
of a comment carries nothing. A change of the layout (`Spec.LayoutChange`) therefore keeps what the
lines of a source carry (`Spec.LayoutChange.carried_eq`), and with it the tables that are read, as
long as the first line still tells the dialect (`Spec.layout_change_keeps_tables`).
-/

namespace ExtensionLoader

open Text

namespace Spec

/-- A comment that opens in a line hides the comment behind it; otherwise blanks are left. -/
theorem dropHashComment_append_tail {tail : List Char} (ends : Tail tail)
    (apart : tail.head? ≠ some '#') (escaped : Bool) (line : List Char) :
    ∃ gap, AllBlank gap ∧
      dropHashComment escaped (line ++ tail) = dropHashComment escaped line ++ gap := by
  induction line generalizing escaped with
  | nil =>
    cases ends with
    | blank blank =>
      have whole := dropHashComment_append_of_not_mem (not_mem_of_allBlank blank rfl) escaped []
      rw [List.append_nil, dropHashComment, List.append_nil] at whole
      exact ⟨tail, blank, whole⟩
    | @comment gap blank text =>
      have nonempty : gap ≠ [] := by
        rintro rfl
        exact apart rfl
      refine ⟨gap, blank, ?_⟩
      rw [List.nil_append, dropHashComment_append_of_not_mem (not_mem_of_allBlank blank rfl),
        escapes_gap blank nonempty]
      simp [dropHashComment]
  | cons c rest ih =>
    rw [List.cons_append, dropHashComment, dropHashComment]
    split
    · exact ⟨[], allBlank_nil, rfl⟩
    · obtain ⟨gap, blank, kept⟩ := ih (c == '\\')
      exact ⟨gap, blank, by rw [kept, List.cons_append]⟩

section Gap

variable {gap : List Char} (blank : AllBlank gap)
include blank

theorem head?_append_gap {c : Char} (solid : isBlank c = false) (line : List Char) :
    (line ++ gap).head? = some c ↔ line.head? = some c := by
  cases line with
  | nil =>
    refine ⟨fun first => ?_, nofun⟩
    exact absurd (List.mem_of_mem_head? first) (not_mem_of_allBlank blank solid)
  | cons d rest => exact Iff.rfl

/-- A gap at the end stays behind the cut. -/
theorem cutAtOpener_append_gap (line : List Char) :
    cutAtOpener (line ++ gap) = (cutAtOpener line).map fun cut => (cut.1, cut.2 ++ gap) := by
  induction line with
  | nil =>
    rw [List.nil_append, cutAtOpener_eq_none_iff.2
      (not_opener_infix_of_not_mem (not_mem_of_allBlank blank rfl))]
    rfl
  | cons c rest ih =>
    rw [List.cons_append, cutAtOpener, cutAtOpener, ih]
    simp only [head?_append_gap blank (c := '*') rfl rest]
    split
    · rename_i opens
      obtain ⟨behind, rfl⟩ := List.head?_eq_some_iff.1 opens.2
      rfl
    · rw [Option.map_map, Option.map_map]
      rfl

/-- A gap at the end stays behind the last closer. -/
theorem afterLastCloser_append_gap (line : List Char) :
    afterLastCloser (line ++ gap) = (afterLastCloser line).map (· ++ gap) := by
  induction line with
  | nil =>
    refine afterLastCloser_eq_none fun within => ?_
    exact not_mem_of_allBlank blank (c := '*') rfl (within.subset List.mem_cons_self)
  | cons c rest ih =>
    rw [List.cons_append, afterLastCloser, afterLastCloser, ih]
    simp only [head?_append_gap blank (c := '/') rfl rest]
    cases afterLastCloser rest with
    | some behind => rfl
    | none =>
      dsimp only [Option.map_none]
      split
      · rename_i closes
        obtain ⟨behind, rfl⟩ := List.head?_eq_some_iff.1 closes.2
        rfl
      · rfl

/-- Blanks behind a line are no part of a block comment. -/
theorem dropBlockComment_append_gap (line : List Char) :
    dropBlockComment (line ++ gap) = dropBlockComment line ++ gap := by
  rw [dropBlockComment, cutAtOpener_append_gap blank, dropBlockComment]
  cases cutAtOpener line with
  | none => rfl
  | some cut =>
    obtain ⟨before, behind⟩ := cut
    dsimp only [Option.map_some]
    rw [afterLastCloser_append_gap blank]
    cases afterLastCloser behind with
    | none => rfl
    | some after => exact (List.append_assoc before after gap).symm

end Gap

/-- **Blanks around a line and a comment behind it are gone when the line is cleaned**, whatever
marks of comments the line and the comment hold. -/
theorem cleanLine_append_tail {indent tail : List Char} (blank : AllBlank indent)
    (ends : Tail tail) (apart : tail.head? ≠ some '#') (line : List Char) :
    cleanLine (indent ++ line ++ tail) = cleanLine line := by
  have unmarked : escapes false indent = false := by
    refine escapes_eq_false fun last => ?_
    exact not_mem_of_allBlank blank rfl (List.mem_of_getLast? last)
  have noSlash : '/' ∉ indent := not_mem_of_allBlank blank rfl
  obtain ⟨gap, blankGap, left⟩ := dropHashComment_append_tail ends apart false line
  rw [cleanLine, List.append_assoc,
    dropHashComment_append_of_not_mem (not_mem_of_allBlank blank rfl), unmarked, left,
    dropBlockComment_append noSlash, dropBlockComment_append_gap blankGap, ← List.append_assoc,
    trim_append blank _ blankGap, cleanLine]

/-- A line with a return behind it is cleaned like the line. -/
theorem cleanLine_append_return (line : List Char) : cleanLine (line ++ ['\r']) = cleanLine line :=
  cleanLine_append_tail allBlank_nil (.blank (by decide)) (by decide) line

/-- The cleaned lines of a text that are not empty. The lines are cut at line feeds alone. -/
def carried (text : List Char) : List (List Char) :=
  ((feedLines text).map cleanLine).filter fun line => !line.isEmpty

/-- A line as it stands in a text: perhaps with a return that belongs to its line break. -/
def Shown (raw line : List Char) : Prop := raw = line ∨ raw = line ++ ['\r']

/-- The lines show the same with whatever returns end them. -/
theorem forall₂_shown (text : List Char) :
    List.Forall₂ Shown (feedLines text) (feedLines (unifyBreaks text)) := by
  induction text with
  | nil => exact .nil
  | cons c rest ih =>
    rw [unifyBreaks]
    split
    · -- The return belongs to the line break behind it.
      rename_i breaks
      obtain ⟨rfl, first⟩ := breaks
      obtain ⟨behind, rfl⟩ := List.head?_eq_some_iff.1 first
      have plain : ¬('\n' = '\r' ∧ behind.head? = some '\n') := by simp
      rw [unifyBreaks, if_neg plain, feedLines, if_pos rfl, feedLines, if_pos rfl] at ih
      obtain ⟨-, others⟩ := List.forall₂_cons.1 ih
      rw [feedLines, if_neg (by decide), feedLines, if_pos rfl, unifyBreaks, if_neg plain,
        feedLines, if_pos rfl]
      exact .cons (.inr rfl) others
    · rw [feedLines, feedLines]
      generalize feedLines rest = raws at ih ⊢
      generalize feedLines (unifyBreaks rest) = lines at ih ⊢
      split
      · exact .cons (.inl rfl) ih
      · cases ih with
        | nil => exact .cons (.inl rfl) .nil
        | cons here others =>
          refine .cons ?_ others
          rcases here with rfl | rfl
          · exact .inl rfl
          · exact .inr rfl

/-- The cleaned lines are those the text carries. -/
theorem cleanedLines_eq_carried (source : String) :
    cleanedLines source = carried source.toList := by
  have same : List.Forall₂ (fun raw line => cleanLine raw = cleanLine line)
      (feedLines source.toList) (feedLines (unifyBreaks source.toList)) := by
    refine (forall₂_shown source.toList).imp ?_
    rintro raw line (rfl | rfl)
    · rfl
    · exact cleanLine_append_return line
  have cleaned := (List.forall₂_map_left_iff.2 (List.forall₂_map_right_iff.2 same))
  rw [List.forall₂_eq_eq_eq] at cleaned
  rw [cleanedLines, carried, Text.lines, cleaned]

/-- A text that ends where a line starts. -/
def LineStarts (before : List Char) : Prop := ∀ c ∈ before.getLast?, c = '\n'

instance (before : List Char) : Decidable (LineStarts before) :=
  decidable_of_iff (before.getLast?.all (· == '\n') = true)
    (by simp [LineStarts, Option.all_eq_true])

theorem LineStarts.of_cons {c : Char} {rest : List Char} (starts : LineStarts (c :: rest))
    (nonempty : rest ≠ []) : LineStarts rest := by
  intro d last
  refine starts d ?_
  rwa [List.getLast?_cons_of_ne_nil nonempty]

/-- A text that starts where a line ends: at the end of all lines, or at a line break. -/
inductive LineEnds : List Char → Prop
  | text : LineEnds []
  | feed (rest : List Char) : LineEnds ('\n' :: rest)
  | returnFeed (rest : List Char) : LineEnds ('\r' :: '\n' :: rest)

/-- The two ways to write a line break. -/
def lineBreaks : List (List Char) := [['\n'], ['\r', '\n']]

theorem feedLines_ne_nil {text : List Char} (nonempty : text ≠ []) : feedLines text ≠ [] := by
  obtain ⟨c, rest, rfl⟩ := List.exists_cons_of_ne_nil nonempty
  rw [feedLines]
  split
  · exact List.cons_ne_nil _ _
  · split <;> exact List.cons_ne_nil _ _

/-- Where a line starts, the lines before and behind are apart. -/
theorem feedLines_append_of_lineStarts {before : List Char} (starts : LineStarts before)
    (behind : List Char) : feedLines (before ++ behind) = feedLines before ++ feedLines behind := by
  induction before with
  | nil => rfl
  | cons c rest ih =>
    by_cases nonempty : rest = []
    · obtain rfl : c = '\n' := starts c (by rw [nonempty]; rfl)
      rw [nonempty]
      simp [feedLines]
    · have others := starts.of_cons nonempty
      obtain ⟨line, later, cut⟩ := List.exists_cons_of_ne_nil (feedLines_ne_nil nonempty)
      rw [List.cons_append, feedLines, feedLines, ih others, cut, List.cons_append]
      split <;> rfl

theorem carried_append {before : List Char} (starts : LineStarts before) (behind : List Char) :
    carried (before ++ behind) = carried before ++ carried behind := by
  rw [carried, feedLines_append_of_lineStarts starts, List.map_append, List.filter_append]
  rfl

/-- A text without line feeds is one line. -/
theorem feedLines_eq_singleton {line : List Char} (nonempty : line ≠ []) (noFeed : '\n' ∉ line) :
    feedLines line = [line] := by
  induction line with
  | nil => exact absurd rfl nonempty
  | cons c rest ih =>
    rw [List.mem_cons, not_or] at noFeed
    rw [feedLines, if_neg (Ne.symm noFeed.1)]
    by_cases last : rest = []
    · rw [last]
      rfl
    · rw [ih last noFeed.2]

theorem carried_line {line : List Char} (noFeed : '\n' ∉ line) :
    carried line = [cleanLine line].filter fun cleaned => !cleaned.isEmpty := by
  by_cases nonempty : line = []
  · rw [nonempty]
    rfl
  · rw [carried, feedLines_eq_singleton nonempty noFeed]
    rfl

theorem carried_line_append_feed {line : List Char} (noFeed : '\n' ∉ line) (rest : List Char) :
    carried (line ++ '\n' :: rest) = carried line ++ carried rest := by
  rw [carried_line noFeed, carried, feedLines_append noFeed, List.map_cons,
    ← List.singleton_append, List.filter_append]
  rfl

theorem carried_line_append_return {line : List Char} (noFeed : '\n' ∉ line) :
    carried (line ++ ['\r']) = carried line := by
  rw [carried_line (by simp [noFeed]), carried_line noFeed, cleanLine_append_return]

/-- The lines before a line break and those behind it carry what they carry on their own. -/
theorem carried_line_append_break {line lineBreak : List Char} (noFeed : '\n' ∉ line)
    (breaks : lineBreak ∈ lineBreaks) (rest : List Char) :
    carried (line ++ lineBreak ++ rest) = carried line ++ carried rest := by
  rcases List.mem_pair.1 breaks with rfl | rfl
  · rw [List.append_assoc]
    exact carried_line_append_feed noFeed rest
  · have noFeedToo : '\n' ∉ line ++ ['\r'] := by simp [noFeed]
    have whole : line ++ ['\r', '\n'] ++ rest = line ++ ['\r'] ++ '\n' :: rest := by simp
    rw [whole, carried_line_append_feed noFeedToo, carried_line_append_return noFeed]

/-- A line may be replaced by one that is cleaned alike. -/
theorem carried_replace {before line other after : List Char} (starts : LineStarts before)
    (ends : LineEnds after) (noFeed : '\n' ∉ line) (noFeedToo : '\n' ∉ other)
    (same : cleanLine line = cleanLine other) :
    carried (before ++ line ++ after) = carried (before ++ other ++ after) := by
  have own : carried line = carried other := by
    rw [carried_line noFeed, carried_line noFeedToo, same]
  rw [List.append_assoc, List.append_assoc, carried_append starts, carried_append starts]
  congr 1
  cases ends with
  | text => rwa [List.append_nil, List.append_nil]
  | feed rest => rw [carried_line_append_feed noFeed, carried_line_append_feed noFeedToo, own]
  | returnFeed rest =>
    have cut := carried_line_append_break noFeed (List.mem_pair.2 (.inr rfl)) rest
    have cutToo := carried_line_append_break noFeedToo (List.mem_pair.2 (.inr rfl)) rest
    rw [List.append_assoc] at cut cutToo
    exact cut.trans ((congrArg (· ++ carried rest) own).trans cutToo.symm)

/-- A line of blanks, or of blanks and a comment, carries nothing. -/
theorem carried_bare {line : List Char} (bare : Tail line) (noFeed : '\n' ∉ line) :
    carried line = [] := by
  rw [carried_line noFeed, cleanLine_of_tail bare]
  rfl

/-- A text ends in a line, which may be empty, that no line break stands behind. -/
theorem exists_lastLine (text : List Char) :
    ∃ before line, text = before ++ line ∧ LineStarts before ∧ '\n' ∉ line := by
  induction text using List.reverseRecOn with
  | nil => exact ⟨[], [], rfl, nofun, List.not_mem_nil⟩
  | append_singleton front c ih =>
    obtain ⟨before, line, rfl, starts, noFeed⟩ := ih
    by_cases feed : c = '\n'
    · exact ⟨before ++ line ++ [c], [], by simp, by simp [LineStarts, feed], List.not_mem_nil⟩
    · exact ⟨before, line ++ [c], by simp, starts, by simp [noFeed, Ne.symm feed]⟩

/-- What stands before a line break and what stands behind it carry what they carry on their own. -/
theorem carried_append_break {lineBreak : List Char} (breaks : lineBreak ∈ lineBreaks)
    (text rest : List Char) :
    carried (text ++ lineBreak ++ rest) = carried text ++ carried rest := by
  obtain ⟨before, line, rfl, starts, noFeed⟩ := exists_lastLine text
  have cut := carried_line_append_break noFeed breaks rest
  rw [List.append_assoc, List.append_assoc, carried_append starts, ← List.append_assoc, cut,
    ← List.append_assoc, carried_append starts]

theorem cleanedLines_append_break {lineBreak : String} (breaks : lineBreak.toList ∈ lineBreaks)
    (source other : String) :
    cleanedLines (source ++ lineBreak ++ other) = cleanedLines source ++ cleanedLines other := by
  simp only [cleanedLines_eq_carried, String.toList_append, carried_append_break breaks]

/-- Blanks that break no line. -/
structure LineGap (gap : List Char) : Prop where
  blank : AllBlank gap
  noFeed : '\n' ∉ gap

instance (gap : List Char) : Decidable (LineGap gap) :=
  decidable_of_iff (AllBlank gap ∧ '\n' ∉ gap) ⟨fun both => ⟨both.1, both.2⟩,
    fun given => ⟨given.blank, given.noFeed⟩⟩

/-- A change of a text that only concerns its layout. -/
inductive LayoutChange : List Char → List Char → Prop
  /-- A line that is blank, or that starts with `#` behind its blanks, is put before another line,
  or behind the last one. -/
  | newLine {before line lineBreak after : List Char} (starts : LineStarts before)
    (bare : Tail line) (noFeed : '\n' ∉ line)
    (ends : lineBreak ∈ lineBreaks ∨ lineBreak = [] ∧ after = []) :
    LayoutChange (before ++ after) (before ++ (line ++ lineBreak) ++ after)
  /-- Such a line is put behind a last line without a line break. -/
  | lastLine {text lineBreak line ending : List Char} (breaks : lineBreak ∈ lineBreaks)
    (bare : Tail line) (noFeed : '\n' ∉ line) (ends : ending ∈ lineBreaks ∨ ending = []) :
    LayoutChange text (text ++ lineBreak ++ (line ++ ending))
  /-- Blanks at the start and at the end of a line give way to others. -/
  | blanks {before lead line trail newLead newTrail after : List Char}
    (starts : LineStarts before) (ends : LineEnds after) (noFeed : '\n' ∉ line)
    (gap : LineGap lead) (gapBehind : LineGap trail) (newGap : LineGap newLead)
    (newGapBehind : LineGap newTrail) :
    LayoutChange (before ++ (lead ++ line ++ trail) ++ after)
      (before ++ (newLead ++ line ++ newTrail) ++ after)
  /-- A space, a `#` and any text are put behind a line. -/
  | comment {before line text after : List Char} (starts : LineStarts before)
    (ends : LineEnds after) (noFeed : '\n' ∉ line) (noFeedBehind : '\n' ∉ text) :
    LayoutChange (before ++ line ++ after) (before ++ (line ++ ' ' :: '#' :: text) ++ after)

/-- **A change of the layout keeps what the lines of a text carry.** -/
theorem LayoutChange.carried_eq {text changed : List Char} (change : LayoutChange text changed) :
    carried changed = carried text := by
  cases change with
  | @newLine before line lineBreak after starts bare noFeed ends =>
    have nothing : carried (line ++ lineBreak ++ after) = carried after := by
      rcases ends with breaks | ⟨rfl, rfl⟩
      · rw [carried_line_append_break noFeed breaks, carried_bare bare noFeed, List.nil_append]
      · rw [List.append_nil, List.append_nil, carried_bare bare noFeed]
        rfl
    rw [List.append_assoc, carried_append starts, nothing, carried_append starts]
  | @lastLine text lineBreak line ending breaks bare noFeed ends =>
    have nothing : carried (line ++ ending) = [] := by
      rcases ends with breaks | rfl
      · have cut := carried_line_append_break noFeed breaks []
        rw [List.append_nil, carried_bare bare noFeed] at cut
        exact cut
      · rw [List.append_nil, carried_bare bare noFeed]
    rw [carried_append_break breaks, nothing, List.append_nil]
  | @blanks before lead line trail newLead newTrail after starts ends noFeed gap gapBehind newGap
      newGapBehind =>
    have plain {lead trail : List Char} (gap : LineGap lead) (gapBehind : LineGap trail) :
        '\n' ∉ lead ++ line ++ trail := by
      simp [gap.noFeed, noFeed, gapBehind.noFeed]
    have cleaned {lead trail : List Char} (gap : LineGap lead) (gapBehind : LineGap trail) :
        cleanLine (lead ++ line ++ trail) = cleanLine line := by
      refine cleanLine_append_tail gap.blank (.blank gapBehind.blank) ?_ line
      exact fun first => not_mem_of_allBlank gapBehind.blank rfl (List.mem_of_mem_head? first)
    exact carried_replace starts ends (plain newGap newGapBehind) (plain gap gapBehind)
      ((cleaned newGap newGapBehind).trans (cleaned gap gapBehind).symm)
  | @comment before line text after starts ends noFeed noFeedBehind =>
    have ending : Tail ([' '] ++ '#' :: text) := .comment (by decide) text
    exact carried_replace starts ends (by simp [noFeed, noFeedBehind]) noFeed
      (cleanLine_append_tail allBlank_nil ending (by simp) line)

/-- The first line of a text, without returns at its end. -/
def firstLine (text : List Char) : List Char :=
  dropEndWhile (· == '\r') (text.takeWhile (· ≠ '\n'))

/-- A text is its front and the returns at its end. -/
theorem exists_dropEndWhile_append (text : List Char) :
    ∃ returns, (∀ c ∈ returns, c = '\r') ∧ text = dropEndWhile (· == '\r') text ++ returns := by
  refine ⟨(text.reverse.takeWhile (· == '\r')).reverse, ?_, ?_⟩
  · intro c member
    have taken := List.mem_takeWhile_imp (List.mem_reverse.1 member)
    simpa using taken
  · rw [dropEndWhile, ← List.reverse_append, List.takeWhile_append_dropWhile, List.reverse_reverse]

/-- Characters that a part does not have do not complete it. -/
theorem holds_append_of_foreign {part behind : List Char} (nonempty : part ≠ [])
    (foreign : ∀ c ∈ behind, c ∉ part) (text : List Char) :
    holds part (text ++ behind) = holds part text := by
  rw [Bool.eq_iff_iff, holds_iff, holds_iff]
  refine ⟨?_, fun within => within.trans (List.prefix_append text behind).isInfix⟩
  rintro ⟨front, back, whole⟩
  rcases List.append_eq_append_iff.1 whole with ⟨rest, rfl, -⟩ | ⟨seam, own, rfl⟩
  · exact ⟨front, rest, rfl⟩
  · rcases List.eq_nil_or_concat' seam with rfl | ⟨lead, c, rfl⟩
    · rw [List.append_nil] at own
      exact ⟨front, [], by rw [List.append_nil, own]⟩
    · have last := congrArg List.getLast? own
      rw [List.getLast?_append_of_ne_nil _ nonempty, ← List.append_assoc,
        List.getLast?_concat] at last
      exact absurd (List.mem_of_getLast? last) (foreign c (by simp))

/-- Returns behind a line do not change the dialect that it tells. -/
theorem ofFirstLine_append_returns {returns : List Char} (only : ∀ c ∈ returns, c = '\r')
    (line : List Char) : Dialect.ofFirstLine (line ++ returns) = Dialect.ofFirstLine line := by
  have foreign {part : List Char} (without : '\r' ∉ part) :
      ∀ c ∈ lowerAscii returns, c ∉ part := by
    intro c member
    obtain ⟨d, listed, rfl⟩ := List.mem_map.1 member
    rw [only d listed]
    exact without
  have lower : lowerAscii (line ++ returns) = lowerAscii line ++ lowerAscii returns :=
    List.map_append
  rw [Dialect.ofFirstLine, lower, holds_append_of_foreign (by decide) (foreign (by decide)),
    holds_append_of_foreign (by decide) (foreign (by decide)), Dialect.ofFirstLine]

/-- The first line is what stands before the first line feed. -/
theorem headD_feedLines (text : List Char) :
    (feedLines text).headD [] = text.takeWhile (· ≠ '\n') := by
  induction text with
  | nil => rfl
  | cons c rest ih =>
    rw [feedLines]
    split
    · rename_i feed
      simp [feed]
    · rename_i solid
      rw [List.takeWhile_cons_of_pos (by simpa using solid), ← ih]
      cases feedLines rest <;> rfl

/-- The dialect of a source is that of its first line, without returns at its end. -/
theorem dialectOf_eq (source : String) :
    FunctionTable.dialectOf source = Dialect.ofFirstLine (firstLine source.toList) := by
  have raw : Dialect.ofFirstLine ((Text.lines source).headD []) =
      Dialect.ofFirstLine (source.toList.takeWhile (· ≠ '\n')) := by
    rw [← headD_feedLines, Text.lines]
    have shown := forall₂_shown source.toList
    generalize feedLines source.toList = raws at shown ⊢
    generalize feedLines (unifyBreaks source.toList) = lines at shown ⊢
    cases shown with
    | nil => rfl
    | @cons line own _ _ here _ =>
      rcases here with rfl | rfl
      · rfl
      · exact (ofFirstLine_append_returns (by simp) own).symm
  obtain ⟨returns, only, whole⟩ :=
    exists_dropEndWhile_append (source.toList.takeWhile (· ≠ '\n'))
  rw [FunctionTable.dialectOf, raw, whole, ofFirstLine_append_returns only, firstLine]

/-- **No reader sees the layout of a source.** Whatever line of blanks or of a comment is put into a
source, whatever blanks at the start and the end of a line are changed, and whatever comment is put
behind a line, the readers of enumerant specs and of type maps give the same tables as before. So
does the reader of function specs with any type map, where the first line of the source is still
there and is still the first one; a source without lines has none to keep. -/
theorem layout_change_keeps_tables {source changed : String}
    (change : LayoutChange source.toList changed.toList) :
    EnumTable.parse changed = EnumTable.parse source ∧
    TypeMap.parse changed = TypeMap.parse source ∧
    (source = "" ∨ firstLine changed.toList = firstLine source.toList →
      ∀ types, FunctionTable.parse changed types = FunctionTable.parse source types) := by
  have same : cleanedLines changed = cleanedLines source := by
    rw [cleanedLines_eq_carried, cleanedLines_eq_carried, change.carried_eq]
  refine ⟨EnumTable.parse_congr same, TypeMap.parse_congr same, ?_⟩
  rintro (rfl | first) types
  · have nothing : cleanedLines "" = [] := rfl
    rw [FunctionTable.parse_of_nothing nothing,
      FunctionTable.parse_of_nothing (same.trans nothing)]
  · have dialect : FunctionTable.dialectOf changed = FunctionTable.dialectOf source := by
      rw [dialectOf_eq, dialectOf_eq, first]
    exact FunctionTable.parse_congr same dialect types

/-- A source with an escaped hash, and with a block comment that is left open. -/
def openedSource : String := "# glx\nCopy(a)\n\tcategory ARB \\# /* open\n\treturn Flag\n"

/-- The comment that is put behind the third line would close the block, and ends in a backslash. -/
def remarkedSource : String :=
  "# glx\nCopy(a)\n\tcategory ARB \\# /* open # */ \\\n\treturn Flag\n"

/-- A comment behind an opened block leaves the tables as they are. -/
theorem layout_change_keeps_opened_block :
    LayoutChange openedSource.toList remarkedSource.toList ∧
    firstLine remarkedSource.toList = firstLine openedSource.toList ∧
    (FunctionTable.parse remarkedSource .empty).keys = ["GLX_ARB"] ∧
    ∀ types, FunctionTable.parse remarkedSource types = FunctionTable.parse openedSource types := by
  have change : LayoutChange openedSource.toList remarkedSource.toList := by
    have before : openedSource.toList = "# glx\nCopy(a)\n".toList ++
        "\tcategory ARB \\# /* open".toList ++ "\n\treturn Flag\n".toList := by
      decide +kernel
    have behind : remarkedSource.toList = "# glx\nCopy(a)\n".toList ++
        ("\tcategory ARB \\# /* open".toList ++ ' ' :: '#' :: " */ \\".toList) ++
          "\n\treturn Flag\n".toList := by
      decide +kernel
    rw [before, behind]
    exact .comment (by decide) (.feed _) (by decide) (by decide)
  have first : firstLine remarkedSource.toList = firstLine openedSource.toList := by
    decide +kernel
  exact ⟨change, first, by decide +kernel, (layout_change_keeps_tables change).2.2 (.inr first)⟩

end Spec

end ExtensionLoader
