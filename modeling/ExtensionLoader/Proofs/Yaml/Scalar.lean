import ExtensionLoader.Proofs.Yaml.Character
import ExtensionLoader.Yaml.Scalar.Written
import ExtensionLoader.Yaml.Token.Quoted

/-! # Scalars on one line

A scalar of printable ASCII characters is written on one line, without quotes or in single quotes
(`Yaml.Legible`), in the style that is chosen for its text (`Yaml.legible_styleFor`). The readers of
both styles give the text back, whatever line comes next (`Yaml.readPlain_written`,
`Yaml.readSingleQuoted_written`).
-/

namespace ExtensionLoader.Yaml

/-- A text that is written on one line in some style. -/
inductive Legible : ScalarStyle → String → Prop
  | plain {text : String} (printable : PrintableAscii text.toList) (nonempty : text.toList ≠ [])
    (allowed : allowsPlain text.toList = true) : Legible .plain text
  | singleQuoted {text : String} (printable : PrintableAscii text.toList) :
    Legible .singleQuoted text

/-- Without one of two kinds there are no neighbours of those kinds. -/
theorem hasNeighbours_eq_false {first second : Char → Bool} {text : List Char}
    (none : (∀ c ∈ text, first c = false) ∨ ∀ c ∈ text, second c = false) :
    hasNeighbours first second text = false := by
  induction text with
  | nil => rfl
  | cons a rest ih =>
    cases rest with
    | nil => rfl
    | cons b rest =>
      have later := ih (none.imp (fun all c member => all c (List.mem_cons_of_mem a member))
        fun all c member => all c (List.mem_cons_of_mem a member))
      have here : (first a && second b) = false := by
        rcases none with all | all
        · rw [all a List.mem_cons_self, Bool.false_and]
        · rw [all b (List.mem_cons_of_mem a List.mem_cons_self), Bool.and_false]
      rw [hasNeighbours, here, later]
      rfl

theorem allowsSingleQuoted_of_printable {text : List Char} (printable : PrintableAscii text) :
    allowsSingleQuoted text = true := by
  have noBreak : ∀ c ∈ text, isAnyBreak c = false := fun c member =>
    (printable c member).isAnyBreak_eq_false
  have shown : text.all isPrintable = true :=
    List.all_eq_true.2 fun c member => (printable c member).isPrintable_eq_true
  rw [allowsSingleQuoted, isRegular, shown, hasNeighbours_eq_false (.inr noBreak),
    hasNeighbours_eq_false (.inl noBreak)]
  rfl

/-- A text of printable ASCII characters is written on one line. -/
theorem legible_styleFor {text : String} (printable : PrintableAscii text.toList) :
    Legible (styleFor text) text := by
  have noFeed : text.toList.contains '\n' = false := by
    rw [← Bool.not_eq_true, List.contains_iff_mem]
    exact fun member => absurd (printable _ member) (by decide)
  rw [styleFor]
  simp only [noFeed, Bool.false_eq_true, if_false, allowsSingleQuoted_of_printable printable,
    if_true]
  split
  · rename_i both
    rw [Bool.and_eq_true, Bool.not_eq_true'] at both
    refine .plain printable ?_ both.2
    intro empty
    obtain rfl : text = "" := String.toList_eq_nil_iff.1 empty
    exact absurd both.1 (by decide)
  · exact .singleQuoted printable

/-- How a character is written between single quotes. -/
theorem singleQuotedBody_cons {c : Char} (printable : IsPrintableAscii c) (rest : List Char) :
    singleQuotedBody false (c :: rest) =
      (if c = '\'' then ['\'', '\''] else [c]) ++ singleQuotedBody false rest := by
  rw [singleQuotedBody, printable.isAnyBreak_eq_false]
  by_cases quote : c = '\'' <;> simp [quote]

/-- A printable text is printable in quotes. -/
theorem printableAscii_singleQuotedBody {text : List Char} (printable : PrintableAscii text) :
    PrintableAscii (singleQuotedBody false text) := by
  induction text with
  | nil => exact fun c member => nomatch member
  | cons c rest ih =>
    rw [singleQuotedBody_cons printable.head]
    intro d member
    rcases List.mem_append.1 member with own | later
    · split at own
      · rw [show d = '\'' by simpa using own]
        decide
      · rw [List.mem_singleton.1 own]
        exact printable.head
    · exact ih printable.tail d later

section Quoted

variable (spaces rest : List Char) (line column : Nat)

theorem readSingleQuoted_space :
    readSingleQuoted ⟨spaces, [], false⟩ (placeAt line (column + 1)) (' ' :: rest) =
      readSingleQuoted ⟨spaces ++ [' '], [], false⟩ (placeAt line (column + 2)) rest := by
  rw [readSingleQuoted.eq_def]
  simp only [isDocumentMark_behind]
  rfl

/-- A quote that is written twice. -/
theorem readSingleQuoted_mark :
    readSingleQuoted ⟨spaces, [], false⟩ (placeAt line (column + 1)) ('\'' :: '\'' :: rest) =
      (readSingleQuoted {} (placeAt line (column + 3)) rest).map
        (Read.push (spaces ++ ['\''])) := by
  rw [readSingleQuoted, isDocumentMark_behind]
  rfl

theorem readSingleQuoted_char {c : Char} (printable : IsPrintableAscii c) (solid : c ≠ ' ')
    (other : c ≠ '\'') :
    readSingleQuoted ⟨spaces, [], false⟩ (placeAt line (column + 1)) (c :: rest) =
      (readSingleQuoted {} (placeAt line (column + 2)) rest).map (Read.push (spaces ++ [c])) := by
  rw [readSingleQuoted.eq_def]
  simp only [isDocumentMark_behind, printable.isSpace_eq, printable.isBreak_eq_false, solid, other,
    past_of_printable printable, beq_iff_eq, Bool.false_eq_true, if_false]
  rfl

/-- A quote that no other follows ends the scalar. -/
theorem readSingleQuoted_end (ends : rest.head? ≠ some '\'') :
    readSingleQuoted ⟨spaces, [], false⟩ (placeAt line (column + 1)) ('\'' :: rest) =
      .ok ⟨spaces, placeAt line (column + 2), rest⟩ := by
  have quote : IsPrintableAscii '\'' := by decide
  rw [readSingleQuoted.eq_def]
  simp only [isDocumentMark_behind, quote.isSpace_eq, quote.isBreak_eq_false,
    past_of_printable quote, Char.reduceBEq, Bool.false_eq_true, if_false, if_true]
  split
  · exact absurd rfl ends
  · rfl

end Quoted

/-- What is read up to the closing quote, behind spaces that were read before. -/
theorem readSingleQuoted_body {text rest : List Char} (printable : PrintableAscii text)
    (ends : rest.head? ≠ some '\'') (spaces : List Char) (line column : Nat) :
    readSingleQuoted ⟨spaces, [], false⟩ (placeAt line (column + 1))
        (singleQuotedBody false text ++ '\'' :: rest) =
      .ok ⟨spaces ++ text,
        placeAt line (column + (singleQuotedBody false text).length + 2), rest⟩ := by
  induction text generalizing spaces column with
  | nil =>
    rw [List.append_nil]
    exact readSingleQuoted_end spaces rest line column ends
  | cons c text ih =>
    rw [singleQuotedBody_cons printable.head]
    by_cases quote : c = '\''
    · subst quote
      have behind : column + (2 + (singleQuotedBody false text).length) + 2 =
          column + 2 + (singleQuotedBody false text).length + 2 := by omega
      rw [if_pos rfl, List.length_append, List.length_cons, List.length_singleton, behind]
      change readSingleQuoted _ _
        ('\'' :: '\'' :: (singleQuotedBody false text ++ '\'' :: rest)) = _
      rw [readSingleQuoted_mark, ih printable.tail [] (column + 2), List.append_cons spaces _ text]
      rfl
    · have behind : column + (1 + (singleQuotedBody false text).length) + 2 =
          column + 1 + (singleQuotedBody false text).length + 2 := by omega
      rw [if_neg quote, List.length_append, List.length_singleton, behind]
      change readSingleQuoted _ _ (c :: (singleQuotedBody false text ++ '\'' :: rest)) = _
      by_cases space : c = ' '
      · subst space
        rw [readSingleQuoted_space, ih printable.tail (spaces ++ [' ']) (column + 1),
          List.append_cons spaces _ text]
      · rw [readSingleQuoted_char _ _ _ _ printable.head space quote,
          ih printable.tail [] (column + 1), List.append_cons spaces _ text]
        rfl

/-- What is written without quotes, as the reader sees it. -/
structure IsPlain (text : List Char) : Prop where
  printable : PrintableAscii text
  starts : text.head? ≠ some ' '
  ends : text.getLast? ≠ some ' '
  noDocumentMark : startsLikeDocumentMark text = false
  noMark : startsWithMark text = false
  noInnerMark : hasInnerMark text = false

/-- What the printer allows plain the reader reads plain. -/
theorem isPlain_of_allowsPlain {text : List Char} (printable : PrintableAscii text)
    (allowed : allowsPlain text = true) : IsPlain text := by
  simp only [allowsPlain, Bool.and_eq_true, Bool.not_eq_true'] at allowed
  obtain ⟨⟨⟨⟨⟨-, starts⟩, ends⟩, noDocumentMark⟩, noMark⟩, noInnerMark⟩ := allowed
  refine ⟨printable, ?_, ?_, noDocumentMark, noMark, noInnerMark⟩
  · intro first
    rw [first] at starts
    cases starts
  · intro last
    rw [last] at ends
    cases ends

/-- What ends a word in block style ends it in every style. -/
theorem endsAnyWord_of_endsWord {next : Option Char} (ends : endsWord next = true) :
    endsAnyWord next = true := by
  cases next with
  | none => rfl
  | some c =>
    simp only [endsWord, Bool.or_eq_true] at ends
    rcases ends with space | lineBreak
    · simp [endsAnyWord, space]
    · simp [endsAnyWord, isAnyBreak, lineBreak]

section Plain

variable {indent line column : Nat}

theorem readPlain_space (spaces rest : List Char) :
    readPlain false indent ⟨spaces, [], false⟩ (placeAt line column) (' ' :: rest) =
      readPlain false indent ⟨spaces ++ [' '], [], false⟩ (placeAt line (column + 1)) rest := by
  rw [readPlain]
  rfl

/-- A character that does not end a plain scalar. -/
theorem readPlain_char {c : Char} (printable : IsPrintableAscii c) (solid : c ≠ ' ')
    {spaces rest text after : List Char} {wrapped : Bool} {place : Place}
    (goesOn : spaces ≠ [] → indent ≤ column ∧ column ≠ 0 ∧ c ≠ '#')
    (noEnd : c = ':' → endsWord rest.head? = false)
    (later : readPlain false indent {} (placeAt line (column + 1)) rest =
      .ok ⟨(text, wrapped), place, after⟩) :
    readPlain false indent ⟨spaces, [], false⟩ (placeAt line column) (c :: rest) =
      .ok ⟨(spaces ++ c :: text, wrapped), place, after⟩ := by
  have stays : (!(⟨spaces, [], false⟩ : Gap).isEmpty &&
      endsBehindGap false indent (placeAt line column) (c :: rest)) = false := by
    by_cases nothing : spaces = []
    · rw [nothing]
      rfl
    · obtain ⟨indented, behind, noHash⟩ := goesOn nothing
      obtain ⟨column, rfl⟩ := Nat.exists_eq_succ_of_ne_zero behind
      have inside : decide ((placeAt line (column + 1)).column < indent) = false :=
        decide_eq_false (Nat.not_lt.2 indented)
      rw [endsBehindGap, isDocumentMark_behind, inside]
      simp [noHash]
  have noColon : endsPlain false c rest.head? = false := by
    by_cases colon : c = ':'
    · simp [endsPlain, noEnd colon]
    · simp [endsPlain, colon]
  rw [readPlain, printable.isSpace_eq, printable.isBreak_eq_false, stays, noColon,
    past_of_printable printable, later]
  simp only [solid, beq_iff_eq, isMisplacedColon, Bool.false_and, Bool.false_eq_true, if_false]
  rfl

theorem hasInnerMark_cons {a b : Char} {rest : List Char}
    (none : hasInnerMark (a :: b :: rest) = false) :
    (b = ':' → endsAnyWord rest.head? = false) ∧ (b = '#' → endsAnyWord (some a) = false) ∧
      hasInnerMark (b :: rest) = false := by
  simp only [hasInnerMark, Bool.or_eq_false_iff, Bool.and_eq_false_iff, beq_eq_false_iff_ne] at none
  obtain ⟨⟨colon, hash⟩, later⟩ := none
  exact ⟨colon.resolve_left ∘ not_not_intro, hash.resolve_left ∘ not_not_intro, later⟩

/-- A colon that does not end a word of a text does not end one when more stands behind. -/
theorem endsWord_append_eq_false {text : List Char} (inside : endsAnyWord text.head? = false)
    (rest : List Char) : endsWord (text ++ rest).head? = false := by
  cases text with
  | nil => cases inside
  | cons c text =>
    rw [← Bool.not_eq_true]
    intro ends
    rw [show (c :: text).head? = (c :: text ++ rest).head? from rfl,
      endsAnyWord_of_endsWord ends] at inside
    cases inside

variable {rest after : List Char} {wrapped : Bool} {place : Place}

/-- What is read behind the first character of a plain scalar. The character before is known, and so
are the spaces that end with it. -/
theorem readPlain_behind {text : List Char} (printable : PrintableAscii text) {before : Char}
    {spaces : List Char} (gap : spaces ≠ [] → before = ' ') (behind : column ≠ 0)
    (indented : indent ≤ column) (noInnerMark : hasInnerMark (before :: text) = false)
    (ends : (before :: text).getLast? ≠ some ' ')
    (later : readPlain false indent {} (placeAt line (column + text.length)) rest =
      .ok ⟨([], wrapped), place, after⟩) :
    readPlain false indent ⟨spaces, [], false⟩ (placeAt line column) (text ++ rest) =
      .ok ⟨(spaces ++ text, wrapped), place, after⟩ := by
  induction text generalizing before spaces column with
  | nil =>
    obtain rfl : spaces = [] :=
      Classical.byContradiction fun spaced => ends (congrArg some (gap spaced))
    exact later
  | cons c text ih =>
    obtain ⟨colon, hash, noMark⟩ := hasInnerMark_cons noInnerMark
    have lastOf : (c :: text).getLast? ≠ some ' ' := by
      rwa [List.getLast?_cons_cons] at ends
    have further : column + (c :: text).length = column + 1 + text.length := by
      rw [List.length_cons]
      omega
    rw [further] at later
    by_cases space : c = ' '
    · subst space
      rw [List.cons_append, readPlain_space, List.append_cons spaces _ text]
      exact ih printable.tail (fun _ => rfl) (Nat.succ_ne_zero column) (Nat.le_succ_of_le indented)
        noMark lastOf later
    · refine readPlain_char printable.head space (fun spaced => ⟨indented, behind, ?_⟩)
        (fun own => endsWord_append_eq_false (colon own) rest) ?_
      · intro own
        have apart := hash own
        rw [gap spaced] at apart
        cases apart
      · exact ih printable.tail (absurd rfl) (Nat.succ_ne_zero column)
          (Nat.le_succ_of_le indented) noMark lastOf later

/-- A plain scalar is read as it is written, up to where it ends. -/
theorem readPlain_append {text : List Char} (plain : IsPlain text) (nonempty : text ≠ [])
    (indented : indent ≤ column + 1)
    (later : readPlain false indent {} (placeAt line (column + text.length)) rest =
      .ok ⟨([], wrapped), place, after⟩) :
    readPlain false indent {} (placeAt line column) (text ++ rest) =
      .ok ⟨(text, wrapped), place, after⟩ := by
  obtain ⟨c, text, rfl⟩ := List.exists_cons_of_ne_nil nonempty
  have solid : c ≠ ' ' := fun space => plain.starts (congrArg some space)
  have colon : c = ':' → endsAnyWord text.head? = false := by
    rintro rfl
    exact plain.noMark
  have further : column + (c :: text).length = column + 1 + text.length := by
    rw [List.length_cons]
    omega
  rw [further] at later
  exact readPlain_char plain.printable.head solid (absurd rfl)
    (fun own => endsWord_append_eq_false (colon own) rest)
    (readPlain_behind plain.printable.tail (absurd rfl) (Nat.succ_ne_zero column) indented
      plain.noInnerMark plain.ends later)

/-- A plain scalar ends before the colon of a key. -/
theorem readPlain_colon (place : Place) (ends : endsWord rest.head? = true) :
    readPlain false indent {} place (':' :: rest) = .ok ⟨([], false), place, ':' :: rest⟩ := by
  rw [readPlain, endsPlain, ends]
  rfl

end Plain

/-- A text that starts with something to read, or nothing at all. -/
def StartsSolid (text : List Char) : Prop :=
  ∀ c ∈ text.head?, IsPrintableAscii c ∧ c ≠ ' ' ∧ c ≠ '#'

/-- A plain scalar inside a collection ends before a line that is not indented. -/
theorem readPlain_feed {rest : List Char} (starts : StartsSolid rest) (line column : Nat) :
    readPlain false 1 {} (placeAt line column) ('\n' :: rest) =
      .ok ⟨([], true), placeAt (line + 1) 0, rest⟩ := by
  rw [readPlain]
  cases rest with
  | nil => rfl
  | cons c rest =>
    obtain ⟨printable, solid, -⟩ := starts c rfl
    change readPlain false 1 ⟨[], ['\n'], false⟩ (placeAt (line + 1) 0) (c :: rest) = _
    rw [readPlain, printable.isSpace_eq, printable.isBreak_eq_false]
    simp only [solid, beq_iff_eq, Bool.false_eq_true, if_false]
    rfl

end ExtensionLoader.Yaml
