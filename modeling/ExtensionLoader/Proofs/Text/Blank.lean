import ExtensionLoader.Proofs.Text.Split
import ExtensionLoader.Text.Blank
import ExtensionLoader.Text.Column

/-! # Trimming and tokens

Blanks around a text are lost when it is trimmed (`Text.trim_append`), and blanks between two
texts keep their tokens apart (`Text.tokens_append`).
-/

namespace ExtensionLoader.Text

/-- A text of blanks only, which may be empty. -/
def AllBlank (text : List Char) : Prop := ∀ c ∈ text, isBlank c = true

instance (text : List Char) : Decidable (AllBlank text) :=
  decidable_of_iff (text.all isBlank = true) List.all_eq_true

variable {gap text : List Char}

theorem allBlank_nil : AllBlank [] := fun _ member => nomatch member

/-- Two blank texts, one after the other, are blank. -/
theorem AllBlank.append {first second : List Char} (blankFirst : AllBlank first)
    (blankSecond : AllBlank second) : AllBlank (first ++ second) := by
  intro c member
  rcases List.mem_append.1 member with member | member
  · exact blankFirst c member
  · exact blankSecond c member

theorem AllBlank.reverse (blank : AllBlank text) : AllBlank text.reverse :=
  fun c member => blank c (List.mem_reverse.1 member)

/-- A blank text holds no solid character. -/
theorem not_mem_of_allBlank {gap : List Char} (blank : AllBlank gap) {c : Char}
    (solid : isBlank c = false) : c ∉ gap := by
  intro member
  rw [blank c member] at solid
  cases solid

/-- Blank and solid characters differ. -/
theorem ne_of_isBlank {c d : Char} (blank : isBlank c = true) (solid : isBlank d = false) :
    c ≠ d := by
  rintro rfl
  rw [blank] at solid
  cases solid

/-- What starts with a gap starts with a blank. -/
theorem isBlank_of_mem_head? (blank : AllBlank gap) (apart : gap ≠ []) {rest : List Char}
    {c : Char} (head : c ∈ (gap ++ rest).head?) : isBlank c = true := by
  rw [List.head?_append_of_ne_nil _ apart] at head
  exact blank c (List.mem_of_mem_head? head)

/-- Spaces are blank. -/
theorem allBlank_spaces (count : Nat) : AllBlank (spaces count).toList := by
  intro c member
  rw [spaces, String.toList_ofList] at member
  rw [List.eq_of_mem_replicate member]
  rfl

/-- Padding puts nothing but spaces behind a text. -/
theorem not_feed_mem_padRight (width : Nat) (text : String) :
    '\n' ∈ (padRight width text).toList ↔ '\n' ∈ text.toList := by
  simp [padRight, spaces]

/-- A text is padded with blanks. -/
theorem exists_padRight_eq (width : Nat) (text : String) :
    ∃ gap, AllBlank gap ∧ (padRight width text).toList = text.toList ++ gap :=
  ⟨_, allBlank_spaces _, String.toList_append⟩

theorem trimStart_append (blank : AllBlank gap) (text : List Char) :
    trimStart (gap ++ text) = trimStart text :=
  List.dropWhile_append_of_pos blank

/-- A text that starts solid has nothing to trim there. -/
theorem trimStart_eq_self (starts : ∀ c ∈ text.head?, isBlank c = false) :
    trimStart text = text := by
  cases text with
  | nil => rfl
  | cons c rest => exact List.dropWhile_cons_of_neg (by simp [starts c rfl])

/-- Behind a gap a text is told, however wide the gap is. -/
theorem gap_append_inj {gap other text rest : List Char} (blank : AllBlank gap)
    (blankAgain : AllBlank other) (starts : ∀ c ∈ text.head?, isBlank c = false)
    (startsAgain : ∀ c ∈ rest.head?, isBlank c = false) (same : gap ++ text = other ++ rest) :
    text = rest := by
  have trimmed := congrArg trimStart same
  rwa [trimStart_append blank, trimStart_append blankAgain, trimStart_eq_self starts,
    trimStart_eq_self startsAgain] at trimmed

theorem trimStart_eq_nil (blank : AllBlank text) : trimStart text = [] :=
  List.dropWhile_eq_nil_iff.2 blank

/-- A gap at the end is trimmed. -/
theorem trimEnd_append_gap (text : List Char) (blank : AllBlank gap) :
    trimEnd (text ++ gap) = trimEnd text := by
  rw [trimEnd, dropEndWhile, List.reverse_append, List.dropWhile_append_of_pos blank.reverse]
  rfl

/-- What stands before a character that is not blank is kept. -/
theorem trimEnd_append_of_solid {lead : List Char} (nonempty : lead ≠ [])
    (ends : ∀ c ∈ lead.getLast?, isBlank c = false) (text : List Char) :
    trimEnd (lead ++ text) = lead ++ trimEnd text := by
  rcases List.eq_nil_or_concat' lead with rfl | ⟨front, c, rfl⟩
  · exact absurd rfl nonempty
  · have solid : isBlank c = false := ends c (by simp)
    have stops : (c :: front.reverse).dropWhile isBlank = c :: front.reverse :=
      List.dropWhile_cons_of_neg (by simp [solid])
    rw [trimEnd, dropEndWhile, List.reverse_append, List.reverse_append, List.reverse_singleton,
      List.singleton_append, List.dropWhile_append, stops]
    split
    · rename_i nothing
      simp [trimEnd, dropEndWhile, List.isEmpty_iff.1 nothing]
    · simp [trimEnd, dropEndWhile]

/-- A text that ends solid has nothing to trim there. -/
theorem trimEnd_eq_self (ends : ∀ c ∈ text.getLast?, isBlank c = false) :
    trimEnd text = text := by
  by_cases nonempty : text = []
  · rw [nonempty]
    rfl
  · have kept := trimEnd_append_of_solid nonempty ends []
    rwa [List.append_nil, show trimEnd [] = [] from rfl, List.append_nil] at kept

/-- Blanks around a text are lost when it is trimmed. -/
theorem trim_append {indent : List Char} (blankBefore : AllBlank indent) (text : List Char)
    (blankBehind : AllBlank gap) : trim (indent ++ text ++ gap) = trim text := by
  rw [trim, List.append_assoc, trimStart_append blankBefore, trim, trimStart,
    List.dropWhile_append]
  split
  · rename_i nothing
    have empty : trimStart text = [] := List.isEmpty_iff.1 nothing
    rw [empty]
    exact congrArg trimEnd (trimStart_eq_nil blankBehind)
  · exact trimEnd_append_gap _ blankBehind

theorem trim_eq_self (starts : ∀ c ∈ text.head?, isBlank c = false)
    (ends : ∀ c ∈ text.getLast?, isBlank c = false) : trim text = text := by
  rw [trim, trimStart_eq_self starts, trimEnd_eq_self ends]

/-- A text that starts solid is trimmed at its end alone. -/
theorem trim_cons_of_solid {c : Char} (solid : isBlank c = false) (text : List Char) :
    trim (c :: text) = c :: trimEnd text := by
  rw [trim, trimStart_eq_self (by simp [solid])]
  exact trimEnd_append_of_solid (List.cons_ne_nil c []) (by simp [solid]) text

/-- A blank separates the tokens on both sides. -/
theorem tokens_append_cons {c : Char} (blank : isBlank c = true) (front behind : List Char) :
    tokens (front ++ c :: behind) = tokens front ++ tokens behind := by
  rw [tokens, pieces_append_cons blank, List.filter_append]
  rfl

/-- A text without blanks is one token. -/
theorem tokens_of_solid (nonempty : text ≠ []) (solid : ∀ c ∈ text, isBlank c = false) :
    tokens text = [text] := by
  rw [tokens, pieces_eq_singleton solid]
  simp [nonempty]

/-- A character that is not blank starts the first token. -/
theorem tokens_cons_of_solid {c : Char} (solid : isBlank c = false) (text : List Char) :
    ∃ token later, tokens (c :: text) = (c :: token) :: later := by
  rw [tokens, pieces, if_neg (by simp [solid])]
  split
  · exact ⟨[], [], rfl⟩
  · rename_i piece later _
    exact ⟨piece, _, List.filter_cons_of_pos rfl⟩

/-- The tokens of a text are parts of it. -/
theorem mem_of_mem_tokens {token : List Char} {c : Char} (member : token ∈ tokens text)
    (inside : c ∈ token) : c ∈ text :=
  mem_of_mem_pieces (List.mem_filter.1 member).1 inside

/-- A gap at the start adds no token. -/
theorem tokens_gap_append (blank : AllBlank gap) (text : List Char) :
    tokens (gap ++ text) = tokens text := by
  induction gap with
  | nil => rfl
  | cons c rest ih =>
    have first : isBlank c = true := blank c List.mem_cons_self
    have others : AllBlank rest := fun d member => blank d (List.mem_cons_of_mem c member)
    exact (tokens_append_cons first [] (rest ++ text)).trans (ih others)

/-- Blanks between two texts keep their tokens apart. -/
theorem tokens_append (blank : AllBlank gap) (nonempty : gap ≠ []) (front behind : List Char) :
    tokens (front ++ gap ++ behind) = tokens front ++ tokens behind := by
  obtain ⟨c, rest, rfl⟩ := List.exists_cons_of_ne_nil nonempty
  have first : isBlank c = true := blank c List.mem_cons_self
  have others : AllBlank rest := fun d member => blank d (List.mem_cons_of_mem c member)
  rw [List.append_assoc, List.cons_append, tokens_append_cons first, tokens_gap_append others]

end ExtensionLoader.Text
