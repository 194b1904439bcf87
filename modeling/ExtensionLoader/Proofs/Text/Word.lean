import ExtensionLoader.Proofs.Text.Blank
import ExtensionLoader.Text.UpperCase
import ExtensionLoader.Text.Word

/-! # Words and the blanks between them

No character of a word is blank, so blanks end a word (`Text.splitWord_word_append`). A text
contains a word exactly if the word stands in it between characters of other kinds
(`Text.containsWord_iff`); blanks around the text make no difference
(`Text.containsWord_trimEnd`).
-/

namespace ExtensionLoader.Text

/-- Word characters are ASCII characters from the digits on. -/
theorem toNat_of_isWordChar {c : Char} (inWord : isWordChar c = true) :
    0x30 ≤ c.toNat ∧ c.toNat ≤ 0x7A := by
  unfold isWordChar Char.isAlphanum Char.isAlpha Char.isUpper Char.isLower Char.isDigit at inWord
  simp only [Bool.or_eq_true, Bool.and_eq_true, decide_eq_true_eq, beq_iff_eq,
    UInt32.le_iff_toNat_le, ge_iff_le] at inWord
  rcases inWord with ((upper | lower) | digit) | rfl
  · exact ⟨le_trans (by decide) upper.1, le_trans upper.2 (by decide)⟩
  · exact ⟨le_trans (by decide) lower.1, le_trans lower.2 (by decide)⟩
  · exact ⟨le_trans (by decide) digit.1, le_trans digit.2 (by decide)⟩
  · decide

/-- A character of a word is not blank. -/
theorem isBlank_of_isWordChar {c : Char} (inWord : isWordChar c = true) : isBlank c = false := by
  have range := toNat_of_isWordChar inWord
  simp only [isBlank, Bool.or_eq_false_iff, Bool.and_eq_false_iff, decide_eq_false_iff_not,
    beq_eq_false_iff_ne]
  omega

/-- A blank is in no word. -/
theorem isWordChar_of_isBlank {c : Char} (blank : isBlank c = true) :
    isWordChar c = false := by
  by_contra inWord
  rw [isBlank_of_isWordChar (by simpa using inWord)] at blank
  cases blank

theorem isWord_iff {word : List Char} :
    isWord word = true ↔ word ≠ [] ∧ ∀ c ∈ word, isWordChar c = true := by
  simp [isWord]

variable {word : List Char}

theorem isWord_ne_nil (isWord : isWord word = true) : word ≠ [] := (isWord_iff.1 isWord).1

/-- A text of word characters may stand behind a word. -/
theorem isWord_append {front back : List Char} (isWord : isWord front = true)
    (inWord : ∀ c ∈ back, isWordChar c = true) : Text.isWord (front ++ back) = true := by
  obtain ⟨nonempty, inFront⟩ := isWord_iff.1 isWord
  refine isWord_iff.2 ⟨List.append_ne_nil_of_left_ne_nil nonempty back, ?_⟩
  intro c member
  rcases List.mem_append.1 member with member | member
  · exact inFront c member
  · exact inWord c member

/-- What holds of all ASCII characters that are word characters holds of word characters. -/
theorem forall_wordChar {p : Char → Prop}
    (checked : ∀ code : Fin 128, isWordChar (Char.ofNat code) = true → p (Char.ofNat code))
    {c : Char} (inWord : isWordChar c = true) : p c := by
  have ascii : c.toNat < 128 := Nat.lt_of_le_of_lt (toNat_of_isWordChar inWord).2 (by decide)
  have own := checked ⟨c.toNat, ascii⟩
  rw [Char.ofNat_toNat] at own
  exact own inWord

/-- The upper-case form of a word character is one. -/
theorem isWordChar_toUpper {c : Char} (inWord : isWordChar c = true) :
    isWordChar c.toUpper = true :=
  @forall_wordChar (fun c => isWordChar c.toUpper = true) (by decide) c inWord

/-- No other word character becomes an underscore. -/
theorem toUpper_eq_underscore_iff {c : Char} (inWord : isWordChar c = true) :
    c.toUpper = '_' ↔ c = '_' :=
  @forall_wordChar (fun c => c.toUpper = '_' ↔ c = '_') (by decide) c inWord

/-- The upper-case form of word characters, one by one. -/
theorem upperCase_eq_map (inWord : ∀ c ∈ word, isWordChar c = true) :
    upperCase word = word.map Char.toUpper := by
  rw [upperCase, List.map_eq_flatMap]
  refine List.flatMap_congr fun c member => upperChar_of_ascii ?_
  exact Nat.lt_of_le_of_lt (toNat_of_isWordChar (inWord c member)).2 (by decide)

/-- A word in upper case is a word. -/
theorem isWord_upperCase (isWord : isWord word = true) :
    Text.isWord (upperCase word) = true := by
  obtain ⟨nonempty, inWord⟩ := isWord_iff.1 isWord
  rw [upperCase_eq_map inWord, isWord_iff]
  refine ⟨by simpa using nonempty, ?_⟩
  intro c member
  obtain ⟨d, listed, rfl⟩ := List.mem_map.1 member
  exact isWordChar_toUpper (inWord d listed)

theorem isBlank_of_mem_word (isWord : isWord word = true) : ∀ c ∈ word, isBlank c = false :=
  fun c member => isBlank_of_isWordChar ((isWord_iff.1 isWord).2 c member)

/-- A character that words do not have is not in a word. -/
theorem not_mem_word (isWord : isWord word = true) {c : Char} (foreign : isWordChar c = false) :
    c ∉ word := by
  intro member
  rw [(isWord_iff.1 isWord).2 c member] at foreign
  cases foreign

/-- A character that words do not have starts no word. -/
theorem isWord_cons_eq_false {c : Char} (foreign : isWordChar c = false) (rest : List Char) :
    isWord (c :: rest) = false := by
  by_contra known
  exact not_mem_word (Bool.not_eq_false _ ▸ known) foreign List.mem_cons_self

/-- A text of words and of blanks between them. -/
def Spaced (text : List Char) : Prop := ∀ c ∈ text, isWordChar c = true ∨ isBlank c = true

theorem spaced_of_isWord (isWord : isWord word = true) : Spaced word :=
  fun c member => .inl ((isWord_iff.1 isWord).2 c member)

theorem spaced_of_allBlank {gap : List Char} (blank : AllBlank gap) : Spaced gap :=
  fun c member => .inr (blank c member)

/-- Two spaced texts, one after the other, are spaced. -/
theorem Spaced.append {first second : List Char} (spaced : Spaced first)
    (spacedAgain : Spaced second) : Spaced (first ++ second) := by
  intro c member
  rcases List.mem_append.1 member with member | member
  · exact spaced c member
  · exact spacedAgain c member

/-- A spaced text holds no mark. -/
theorem not_mem_of_spaced {text : List Char} (spaced : Spaced text) {c : Char}
    (foreign : isWordChar c = false) (solid : isBlank c = false) : c ∉ text := by
  intro member
  rcases spaced c member with inWord | blank
  · rw [foreign] at inWord
    cases inWord
  · rw [solid] at blank
    cases blank

theorem tokens_word (isWord : isWord word = true) : tokens word = [word] :=
  tokens_of_solid (isWord_ne_nil isWord) (isBlank_of_mem_word isWord)

/-- What starts with a word starts solid. -/
theorem isBlank_head?_word_append (isWord : isWord word = true) (rest : List Char) :
    ∀ c ∈ (word ++ rest).head?, isBlank c = false := by
  intro c first
  rw [List.head?_append_of_ne_nil _ (isWord_ne_nil isWord)] at first
  exact isBlank_of_mem_word isWord c (List.mem_of_mem_head? first)

/-- What ends in a word ends solid. -/
theorem isBlank_getLast?_append_word (isWord : isWord word = true) (front : List Char) :
    ∀ c ∈ (front ++ word).getLast?, isBlank c = false := by
  intro c last
  rw [List.getLast?_append_of_ne_nil _ (isWord_ne_nil isWord)] at last
  exact isBlank_of_mem_word isWord c (List.mem_of_getLast? last)

theorem trim_word (isWord : isWord word = true) : trim word = word := by
  have starts := isBlank_head?_word_append isWord []
  rw [List.append_nil] at starts
  exact trim_eq_self starts (isBlank_getLast?_append_word isWord [])

/-- Up to its last word a text is not trimmed at the end. -/
theorem trim_append_word (isWord : isWord word = true) {front : List Char}
    (starts : ∀ c ∈ (front ++ word).head?, isBlank c = false) (text : List Char) :
    trim (front ++ word ++ text) = front ++ word ++ trimEnd text := by
  have nonempty : front ++ word ≠ [] :=
    List.append_ne_nil_of_right_ne_nil _ (isWord_ne_nil isWord)
  have started : trimStart (front ++ word ++ text) = front ++ word ++ text := by
    refine trimStart_eq_self fun c head => starts c ?_
    rwa [List.head?_append_of_ne_nil _ nonempty] at head
  rw [trim, started,
    trimEnd_append_of_solid nonempty (isBlank_getLast?_append_word isWord front)]

/-- The word a text starts with is split off up to its end. -/
theorem splitWord_word_append {rest : List Char} (inWord : ∀ c ∈ word, isWordChar c = true)
    (ends : ∀ c ∈ rest.head?, isWordChar c = false) :
    splitWord (word ++ rest) = (word, rest) := by
  have stops : rest.takeWhile isWordChar = [] ∧ rest.dropWhile isWordChar = rest := by
    cases rest with
    | nil => exact ⟨rfl, rfl⟩
    | cons c rest => simp [ends c rfl]
  rw [splitWord, List.takeWhile_append_of_pos inWord, List.dropWhile_append_of_pos inWord,
    stops.1, stops.2, List.append_nil]

/-- The leading word of a text, and what stands behind it, is told by the text. -/
theorem word_append_inj {other rest later : List Char} (isWord : isWord word = true)
    (isWordAgain : Text.isWord other = true) (ends : ∀ c ∈ rest.head?, isWordChar c = false)
    (endsAgain : ∀ c ∈ later.head?, isWordChar c = false) (same : word ++ rest = other ++ later) :
    word = other ∧ rest = later := by
  have cut := congrArg splitWord same
  rwa [splitWord_word_append (isWord_iff.1 isWord).2 ends,
    splitWord_word_append (isWord_iff.1 isWordAgain).2 endsAgain, Prod.mk.injEq] at cut

theorem isWord_of_splitWord {text : List Char} (nonempty : (splitWord text).1 ≠ []) :
    Text.isWord (splitWord text).1 = true :=
  isWord_iff.2 ⟨nonempty, fun _ member => List.mem_takeWhile_imp member⟩

/-- A word stands in a text between characters of other kinds or ends of the text. -/
def HasWord (text word : List Char) : Prop := StandsApart (fun c => !isWordChar c) word text

/-- The test for words tells exactly those that stand apart. -/
theorem containsWord_iff (isWord : isWord word = true) (text : List Char) :
    containsWord text word = true ↔ HasWord text word := by
  have inside : ∀ c ∈ word, (!isWordChar c) = false := by
    intro c member
    simp [(isWord_iff.1 isWord).2 c member]
  rw [containsWord, List.contains_iff_mem, mem_pieces_iff]
  exact ⟨fun both => both.2, fun apart => ⟨inside, apart⟩⟩

/-- A mark or a blank separates the words on both sides. -/
theorem containsWord_append_cons {c : Char} (foreign : isWordChar c = false)
    (front behind word : List Char) :
    containsWord (front ++ c :: behind) word =
      (containsWord front word || containsWord behind word) := by
  have separates : (!isWordChar c) = true := by simp [foreign]
  rw [containsWord, pieces_append_cons separates, List.contains_append]
  rfl

theorem containsWord_nil (nonempty : word ≠ []) : containsWord [] word = false := by
  simp [containsWord, pieces, nonempty]

variable {gap : List Char}

/-- A gap at the start contains no word. -/
theorem containsWord_gap_append (nonempty : word ≠ []) (blank : AllBlank gap)
    (text : List Char) : containsWord (gap ++ text) word = containsWord text word := by
  induction gap with
  | nil => rfl
  | cons c rest ih =>
    have foreign := isWordChar_of_isBlank (blank c List.mem_cons_self)
    have others : AllBlank rest := fun d member => blank d (List.mem_cons_of_mem c member)
    rw [List.cons_append, ← List.nil_append (c :: (rest ++ text)),
      containsWord_append_cons foreign, containsWord_nil nonempty, Bool.false_or, ih others]

/-- A gap at the end contains no word. -/
theorem containsWord_append_gap (nonempty : word ≠ []) (blank : AllBlank gap)
    (text : List Char) : containsWord (text ++ gap) word = containsWord text word := by
  cases gap with
  | nil => rw [List.append_nil]
  | cons c rest =>
    have foreign := isWordChar_of_isBlank (blank c List.mem_cons_self)
    have others : AllBlank rest := fun d member => blank d (List.mem_cons_of_mem c member)
    have nothing := containsWord_gap_append nonempty others []
    rw [List.append_nil, containsWord_nil nonempty] at nothing
    rw [containsWord_append_cons foreign, nothing, Bool.or_false]

/-- A text is what is left when blanks are taken from its end, and blanks. -/
theorem exists_trimEnd_append (text : List Char) :
    ∃ gap, AllBlank gap ∧ text = trimEnd text ++ gap := by
  refine ⟨(text.reverse.takeWhile isBlank).reverse, ?_, ?_⟩
  · exact AllBlank.reverse fun c member => List.mem_takeWhile_imp member
  · rw [trimEnd, dropEndWhile, ← List.reverse_append, List.takeWhile_append_dropWhile,
      List.reverse_reverse]

/-- Trimming the end keeps the start. -/
theorem head?_of_trimEnd {text : List Char} {c : Char} (head : c ∈ (trimEnd text).head?) :
    c ∈ text.head? := by
  obtain ⟨gap, _, whole⟩ := exists_trimEnd_append text
  obtain ⟨rest, left⟩ := List.head?_eq_some_iff.1 head
  rw [whole, left]
  rfl

/-- Trimming adds nothing. -/
theorem trim_sublist (text : List Char) : (trim text).Sublist text := by
  obtain ⟨gap, -, whole⟩ := exists_trimEnd_append (trimStart text)
  have front : (trim text).Sublist (trimStart text) := by
    rw [whole]
    exact List.sublist_append_left (trim text) gap
  exact front.trans (List.dropWhile_sublist isBlank)

/-- A text is what is left when it is trimmed, between blanks. -/
theorem exists_trim_append (text : List Char) :
    ∃ lead trail, AllBlank lead ∧ AllBlank trail ∧ text = lead ++ trim text ++ trail := by
  obtain ⟨trail, blank, whole⟩ := exists_trimEnd_append (trimStart text)
  refine ⟨text.takeWhile isBlank, trail, fun c member => List.mem_takeWhile_imp member, blank, ?_⟩
  calc text
      = text.takeWhile isBlank ++ trimStart text := List.takeWhile_append_dropWhile.symm
    _ = text.takeWhile isBlank ++ trim text ++ trail := by
      rw [List.append_assoc, trim, ← whole]

/-- A trimmed text starts solid. -/
theorem isBlank_head?_trim (text : List Char) : ∀ c ∈ (trim text).head?, isBlank c = false := by
  intro c first
  have own := List.head?_dropWhile_not isBlank text
  rw [← trimStart, head?_of_trimEnd first] at own
  simpa using own

/-- A trimmed text ends solid. -/
theorem isBlank_getLast?_trim (text : List Char) :
    ∀ c ∈ (trim text).getLast?, isBlank c = false := by
  intro c last
  have own := List.head?_dropWhile_not isBlank (trimStart text).reverse
  rw [trim, trimEnd, dropEndWhile, List.getLast?_reverse] at last
  rw [Option.mem_def.1 last] at own
  simpa using own

theorem trim_trim (text : List Char) : trim (trim text) = trim text :=
  trim_eq_self (isBlank_head?_trim text) (isBlank_getLast?_trim text)

/-- Trimming the end first changes nothing. -/
theorem trim_trimEnd (text : List Char) : trim (trimEnd text) = trim text := by
  obtain ⟨gap, blank, whole⟩ := exists_trimEnd_append text
  calc trim (trimEnd text)
      = trim ([] ++ trimEnd text ++ gap) := (trim_append allBlank_nil _ blank).symm
    _ = trim text := by rw [List.nil_append, ← whole]

/-- Trimming the end takes no word away. -/
theorem containsWord_trimEnd (nonempty : word ≠ []) (text : List Char) :
    containsWord (trimEnd text) word = containsWord text word := by
  obtain ⟨gap, blank, whole⟩ := exists_trimEnd_append text
  calc containsWord (trimEnd text) word
      = containsWord (trimEnd text ++ gap) word := (containsWord_append_gap nonempty blank _).symm
    _ = containsWord text word := by rw [← whole]

/-- Blanks around a text add no word to it and hide none. -/
theorem containsWord_trim (nonempty : word ≠ []) (text : List Char) :
    containsWord (trim text) word = containsWord text word := by
  have blank : AllBlank (text.takeWhile isBlank) := fun c member => List.mem_takeWhile_imp member
  calc containsWord (trim text) word
      = containsWord (trimStart text) word := containsWord_trimEnd nonempty _
    _ = containsWord (text.takeWhile isBlank ++ text.dropWhile isBlank) word :=
      (containsWord_gap_append nonempty blank _).symm
    _ = containsWord text word := by rw [List.takeWhile_append_dropWhile]

end ExtensionLoader.Text
