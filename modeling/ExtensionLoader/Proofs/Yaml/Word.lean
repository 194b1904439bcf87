import ExtensionLoader.Proofs.Text.Word
import ExtensionLoader.Proofs.Yaml.Lexer

/-! # Words and numbers without quotes

A word of letters, digits and underscores is written as it is (`Yaml.legible_of_isWord`), and may be
a key if it is short (`Yaml.isKey_of_isWord`). The digits of a number are such a word, and they mean
the number (`Yaml.natural?_toString`).
-/

namespace ExtensionLoader.Yaml

open Text (isWord isWordChar)

variable {text : List Char}

theorem isPrintableAscii_of_isWordChar {c : Char} (inWord : isWordChar c = true) :
    IsPrintableAscii c := by
  have range := Text.toNat_of_isWordChar inWord
  exact ⟨Nat.le_trans (by decide) range.1, Nat.le_trans range.2 (by decide)⟩

theorem printableAscii_of_isWordChar (inWord : ∀ c ∈ text, isWordChar c = true) :
    PrintableAscii text :=
  fun c member => isPrintableAscii_of_isWordChar (inWord c member)

/-- Word characters have no meaning of their own. -/
theorem isIndicator_of_isWordChar {c : Char} (inWord : isWordChar c = true) :
    isIndicator c = false :=
  @Text.forall_wordChar (fun c => isIndicator c = false) (by decide +kernel) c inWord

/-- A character of a word is none of the marks. -/
theorem ne_of_isWordChar {c d : Char} (inWord : isWordChar c = true)
    (foreign : isWordChar d = false) : c ≠ d := by
  rintro rfl
  rw [inWord] at foreign
  cases foreign

/-- A word has no mark inside. -/
theorem hasInnerMark_of_isWordChar (inWord : ∀ c ∈ text, isWordChar c = true) :
    hasInnerMark text = false := by
  induction text with
  | nil => rfl
  | cons a rest ih =>
    rw [List.forall_mem_cons] at inWord
    cases rest with
    | nil => rfl
    | cons b rest =>
      have second := (List.forall_mem_cons.1 inWord.2).1
      have colon : (b == ':') = false := beq_eq_false_iff_ne.2 (ne_of_isWordChar second rfl)
      have hash : (b == '#') = false := beq_eq_false_iff_ne.2 (ne_of_isWordChar second rfl)
      rw [hasInnerMark, colon, hash, ih inWord.2]
      rfl

/-- A word starts with no mark. -/
theorem startsWithMark_of_isWordChar (inWord : ∀ c ∈ text, isWordChar c = true) :
    startsWithMark text = false := by
  cases text with
  | nil => rfl
  | cons c rest =>
    have first := inWord c List.mem_cons_self
    have noMark : ¬(c = '?' ∨ c = ':' ∨ c = '-') := by
      rintro (rfl | rfl | rfl) <;> exact absurd first (by decide)
    rw [startsWithMark, if_neg noMark, isIndicator_of_isWordChar first]

/-- A word is no document mark. -/
theorem startsLikeDocumentMark_of_isWordChar (inWord : ∀ c ∈ text, isWordChar c = true) :
    startsLikeDocumentMark text = false := by
  cases text with
  | nil => rfl
  | cons c rest =>
    have first := inWord c List.mem_cons_self
    have noHyphen : ('-' == c) = false := beq_eq_false_iff_ne.2 (ne_of_isWordChar first rfl).symm
    have noDot : ('.' == c) = false := beq_eq_false_iff_ne.2 (ne_of_isWordChar first rfl).symm
    simp [startsLikeDocumentMark, List.isPrefixOf, noHyphen, noDot]

/-- A word is written without quotes. -/
theorem allowsPlain_of_isWord (word : isWord text = true) : allowsPlain text = true := by
  obtain ⟨-, inWord⟩ := Text.isWord_iff.1 word
  have printable := printableAscii_of_isWordChar inWord
  have shown : text.all isPrintable = true :=
    List.all_eq_true.2 fun c member => (printable c member).isPrintable_eq_true
  have noSpace : ∀ c ∈ text, (c == ' ') = false := fun c member =>
    beq_eq_false_iff_ne.2 (ne_of_isWordChar (inWord c member) rfl)
  have noBreak : ∀ c ∈ text, isAnyBreak c = false := fun c member =>
    (printable c member).isAnyBreak_eq_false
  have solid : ∀ c ∈ text, isSpaceOrBreak c = false := fun c member => by
    rw [isSpaceOrBreak, noSpace c member, noBreak c member]
    rfl
  have starts : text.head?.any isSpaceOrBreak = false := by
    cases first : text.head? with
    | none => rfl
    | some c => exact solid c (List.mem_of_mem_head? first)
  have ends : text.getLast?.any isSpaceOrBreak = false := by
    cases last : text.getLast? with
    | none => rfl
    | some c => exact solid c (List.mem_of_getLast? last)
  have unbroken : text.any isAnyBreak = false := by
    rw [List.any_eq_false]
    exact fun c member => Bool.not_eq_true _ ▸ noBreak c member
  rw [allowsPlain, isRegular, shown, hasNeighbours_eq_false (.inl noSpace), unbroken, starts, ends,
    startsLikeDocumentMark_of_isWordChar inWord, startsWithMark_of_isWordChar inWord,
    hasInnerMark_of_isWordChar inWord]
  rfl

theorem legible_of_isWord {text : String} (word : isWord text.toList = true) :
    Legible .plain text :=
  .plain (printableAscii_of_isWordChar (Text.isWord_iff.1 word).2) (Text.isWord_ne_nil word)
    (allowsPlain_of_isWord word)

/-- A short word can be a key. -/
theorem isKey_of_isWord {name : String} (word : isWord name.toList = true)
    (short : name.toList.length ≤ 1024) : Lexer.IsKey name :=
  ⟨isPlain_of_allowsPlain (printableAscii_of_isWordChar (Text.isWord_iff.1 word).2)
    (allowsPlain_of_isWord word), Text.isWord_ne_nil word, short⟩

/-- The decimal digits of a number. -/
theorem toList_toString (value : Nat) : (toString value).toList = Nat.toDigits 10 value :=
  Nat.toList_repr

theorem isDigit_of_mem_toDigits {value : Nat} : ∀ c ∈ Nat.toDigits 10 value, c.isDigit = true :=
  fun _ member => Nat.isDigit_of_mem_toDigits (by decide) (by decide) member

theorem isWordChar_of_isDigit {c : Char} (digit : c.isDigit = true) : isWordChar c = true := by
  simp [isWordChar, Char.isAlphanum, digit]

/-- A number is written as a word. -/
theorem isWord_toString (value : Nat) : isWord (toString value).toList = true := by
  rw [toList_toString]
  exact Text.isWord_iff.2 ⟨Nat.toDigits_ne_nil,
    fun c member => isWordChar_of_isDigit (isDigit_of_mem_toDigits c member)⟩

/-- The first digit of a number is no zero, unless the number is zero. -/
theorem head?_toDigits_ne_zero {value : Nat} (positive : 0 < value) :
    (Nat.toDigits 10 value).head? ≠ some '0' := by
  induction value using Nat.strongRecOn with
  | ind value ih =>
    by_cases small : value < 10
    · rw [Nat.toDigits_of_lt_base small]
      have checked : ∀ digit : Fin 10, 0 < digit.val → [digit.val.digitChar].head? ≠ some '0' := by
        decide
      exact checked ⟨value, small⟩ positive
    · have large : 10 ≤ value := Nat.le_of_not_lt small
      rw [Nat.toDigits_of_base_le (by decide) large]
      obtain ⟨c, rest, whole⟩ := List.exists_cons_of_ne_nil (Nat.toDigits_ne_nil (n := value / 10))
      have front := ih (value / 10) (Nat.div_lt_self positive (by decide))
        (Nat.div_pos large (by decide))
      rw [whole] at front ⊢
      exact front

/-- The value of a digit. -/
theorem digitValue?_of_isDigit {c : Char} (digit : c.isDigit = true) :
    digitValue? 10 c = some (c.toNat - '0'.toNat) := by
  have bound : c.toNat ≤ 57 := by
    simp only [Char.isDigit, Bool.and_eq_true, decide_eq_true_eq] at digit
    exact UInt32.le_iff_toNat_le.1 digit.2
  rw [digitValue?, if_pos digit]
  exact if_pos (Nat.lt_succ_of_le (Nat.sub_le_sub_right bound 48))

/-- Digits give the number that they are the digits of. -/
theorem digits?_eq (nonempty : text ≠ []) (digits : ∀ c ∈ text, c.isDigit = true) :
    digits? 10 text = some (Nat.ofDigitChars 10 text 0) := by
  have all (start : Nat) : text.foldlM (fun value c => (digitValue? 10 c).map (value * 10 + ·))
      start = some (Nat.ofDigitChars 10 text start) := by
    clear nonempty
    induction text generalizing start with
    | nil => rfl
    | cons c rest ih =>
      rw [List.forall_mem_cons] at digits
      rw [List.foldlM_cons, digitValue?_of_isDigit digits.1]
      change rest.foldlM _ (start * 10 + (c.toNat - '0'.toNat)) = _
      rw [ih digits.2, Nat.mul_comm]
      rfl
  rw [digits?, if_neg (by simpa using nonempty), all]

/-- No digit is the letter of a base. -/
theorem based?_eq_none {letter : Char} (foreign : letter.isDigit = false) (base : Nat)
    (digits : ∀ c ∈ text, c.isDigit = true) : based? letter base text = none := by
  rw [based?.eq_def]
  split
  · rename_i c rest
    have other : c ≠ letter := by
      rintro rfl
      rw [digits c (by simp)] at foreign
      cases foreign
    exact if_neg other
  · rfl

/-- Digits have no sign. -/
theorem not_signed_of_digits (digits : ∀ c ∈ text, c.isDigit = true) :
    isSigned text = false ∧ dropSign '+' text = text := by
  cases text with
  | nil => exact ⟨rfl, rfl⟩
  | cons c rest =>
    have first := isWordChar_of_isDigit (digits c List.mem_cons_self)
    have noPlus : c ≠ '+' := ne_of_isWordChar first rfl
    have noMinus : c ≠ '-' := ne_of_isWordChar first rfl
    exact ⟨by simp [isSigned, noPlus, noMinus], if_neg noPlus⟩

/-- No zero stands before the digits of a number. -/
theorem hasLeadingZero_toDigits (value : Nat) : hasLeadingZero (Nat.toDigits 10 value) = false := by
  have unsigned := (not_signed_of_digits (@isDigit_of_mem_toDigits value)).1
  rw [hasLeadingZero, unsigned]
  rcases Nat.eq_zero_or_pos value with rfl | positive
  · rfl
  · have front := head?_toDigits_ne_zero positive
    generalize Nat.toDigits 10 value = text at front
    split
    · rename_i whole
      exact absurd (congrArg List.head? whole) front
    · rfl

/-- The digits of a number mean the number. -/
theorem natural?_toString (value : Nat) : natural? (toString value).toList = some value := by
  have digits := @isDigit_of_mem_toDigits value
  obtain ⟨unsigned, dropped⟩ := not_signed_of_digits digits
  have meant := digits?_eq Nat.toDigits_ne_nil digits
  rw [Nat.ofDigitChars_toDigits (by decide) (by decide)] at meant
  rw [toList_toString, natural?, dropped, unsigned, magnitude?, based?_eq_none rfl 16 digits,
    based?_eq_none rfl 8 digits, based?_eq_none rfl 2 digits, hasLeadingZero_toDigits, meant]
  rfl

end ExtensionLoader.Yaml
