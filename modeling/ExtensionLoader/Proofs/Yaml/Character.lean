import ExtensionLoader.Yaml.Scalar.Shape

/-! # Printable ASCII characters

Texts of printable ASCII characters (`Yaml.PrintableAscii`) hold no line breaks and no tabs, and
each of their characters takes one column and one octet. In texts that are made of lines of such
characters, the characters that a reader sees are those that are written
(`Yaml.prepare_of_printable`).
-/

namespace ExtensionLoader.Yaml

/-- The space and the visible characters of ASCII. -/
def IsPrintableAscii (c : Char) : Prop := 0x20 ≤ c.toNat ∧ c.toNat ≤ 0x7E

instance : DecidablePred IsPrintableAscii := fun _ => inferInstanceAs (Decidable (_ ∧ _))

/-- A text of printable ASCII characters. -/
def PrintableAscii (text : List Char) : Prop := ∀ c ∈ text, IsPrintableAscii c

instance (text : List Char) : Decidable (PrintableAscii text) :=
  List.decidableBAll IsPrintableAscii text

/-- The first character of a printable text is printable. -/
theorem PrintableAscii.head {c : Char} {text : List Char} (printable : PrintableAscii (c :: text)) :
    IsPrintableAscii c :=
  printable c List.mem_cons_self

/-- The rest of a printable text is printable. -/
theorem PrintableAscii.tail {c : Char} {text : List Char} (printable : PrintableAscii (c :: text)) :
    PrintableAscii text :=
  fun d member => printable d (List.mem_cons_of_mem c member)

/-- Two printable texts, one after the other, are printable. -/
theorem PrintableAscii.append {first second : List Char} (printable : PrintableAscii first)
    (printableBehind : PrintableAscii second) : PrintableAscii (first ++ second) := by
  intro c member
  rcases List.mem_append.1 member with member | member
  · exact printable c member
  · exact printableBehind c member

namespace IsPrintableAscii

variable {c : Char} (printable : IsPrintableAscii c)

include printable

/-- What the codes of printable ASCII characters exclude. -/
theorem ne {d : Char} (foreign : ¬ IsPrintableAscii d) : c ≠ d := by
  rintro rfl
  exact foreign printable

/-- A printable character is no line break. -/
theorem isAnyBreak_eq_false : isAnyBreak c = false := by
  simp only [isAnyBreak, isBreak, Bool.or_eq_false_iff, beq_eq_false_iff_ne]
  exact ⟨⟨⟨⟨printable.ne (by decide), printable.ne (by decide)⟩, printable.ne (by decide)⟩,
    printable.ne (by decide)⟩, printable.ne (by decide)⟩

/-- A printable character breaks no line. -/
theorem isBreak_eq_false : isBreak c = false := by
  have none := printable.isAnyBreak_eq_false
  simp only [isAnyBreak, Bool.or_eq_false_iff] at none
  exact none.1.1

/-- The only printable character that is a space is the space. -/
theorem isSpace_eq : isSpace c = (c == ' ') := by
  rw [isSpace, beq_eq_false_iff_ne.2 (printable.ne (by decide : ¬ IsPrintableAscii '\t')),
    Bool.or_false]

theorem isPrintable_eq_true : isPrintable c = true := by
  simp [isPrintable, printable.1, printable.2]

theorem isReadable_eq_true : isReadable c = true := by
  simp [isReadable, printable.1, printable.2]

/-- A printable character takes one byte. -/
theorem utf8Size_eq_one : c.utf8Size = 1 := by
  rw [Char.utf8Size_eq_one_iff, UInt32.le_iff_toNat_le]
  exact Nat.le_trans printable.2 (by decide)

end IsPrintableAscii

/-- The place in a column of a line that holds printable ASCII characters before it. -/
def placeAt (line column : Nat) : Place := ⟨line, column, column⟩

/-- A printable character takes one column. -/
theorem past_of_printable {c : Char} (printable : IsPrintableAscii c) (line column : Nat) :
    (placeAt line column).past c = placeAt line (column + 1) := by
  rw [Place.past, printable.isBreak_eq_false, printable.utf8Size_eq_one]
  rfl

/-- No document mark stands behind the first column of a line. -/
theorem isDocumentMark_behind (line column : Nat) (text : List Char) :
    isDocumentMark (placeAt line (column + 1)) text = false := by
  match text with
  | [] | [_] | [_, _] | _ :: _ :: _ :: _ => rfl

/-- A text of line feeds and of printable ASCII characters is seen as it is written. -/
theorem prepare_of_printable {text : String}
    (printable : ∀ c ∈ text.toList, IsPrintableAscii c ∨ c = '\n') :
    prepare text = .ok text.toList := by
  have readable : text.toList.all isReadable = true := by
    rw [List.all_eq_true]
    intro c member
    rcases printable c member with own | rfl
    · exact own.isReadable_eq_true
    · decide
  have solid {c : Char} (own : IsPrintableAscii c ∨ c = '\n') : c ≠ '\r' ∧ c ≠ '\u0085' := by
    rcases own with own | rfl
    · exact ⟨own.ne (by decide), own.ne (by decide)⟩
    · decide
  have unified : Text.unifyBreaks text.toList = text.toList := by
    generalize text.toList = chars at printable
    induction chars with
    | nil => rfl
    | cons c rest ih =>
      rw [List.forall_mem_cons] at printable
      rw [Text.unifyBreaks, if_neg fun both => (solid printable.1).1 both.1, ih printable.2]
  have kept : (text.toList.map fun c => if c = '\r' ∨ c = '\u0085' then '\n' else c) =
      text.toList := by
    refine (List.map_congr_left fun c member => ?_).trans (List.map_id _)
    exact if_neg (not_or.2 (solid (printable c member)))
  rw [prepare, if_pos readable, unified, kept]

end ExtensionLoader.Yaml
