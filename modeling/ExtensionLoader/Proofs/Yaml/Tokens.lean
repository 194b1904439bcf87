import ExtensionLoader.Proofs.Yaml.Lexer
import ExtensionLoader.Yaml.Node.Printer

/-! # The tokens of a printed mapping

A mapping is printed line by line, so its tokens are read line by line: what a text at the start of
a line becomes (`Yaml.Lexes`) is put together from what its parts become (`Yaml.Lexes.append`). A
printed mapping becomes one block mapping of its keys and values (`Yaml.ofText_printFields`).
-/

namespace ExtensionLoader.Yaml

open Lexer

/-- A scalar that is printed on one line. -/
inductive IsScalar : Node → Prop
  | scalar {style : ScalarStyle} {text : String} (legible : Legible style text) :
    IsScalar (.scalar none style text)

/-- The value of a printed field: a scalar, or a list of scalars that is not empty. -/
inductive IsValue : Node → Prop
  | scalar {style : ScalarStyle} {text : String} (legible : Legible style text) :
    IsValue (.scalar none style text)
  | sequence {items : List Node} (nonempty : items ≠ []) (scalars : ∀ item ∈ items, IsScalar item) :
    IsValue (.sequence none items)

/-- A field that is printed. -/
structure IsField (field : String × Node) : Prop where
  key : IsKey field.1
  value : IsValue field.2

/-- The text of a printed field. -/
def fieldText (field : String × Node) : List Char := field.1.toList ++ printValue field.2

/-- The items of a list that is not empty stand below its key. -/
theorem printValue_sequence {items : List Node} (nonempty : items ≠ []) :
    printValue (.sequence none items) = ':' :: '\n' :: items.flatMap printItem := by
  obtain ⟨item, others, rfl⟩ := List.exists_cons_of_ne_nil nonempty
  rfl

/-- The tokens of a scalar. -/
def scalarTokens : Node → List Token
  | .scalar _ style text => [.scalar style text]
  | _ => []

/-- The tokens of an item. -/
def itemTokens (item : Node) : List Token := .blockEntry :: scalarTokens item

/-- The tokens of a value. -/
def valueTokens : Node → List Token
  | .sequence _ items => items.flatMap itemTokens
  | value => scalarTokens value

/-- The tokens of a field. -/
def fieldTokens (field : String × Node) : List Token :=
  [.key, .scalar .plain field.1, .value] ++ valueTokens field.2

/-- Where a text starts a line, its tokens are read up to a line that is not indented. -/
def Lexes (columns : List Nat) (text : List Char) (made : List Token) : Prop :=
  ∀ (line : Nat) (tokens : List Token) (rest : List Char), StartsSolid rest →
    ∃ later steps, steps ≤ text.length ∧ ∀ fuel,
      readOn (fuel + steps) (lineStart line columns tokens (text ++ rest)) =
        readOn fuel (lineStart later [0] (tokens ++ made) rest)

theorem lexes_nil : Lexes [0] [] [] := by
  intro line tokens rest _
  refine ⟨line, 0, Nat.le_refl 0, fun fuel => ?_⟩
  rw [List.append_nil]
  rfl

theorem startsSolid_append {text rest : List Char} (starts : StartsSolid text)
    (startsBehind : StartsSolid rest) : StartsSolid (text ++ rest) := by
  cases text with
  | nil => exact startsBehind
  | cons c text => exact starts

/-- Texts in a row are read as their tokens in a row. -/
theorem Lexes.append {columns : List Nat} {text behind : List Char} {made madeBehind : List Token}
    (lexes : Lexes columns text made) (lexesBehind : Lexes [0] behind madeBehind)
    (starts : StartsSolid behind) : Lexes columns (text ++ behind) (made ++ madeBehind) := by
  intro line tokens rest startsRest
  obtain ⟨middle, steps, few, run⟩ :=
    lexes line tokens (behind ++ rest) (startsSolid_append starts startsRest)
  obtain ⟨later, others, fewBehind, runBehind⟩ :=
    lexesBehind middle (tokens ++ made) rest startsRest
  refine ⟨later, others + steps, ?_, fun fuel => ?_⟩
  · rw [List.length_append]
    omega
  · rw [← Nat.add_assoc, List.append_assoc, run, runBehind, List.append_assoc]

/-- Texts that are read one after the other. -/
theorem lexes_flatMap {α : Type} {text : α → List Char} {made : α → List Token} {parts : List α}
    (lexes : ∀ part ∈ parts, Lexes [0] (text part) (made part) ∧ StartsSolid (text part)) :
    Lexes [0] (parts.flatMap text) (parts.flatMap made) ∧ StartsSolid (parts.flatMap text) := by
  induction parts with
  | nil => exact ⟨lexes_nil, nofun⟩
  | cons part parts ih =>
    rw [List.forall_mem_cons] at lexes
    obtain ⟨⟨first, starts⟩, later⟩ := lexes
    obtain ⟨others, startsBehind⟩ := ih later
    exact ⟨first.append others startsBehind, startsSolid_append starts startsBehind⟩

theorem startsSolid_of_plain {text : List Char} (plain : IsPlain text) : StartsSolid text := by
  intro c first
  obtain ⟨rest, rfl⟩ := List.head?_eq_some_iff.1 first
  refine ⟨plain.printable.head, fun space => plain.starts (congrArg some space), ?_⟩
  rintro rfl
  cases plain.noMark

theorem startsSolid_append_left {text : List Char} (starts : StartsSolid text)
    (nonempty : text ≠ []) (rest : List Char) : StartsSolid (text ++ rest) := by
  cases text with
  | nil => exact absurd rfl nonempty
  | cons c text => exact starts

/-- A written scalar starts solid. -/
theorem startsSolid_written {style : ScalarStyle} {text : String} (legible : Legible style text)
    (rest : List Char) : StartsSolid (written style text ++ rest) := by
  cases legible with
  | plain printable nonempty allowed =>
    exact startsSolid_append_left (startsSolid_of_plain (isPlain_of_allowsPlain printable allowed))
      nonempty rest
  | singleQuoted printable =>
    rintro c ⟨⟩
    decide

/-- A written scalar is printable. -/
theorem printable_written {style : ScalarStyle} {text : String} (legible : Legible style text) :
    PrintableAscii (written style text) := by
  cases legible with
  | plain printable _ _ => exact printable
  | singleQuoted printable =>
    have quote : PrintableAscii ['\''] := by decide
    exact (quote.append (printableAscii_singleQuotedBody printable)).append quote

/-- A scalar is printed behind a space, on the rest of its line. -/
theorem printScalar_eq {style : ScalarStyle} {text : String} (legible : Legible style text) :
    printScalar style text = ' ' :: (written style text ++ ['\n']) := by
  have noBreak : (written style text).getLast?.any isAnyBreak = false := by
    cases last : (written style text).getLast? with
    | none => rfl
    | some c => exact (printable_written legible c (List.mem_of_getLast? last)).isAnyBreak_eq_false
  rw [printScalar, noBreak]
  rfl

/-- An item is a hyphen and a scalar. -/
theorem lexes_item {item : Node} (own : IsScalar item) :
    Lexes [0] (printItem item) (itemTokens item) ∧ StartsSolid (printItem item) := by
  cases own with
  | @scalar style text legible =>
    constructor
    · intro line tokens rest starts
      refine ⟨line + 1, 2, ?_, fun fuel => ?_⟩
      · simp [printItem, printScalar_eq legible]
      · have whole : printItem (.scalar none style text) ++ rest =
            '-' :: ' ' :: (written style text ++ '\n' :: rest) := by
          simp [printItem, printScalar_eq legible]
        rw [whole, readOn_hyphen (startsSolid_written legible _),
          readOn_scalar legible (by decide) starts]
        simp [itemTokens, scalarTokens]
    · rintro c ⟨⟩
      decide

theorem startsSolid_fieldText {field : String × Node} (own : IsField field) :
    StartsSolid (fieldText field) :=
  startsSolid_append_left (startsSolid_of_plain own.key.plain) own.key.nonempty _

/-- A field is a key and its value. -/
theorem lexes_field {columns : List Nat} {field : String × Node} (outermost : Outermost columns)
    (own : IsField field) :
    Lexes columns (fieldText field) (opening columns ++ fieldTokens field) := by
  obtain ⟨name, value⟩ := field
  obtain ⟨key, isValue⟩ := own
  have named := List.length_pos_iff.2 key.nonempty
  intro line tokens rest starts
  cases isValue with
  | @scalar style text legible =>
    refine ⟨line + 1, 3, ?_, fun fuel => ?_⟩
    · simp only [fieldText, printValue, printScalar_eq legible, List.length_append,
        List.length_cons]
      omega
    · have whole : fieldText (name, .scalar none style text) ++ rest =
          name.toList ++ ':' :: ' ' :: (written style text ++ '\n' :: rest) := by
        simp [fieldText, printValue, printScalar_eq legible]
      rw [whole, readOn_key key outermost rfl,
        readOn_colon key outermost rfl (ready_space (startsSolid_written legible _)),
        readOn_scalar legible (Nat.succ_ne_zero _) starts]
      simp [keyTokens, fieldTokens, valueTokens, scalarTokens]
  | @sequence items nonempty scalars =>
    have listed : Lexes [0] (items.flatMap printItem) (items.flatMap itemTokens) ∧
        StartsSolid (items.flatMap printItem) :=
      lexes_flatMap fun item member => lexes_item (scalars item member)
    obtain ⟨lexes, startsItems⟩ := listed
    obtain ⟨later, steps, few, run⟩ :=
      lexes (line + 1) (tokens ++ keyTokens columns name) rest starts
    refine ⟨later, steps + 2, ?_, fun fuel => ?_⟩
    · simp only [fieldText, printValue_sequence nonempty, List.length_append, List.length_cons]
      omega
    · have whole : fieldText (name, .sequence none items) ++ rest =
          name.toList ++ ':' :: '\n' :: (items.flatMap printItem ++ rest) := by
        simp [fieldText, printValue_sequence nonempty]
      rw [whole, ← Nat.add_assoc, readOn_key key outermost rfl,
        readOn_colon key outermost rfl (ready_feed (startsSolid_append startsItems starts)), run]
      simp [keyTokens, fieldTokens, valueTokens]

/-- Fields are read one after the other, and the first one opens a mapping. -/
theorem lexes_fields {fields : List (String × Node)} (nonempty : fields ≠ [])
    (own : ∀ field ∈ fields, IsField field) :
    Lexes [] (fields.flatMap fieldText) (.blockMappingStart :: fields.flatMap fieldTokens) ∧
      StartsSolid (fields.flatMap fieldText) := by
  obtain ⟨field, others, rfl⟩ := List.exists_cons_of_ne_nil nonempty
  rw [List.forall_mem_cons] at own
  have first := lexes_field .none own.1
  obtain ⟨lexes, starts⟩ := lexes_flatMap fun other member =>
    ⟨lexes_field .first (own.2 other member), startsSolid_fieldText (own.2 other member)⟩
  exact ⟨first.append lexes starts, startsSolid_append (startsSolid_fieldText own.1) starts⟩

/-- A printed scalar is printable. -/
theorem printable_printScalar {style : ScalarStyle} {text : String}
    (legible : Legible style text) :
    ∀ c ∈ printScalar style text, IsPrintableAscii c ∨ c = '\n' := by
  rw [printScalar_eq legible, List.forall_mem_cons, List.forall_mem_append]
  refine ⟨.inl (by decide), fun c member => .inl (printable_written legible c member), ?_⟩
  simp

theorem printable_printItem {item : Node} (own : IsScalar item) :
    ∀ c ∈ printItem item, IsPrintableAscii c ∨ c = '\n' := by
  cases own with
  | scalar legible =>
    exact List.forall_mem_cons.2 ⟨.inl (by decide), printable_printScalar legible⟩

/-- A printed field is printable. -/
theorem printable_fieldText {field : String × Node} (own : IsField field) :
    ∀ c ∈ fieldText field, IsPrintableAscii c ∨ c = '\n' := by
  obtain ⟨name, value⟩ := field
  obtain ⟨key, isValue⟩ := own
  refine List.forall_mem_append.2 ⟨fun c member => .inl (key.plain.printable c member), ?_⟩
  cases isValue with
  | scalar legible =>
    exact List.forall_mem_cons.2 ⟨.inl (by decide), printable_printScalar legible⟩
  | @sequence items nonempty scalars =>
    have marks : ∀ c ∈ [':', '\n'], IsPrintableAscii c ∨ c = '\n' := by
      simp [IsPrintableAscii]
    rw [printValue_sequence nonempty]
    refine List.forall_mem_append.2 ⟨marks, fun c member => ?_⟩
    obtain ⟨item, listed, inside⟩ := List.mem_flatMap.1 member
    exact printable_printItem (scalars item listed) c inside

/-- At the end of the text the open block is closed. -/
theorem readOn_end (fuel line : Nat) (tokens : List Token) :
    readOn fuel (lineStart line [0] tokens []) = .ok (tokens ++ [.blockEnd]) := by
  have closed : (lineStart line [0] tokens []).closeAll.tokens.toList = tokens ++ [.blockEnd] := by
    simp [closeAll, lineStart, inFlow]
  rw [← closed]
  rfl

theorem printFields_eq (fields : List (String × Node)) :
    (printFields fields).toList = fields.flatMap fieldText :=
  String.toList_ofList

/-- **The tokens of a printed mapping are those of its fields, in order.** -/
theorem ofText_printFields {fields : List (String × Node)} (nonempty : fields ≠ [])
    (own : ∀ field ∈ fields, IsField field) :
    Token.ofText (printFields fields) =
      .ok (.blockMappingStart :: fields.flatMap fieldTokens ++ [.blockEnd]) := by
  have printable : ∀ c ∈ (printFields fields).toList, IsPrintableAscii c ∨ c = '\n' := by
    intro c member
    rw [printFields_eq] at member
    obtain ⟨field, listed, inside⟩ := List.mem_flatMap.1 member
    exact printable_fieldText (own field listed) c inside
  obtain ⟨lexes, starts⟩ := lexes_fields nonempty own
  obtain ⟨later, steps, few, run⟩ := lexes 0 [] [] nofun
  obtain ⟨fuel, enough⟩ := Nat.exists_eq_add_of_le' few
  rw [List.append_nil] at run
  have ready : ready { rest := fields.flatMap fieldText } =
      .ok (lineStart 0 [] [] (fields.flatMap fieldText)) :=
    ready_of_skip rfl (skip_solid starts) rfl
  rw [Token.ofText, prepare_of_printable printable]
  change readTokens ((printFields fields).toList.length + 1)
    { rest := (printFields fields).toList } = _
  rw [printFields_eq, readTokens_of_ready ready, enough, run, readOn_end]
  rfl

end ExtensionLoader.Yaml
