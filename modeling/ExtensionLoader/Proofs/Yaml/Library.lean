import ExtensionLoader.Proofs.Yaml.Document
import ExtensionLoader.Proofs.Yaml.Word
import ExtensionLoader.Yaml.Library.Standard
import Mathlib.Data.List.Forall2

/-! # Reading back what a library writes

A library is expected to write a mapping of names to texts, numbers, choices and lists of texts,
and to read each of its values back as what it was written from (`Yaml.Library.RoundTrips`). The
library that the program is run with does both (`Yaml.roundTrips_library`).
-/

namespace ExtensionLoader.Yaml

/-- A content that every library can write: printable ASCII, a number of 64 bits, or a list of
texts that is not empty. -/
inductive Content.IsPlain : Content → Prop
  | text {text : String} (printable : PrintableAscii text.toList) : IsPlain (.text text)
  | natural {number : Nat} (fits : number < UInt64.size) : IsPlain (.natural number)
  | texts {items : List String} (nonempty : items ≠ [])
    (printable : ∀ item ∈ items, PrintableAscii item.toList) : IsPlain (.texts items)
  | choice {name : String} (word : Text.isWord name.toList = true) : IsPlain (.choice name)

/-- Fields that every library can write, under different words. -/
structure Writable (fields : List (String × Content)) : Prop where
  nonempty : fields ≠ []
  distinct : (fields.map Prod.fst).Nodup
  names : ∀ field ∈ fields, Text.isWord field.1.toList = true ∧ field.1.toList.length ≤ 1024
  contents : ∀ field ∈ fields, field.2.IsPlain

/-- A value is read back as what it was written from. A text or a number that was written is
set, whatever its text could mean. -/
def Value.Gives (value : Value) : Content → Prop
  | .text text => value.isSet = .ok true ∧ value.text = .ok text
  | .natural number => value.isSet = .ok true ∧ value.natural = .ok number
  | .texts items => value.texts = .ok items
  | .choice name => value.choice = .ok name

/-- A key and a value are read back as the field that was written. -/
structure GivesField (field : String × Content) (entry : Value × Value) : Prop where
  name : entry.1.text = .ok field.1
  content : entry.2.Gives field.2

/-- What is expected of a library: it writes a mapping of plain contents, and from what it wrote
it reads the same fields in the same order. -/
structure Library.RoundTrips (library : Library) : Prop where
  writes : ∀ fields, Writable fields → ∃ text, library.write fields = .ok text
  readsBack : ∀ fields text, Writable fields → library.write fields = .ok text →
    ∃ values, library.read text = .ok (some values) ∧ List.Forall₂ GivesField fields values

/-- Only a text that can be taken for nothing else is written plain. -/
theorem not_ambiguous_of_styleFor {text : String} (plain : styleFor text = .plain) :
    isAmbiguous text = false := by
  rw [styleFor] at plain
  split at plain
  · split at plain <;> cases plain
  · split at plain
    · rename_i both
      rw [Bool.and_eq_true, Bool.not_eq_true'] at both
      exact both.1
    · split at plain <;> cases plain

/-- A text that is written is set, whatever it could mean without quotes. -/
theorem isSet_ofText (text : String) : (Node.ofText text).isSet = .ok true := by
  rw [Node.ofText]
  cases style : styleFor text with
  | plain =>
    have own := not_ambiguous_of_styleFor style
    simp only [isAmbiguous, Bool.or_eq_false_iff] at own
    obtain ⟨⟨⟨⟨⟨nonempty, noNull⟩, -⟩, -⟩, -⟩, -⟩ := own
    rw [Node.isSet, nonempty, noNull]
    rfl
  | _ => rfl

/-- The digits of a number do not mean the null value. -/
theorem isSet_ofNat (number : Nat) : (Node.ofNat number).isSet = .ok true := by
  have word := isWord_toString number
  have nonempty : (toString number).isEmpty = false := by
    rw [← Bool.not_eq_true, String.isEmpty_iff]
    intro empty
    rw [empty] at word
    cases word
  have noNull : isNull (toString number) = false := by
    rw [← Bool.not_eq_true, isNull, List.contains_iff_mem]
    intro listed
    have checked : ∀ null ∈ ["~", "null", "Null", "NULL"],
        null.toList.all Char.isDigit = false := by decide
    have digits : (toString number).toList.all Char.isDigit = true := by
      rw [toList_toString, List.all_eq_true]
      exact isDigit_of_mem_toDigits
    rw [checked _ listed] at digits
    cases digits
  rw [Node.ofNat, Node.isSet, nonempty, noNull]
  rfl

theorem natural_ofNat {number : Nat} (fits : number < UInt64.size) :
    (Node.ofNat number).natural = .ok number := by
  rw [Node.ofNat, Node.natural]
  simp only [natural?_toString, if_pos fits]

theorem texts_ofText (document : Document) (items : List String) :
    document.texts (.sequence none (items.map Node.ofText)) = .ok items := by
  rw [Document.texts]
  induction items with
  | nil => rfl
  | cons item items ih =>
    rw [List.map_cons, List.mapM_cons, ih]
    rfl

/-- A node that is written for a content is taken for it again. -/
theorem gives_node (document : Document) {content : Content} (plain : content.IsPlain) :
    (document.value content.node).Gives content := by
  cases plain with
  | @text text printable => exact ⟨isSet_ofText text, rfl⟩
  | @natural number fits => exact ⟨isSet_ofNat number, natural_ofNat fits⟩
  | @texts items nonempty printable => exact texts_ofText document items
  | choice word => rfl

/-- Plain contents make nodes the printer can write. -/
theorem isValue_node {content : Content} (plain : content.IsPlain) : IsValue content.node := by
  cases plain with
  | text printable => exact .scalar (legible_styleFor printable)
  | natural fits => exact .scalar (legible_of_isWord (isWord_toString _))
  | texts nonempty printable =>
    refine .sequence (by simpa using nonempty) fun item listed => ?_
    obtain ⟨text, own, rfl⟩ := List.mem_map.1 listed
    exact .scalar (legible_styleFor (printable text own))
  | choice word =>
    exact .scalar (legible_styleFor (printableAscii_of_isWordChar (Text.isWord_iff.1 word).2))

theorem Writable.isField {fields : List (String × Content)} (writable : Writable fields) :
    ∀ field ∈ fields.map fun (name, content) => (name, content.node), IsField field := by
  intro field member
  obtain ⟨⟨name, content⟩, listed, rfl⟩ := List.mem_map.1 member
  obtain ⟨word, short⟩ := writable.names _ listed
  exact ⟨isKey_of_isWord word short, isValue_node (writable.contents _ listed)⟩

/-- The document that fields are printed as. -/
def documentOf (fields : List (String × Content)) : Document where
  root := some (.mapping none
    ((fields.map fun (name, content) => (name, content.node)).map Reading.keyed))

/-- The key and the value of a printed field. -/
def entryOf (document : Document) (field : String × Content) : Value × Value :=
  (document.value (.scalar none .plain field.1), document.value field.2.node)

theorem fields_documentOf (fields : List (String × Content)) :
    (documentOf fields).fields = .ok (some (fields.map (entryOf (documentOf fields)))) := by
  change Except.ok (some (((fields.map _).map Reading.keyed).map _)) = _
  rw [List.map_map, List.map_map]
  rfl

/-- **The standard library reads back what it writes.** -/
theorem roundTrips_library : library.RoundTrips where
  writes _ _ := ⟨_, rfl⟩
  readsBack := by
    intro fields text writable written
    cases Except.ok.inj written
    have nonempty : (fields.map fun (name, content) => (name, content.node)) ≠ [] := by
      simpa using writable.nonempty
    have read := Document.ofText_printFields nonempty writable.isField
    refine ⟨fields.map (entryOf (documentOf fields)), ?_,
      List.forall₂_map_right_iff.2 (List.forall₂_same.2 fun field member => ?_)⟩
    · change (Document.ofText _ >>= fun document => document.fields) = _
      rw [read]
      exact fields_documentOf fields
    · exact ⟨rfl, gives_node _ (writable.contents field member)⟩

end ExtensionLoader.Yaml
