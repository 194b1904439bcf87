import ExtensionLoader.Manifest.Printer
import ExtensionLoader.Manifest.Reader
import ExtensionLoader.Proofs.Yaml.Library

/-! # Reading a written manifest back

A manifest is written field by field, without the fields that have no value. With any library that
reads back what it writes, every field sets what it was written from and the others keep their
defaults (`Manifest.reads_fields`), so the manifest is read back as it was
(`Manifest.parse_toText`).
-/

namespace ExtensionLoader.Manifest

open Yaml (Content GivesField PrintableAscii Value Writable)

/-- A manifest whose texts are printable ASCII, with a width of at most 64 bits. -/
structure Printable (manifest : Manifest) : Prop where
  enumSpec : ∀ path ∈ manifest.enumSpec, PrintableAscii path.toList
  functionSpec : ∀ path ∈ manifest.functionSpec, PrintableAscii path.toList
  typeMap : ∀ path ∈ manifest.typeMap, PrintableAscii path.toList
  apis : ∀ api ∈ manifest.apis, PrintableAscii api.toList
  output : PrintableAscii manifest.output.toList
  width : ∀ width ∈ manifest.maxLineWidth, width < UInt64.size

theorem optionalField_sublist (name : String) (content : Option Content) :
    ((optionalField name content).map Prod.fst).Sublist [name] := by
  cases content with
  | none => exact List.nil_sublist [name]
  | some content => exact List.Sublist.refl [name]

/-- The fields of a manifest stand in their order. -/
theorem names_sublist (manifest : Manifest) :
    (manifest.fields.map Prod.fst).Sublist fieldNames := by
  have apis : ((if manifest.apis.isEmpty then [] else
      [("apis", Content.texts manifest.apis)]).map Prod.fst).Sublist ["apis"] := by
    split
    · exact List.nil_sublist _
    · exact List.Sublist.refl _
  simp only [fields, List.map_append]
  exact (((((optionalField_sublist _ _).append (optionalField_sublist _ _)).append
    (optionalField_sublist _ _)).append apis).append (List.Sublist.refl _)).append
      (optionalField_sublist _ _)

/-- A field is plain where its value is. -/
theorem isPlain_optionalField {α : Type} {name : String} {content : α → Content}
    {value : Option α} (plain : ∀ own ∈ value, (content own).IsPlain) :
    ∀ field ∈ optionalField name (value.map content), field.2.IsPlain := by
  intro field member
  obtain ⟨own, given, rfl⟩ : ∃ own, value = some own ∧ (name, content own) = field := by
    simpa [optionalField] using member
  exact plain own given

/-- Every content of a manifest is one that a library has to write. -/
theorem Printable.isPlain {manifest : Manifest} (printable : manifest.Printable) :
    ∀ field ∈ manifest.fields, field.2.IsPlain := by
  intro field member
  simp only [fields, List.mem_append] at member
  rcases member with ((((member | member) | member) | member) | member) | member
  · exact isPlain_optionalField (fun path given => .text (printable.enumSpec path given)) _ member
  · exact isPlain_optionalField (fun path given => .text (printable.functionSpec path given)) _
      member
  · exact isPlain_optionalField (fun path given => .text (printable.typeMap path given)) _ member
  · split at member
    · cases member
    · rename_i some
      obtain rfl := List.mem_singleton.1 member
      exact .texts (by simpa using some) printable.apis
  · rcases List.mem_pair.1 member with rfl | rfl
    · exact .text printable.output
    · exact .choice (by cases manifest.lineEnding <;> decide)
  · exact isPlain_optionalField (fun width given => .natural (printable.width width given)) _ member

/-- A printable manifest can be written. -/
theorem Printable.writable {manifest : Manifest} (printable : manifest.Printable) :
    Writable manifest.fields where
  nonempty := by simp [fields]
  distinct := manifest.names_sublist.nodup (by decide)
  names field member := by
    have checked : ∀ name ∈ fieldNames,
        Text.isWord name.toList = true ∧ name.toList.length ≤ 1024 := by decide +kernel
    exact checked _ (manifest.names_sublist.subset (List.mem_map_of_mem member))
  contents := printable.isPlain

theorem optional_of_text {value : Value} {text : String} (gives : value.Gives (.text text)) :
    optional Value.text value = .ok (some text) := by
  rw [optional, gives.1]
  change (some <$> value.text) = _
  rw [gives.2]
  rfl

/-- A field with a number is read as that number. -/
theorem optional_of_natural {value : Value} {number : Nat}
    (gives : value.Gives (.natural number)) :
    optional Value.natural value = .ok (some number) := by
  rw [optional, gives.1]
  change (some <$> value.natural) = _
  rw [gives.2]
  rfl

/-- A word that is written for a line ending names it. -/
theorem lineEndingOf_of_choice {value : Value} {ending : LineEnding}
    (gives : value.Gives (.choice ending.word)) : lineEndingOf value = .ok ending := by
  have named : value.choice = .ok ending.word := gives
  rw [lineEndingOf, named]
  cases ending <;> rfl

/-- A field takes one manifest to another one, whatever value was read for its content. -/
def Sets (field : String × Content) (before after : Manifest) : Prop :=
  ∀ value : Value, value.Gives field.2 → setField before field.1 value = .ok after

/-- Fields that come one after the other take one manifest to another one. -/
inductive Reads : List (String × Content) → Manifest → Manifest → Prop
  | nil {manifest : Manifest} : Reads [] manifest manifest
  | cons {field : String × Content} {fields : List (String × Content)}
    {before middle after : Manifest} (sets : Sets field before middle)
    (rest : Reads fields middle after) : Reads (field :: fields) before after

theorem Sets.reads {field : String × Content} {before after : Manifest}
    (sets : Sets field before after) : Reads [field] before after :=
  .cons sets .nil

theorem Reads.append {first second : List (String × Content)} {before middle after : Manifest}
    (reads : Reads first before middle) (readsBehind : Reads second middle after) :
    Reads (first ++ second) before after := by
  induction reads with
  | nil => exact readsBehind
  | cons sets _ ih => exact .cons sets (ih readsBehind)

/-- A field that is left out when it has no value sets a setting that has none before. -/
theorem reads_optionalField {α : Type} {name : String} {content : α → Content}
    {set : Manifest → Option α → Manifest} {value : Option α} {before : Manifest}
    (sets : ∀ own, Sets (name, content own) before (set before (some own)))
    (unset : set before none = before) :
    Reads (optionalField name (value.map content)) before (set before value) := by
  cases value with
  | none =>
    rw [unset]
    exact .nil
  | some own => exact (sets own).reads

/-- The fields of a manifest set what they say, and the others keep their defaults. -/
theorem reads_fields (manifest : Manifest) : Reads manifest.fields {} manifest := by
  obtain ⟨enumSpec, functionSpec, typeMap, apis, output, ending, width⟩ := manifest
  have enums := @reads_optionalField String "enum_spec" .text
    (fun manifest value => { manifest with enumSpec := value }) enumSpec {}
    (fun path value gives => by rw [setField, optional_of_text gives]; rfl) rfl
  have functions := @reads_optionalField String "func_spec" .text
    (fun manifest value => { manifest with functionSpec := value }) functionSpec { enumSpec }
    (fun path value gives => by rw [setField, optional_of_text gives]; rfl) rfl
  have types := @reads_optionalField String "type_map" .text
    (fun manifest value => { manifest with typeMap := value }) typeMap { enumSpec, functionSpec }
    (fun path value gives => by rw [setField, optional_of_text gives]; rfl) rfl
  have listed : Reads (if apis.isEmpty then [] else [("apis", .texts apis)])
      { enumSpec, functionSpec, typeMap } { enumSpec, functionSpec, typeMap, apis } := by
    split
    · rename_i none
      obtain rfl := List.isEmpty_iff.1 none
      exact .nil
    · refine Sets.reads fun value gives => ?_
      have texts : value.texts = .ok apis := gives
      rw [setField, texts]
      rfl
  have written : Reads [("output", .text output), ("line_ending", .choice ending.word)]
      { enumSpec, functionSpec, typeMap, apis }
      { enumSpec, functionSpec, typeMap, apis, output, lineEnding := ending } := by
    have placed : Sets ("output", .text output) { enumSpec, functionSpec, typeMap, apis }
        { enumSpec, functionSpec, typeMap, apis, output } := by
      intro value gives
      rw [setField, gives.2]
      rfl
    refine .cons placed (Sets.reads fun value gives => ?_)
    rw [setField, lineEndingOf_of_choice gives]
    rfl
  have limited := @reads_optionalField Nat "max_line_width" .natural
    (fun manifest value => { manifest with maxLineWidth := value }) width
    { enumSpec, functionSpec, typeMap, apis, output, lineEnding := ending }
    (fun number value gives => by rw [setField, optional_of_natural gives]; rfl) rfl
  exact ((((enums.append functions).append types).append listed).append written).append limited

/-- Fields with different names are read one after the other. -/
theorem setFields_of_reads {fields : List (String × Content)} {before after : Manifest}
    (reads : Reads fields before after) (distinct : (fields.map Prod.fst).Nodup)
    {values : List (Value × Value)} (gives : List.Forall₂ GivesField fields values)
    {read : List String} (fresh : ∀ field ∈ fields, field.1 ∉ read) :
    setFields read before values = .ok after := by
  induction reads generalizing values read with
  | nil =>
    cases gives
    rfl
  | @cons field fields before middle after sets rest ih =>
    obtain ⟨name, content⟩ := field
    cases gives with
    | @cons _ entry _ entries own others =>
      rw [List.map_cons, List.nodup_cons] at distinct
      rw [List.forall_mem_cons] at fresh
      have unread : ¬ read.contains name = true := by
        rw [List.contains_iff_mem]
        exact fresh.1
      have later : ∀ field ∈ fields,
          field.1 ∉ if fieldNames.contains name then name :: read else read := by
        intro other member
        have listed : other.1 ∈ fields.map Prod.fst := List.mem_map_of_mem member
        have different : other.1 ≠ name := ne_of_mem_of_not_mem listed distinct.1
        split
        · exact List.not_mem_cons_of_ne_of_not_mem different (fresh.2 other member)
        · exact fresh.2 other member
      have named : entry.1.text = .ok name := own.name
      rw [setFields, named]
      change (if read.contains name then _ else setField before name entry.2 >>= _) = _
      rw [if_neg unread, sets entry.2 own.content]
      exact ih distinct.2 others later

/-- **A manifest is read back as it was written**, with any library that reads back what it
writes. -/
theorem parse_toText {library : Yaml.Library} (roundTrips : library.RoundTrips)
    (manifest : Manifest) (printable : manifest.Printable) :
    ∃ text, manifest.toText library = .ok text ∧ parse library text = .ok manifest := by
  obtain ⟨text, written⟩ := roundTrips.writes manifest.fields printable.writable
  obtain ⟨values, read, gives⟩ :=
    roundTrips.readsBack manifest.fields text printable.writable written
  have set : setFields [] {} values = .ok manifest :=
    setFields_of_reads manifest.reads_fields printable.writable.distinct gives
      fun _ _ => List.not_mem_nil
  have decoded : decode library text = .ok manifest := by
    rw [decode, read]
    exact set
  refine ⟨text, ?_, ?_⟩
  · rw [toText, written]
    rfl
  · rw [parse, decoded]
    rfl

/-- A manifest whose texts would mean something else without quotes. -/
def ambiguousManifest : Manifest where
  enumSpec := some "null"
  functionSpec := some ""
  apis := ["true", "0x10 ", " - it's: \"#1\"", "~"]
  output := "# none"
  lineEnding := .crlf
  maxLineWidth := some 0

/-- With the library that the program is run with, such a manifest is read back as it was. -/
theorem parse_toText_of_ambiguous_texts :
    (Yaml.library.RoundTrips ∧ ambiguousManifest.Printable) ∧
      ∃ text, ambiguousManifest.toText Yaml.library = .ok text ∧
        parse Yaml.library text = .ok ambiguousManifest := by
  have printable : ambiguousManifest.Printable :=
    ⟨by decide +kernel, by decide +kernel, by decide, by decide +kernel, by decide +kernel,
      by decide⟩
  exact ⟨⟨Yaml.roundTrips_library, printable⟩,
    parse_toText Yaml.roundTrips_library ambiguousManifest printable⟩

end ExtensionLoader.Manifest
