import ExtensionLoader.Proofs.Enumerant.Lookup
import ExtensionLoader.Proofs.Enumerant.Written
import ExtensionLoader.Proofs.Function.Naming

/-! # Qualified names and vendor forms

Putting a name into its namespace keeps names apart: what stands behind a qualified name stands
behind the name itself (`eq_append_of_qualify`). So a section has as many enumerants as there are
names on its lines, and a lookup that goes on without the vendor suffix of a name finds nothing but
the enumerant that is written without that suffix (`EnumTable.qualified_names_stay_apart`).
-/

namespace ExtensionLoader

open Text

/-- If a qualified name is another one with a text behind it, then so are the names themselves,
whatever the namespaces of both are. -/
theorem eq_append_of_qualify {name core rest : String}
    (same : qualify name = qualify core ++ rest) : name = core ++ rest := by
  rw [← unqualified_append core rest, ← same, unqualified_qualify name]

/-- A name is another one with the suffix of a vendor behind it. -/
def IsVendorForm (name core : String) : Prop :=
  ∃ vendor, isVendor vendor = true ∧ name = core ++ "_" ++ vendor

/-- A name has a stem exactly when it is that stem with a vendor's suffix. -/
theorem stripVendorSuffix_eq_some_iff {name stem : String} :
    stripVendorSuffix name = some stem ↔ stem ≠ "" ∧ IsVendorForm name stem := by
  constructor
  · intro stripped
    rw [stripVendorSuffix] at stripped
    split at stripped
    · cases stripped
    · rename_i before behind cut
      obtain ⟨-, whole⟩ := cutLast_eq_some_iff.1 cut
      split at stripped
      · cases stripped
      · rename_i kept
        cases stripped
        rw [Bool.or_eq_true, not_or, Bool.not_eq_true, List.isEmpty_eq_false_iff,
          Bool.not_eq_true, Bool.not_eq_false'] at kept
        refine ⟨by simpa using kept.1, String.ofList behind, kept.2, ?_⟩
        rw [← String.toList_inj, whole]
        simp
  · rintro ⟨nonempty, vendor, known, rfl⟩
    have cut : Text.cutLast '_' (stem ++ "_" ++ vendor).toList =
        some (stem.toList, vendor.toList) :=
      cutLast_eq_some_iff.2 ⟨underscore_not_mem_vendor known, by simp⟩
    rw [stripVendorSuffix, cut]
    simp [known, nonempty]

/-- What is left of a qualified name without its vendor suffix, if it is a qualified name again, is
that of the name without this suffix. -/
theorem isVendorForm_of_stripVendorSuffix {name core : String}
    (stripped : stripVendorSuffix (qualify name) = some (qualify core)) :
    IsVendorForm name core := by
  obtain ⟨-, vendor, known, whole⟩ := stripVendorSuffix_eq_some_iff.1 stripped
  refine ⟨vendor, known, ?_⟩
  rw [String.append_assoc] at whole ⊢
  exact eq_append_of_qualify whole

/-- The name of the enumerant that a line gives, as it is written. -/
def EnumLine.written? : EnumLine → Option String
  | literal name _ => some name
  | borrowed _ name => some name
  | _ => none

theorem EnumLine.map_qualify_written? (line : EnumLine) :
    line.written?.map qualify = line.entry?.map Prod.fst := by
  cases line <;> rfl

namespace EnumTable

/-- The names on the lines that belong to an API, as they are written. -/
def writtenNames (api : String) (lines : List EnumLine) : List String :=
  (owned lines).filterMap fun (owner, line) => if owner = some api then line.written? else none

theorem map_fst_entriesOf (api : String) (lines : List EnumLine) :
    (entriesOf api lines).map Prod.fst = (writtenNames api lines).map qualify := by
  rw [entriesOf, writtenNames, List.map_filterMap, List.map_filterMap]
  refine List.filterMap_congr fun entry _ => ?_
  dsimp only
  split
  · exact entry.2.map_qualify_written?.symm
  · rfl

/-- The names written in a spec are words. -/
theorem isWord_of_mem_writtenNames {source api name : String}
    (member : name ∈ writtenNames api (shapes source)) : isWord name.toList = true := by
  obtain ⟨⟨owner, line⟩, listed, gives⟩ := List.mem_filterMap.1 member
  have words := ofWords_of_mem_shapes (mem_of_mem_owned listed)
  dsimp only at gives
  split at gives
  · cases line with
    | literal name value =>
      cases gives
      exact words.1
    | borrowed api name =>
      cases gives
      exact words.2
    | passthru => cases gives
    | sectionOf api => cases gives
  · cases gives

/-- A section that is read has one enumerant for each name on its lines. -/
theorem keys_section_of_parse {source api : String} {names : OrderedMap String EnumValue}
    (held : (parse source).get? api = some names) :
    names.keys = (writtenNames api (shapes source)).eraseDups.map qualify := by
  rw [get?_parse] at held
  split at held
  · cases held
    rw [OrderedMap.keys_ofList, map_fst_entriesOf, OrderedMap.eraseDups_map qualify_injective]
  · cases held

theorem mem_keys_section_iff {source api : String} {names : OrderedMap String EnumValue}
    (held : (parse source).get? api = some names) (name : String) :
    name ∈ names.keys ↔ ∃ core ∈ writtenNames api (shapes source), qualify core = name := by
  rw [keys_section_of_parse held, List.mem_map]
  simp only [List.mem_eraseDups]

/-- What is left of a qualified name without its vendor suffix is in a section that is read only as
the name of a line without this suffix. -/
theorem exists_vendorForm_of_mem {source api : String} {names : OrderedMap String EnumValue}
    (held : (parse source).get? api = some names) {name stem : String}
    (stripped : stripVendorSuffix (qualify name) = some stem) (known : stem ∈ names.keys) :
    ∃ core ∈ writtenNames api (shapes source), isWord core.toList = true ∧
      IsVendorForm name core ∧ stem = qualify core := by
  obtain ⟨core, written, rfl⟩ := (mem_keys_section_iff held stem).1 known
  exact ⟨core, written, isWord_of_mem_writtenNames written,
    isVendorForm_of_stripVendorSuffix stripped, rfl⟩

/-- A value at the tier of the vendor suffix is the literal that the target gives to what is left of
the name without its suffix. -/
theorem held_of_vendorSuffix {table : EnumTable} {target name value source : String}
    (found : table.lookup target name = .resolved value .vendorSuffix source) :
    source = target ∧ ∃ stem, stripVendorSuffix name = some stem ∧
      table.value? target stem = some (.literal value) := by
  obtain ⟨outcome, rule⟩ := settles_total table target name
  rw [lookup_of_settles rule] at found
  subst found
  cases rule with
  | vendorSuffix _ shortened held => exact ⟨rfl, _, shortened, held⟩

/-- **Names stay apart.** Different names have different qualified names, so a section that is read
has one enumerant for each name on its lines. What is left of a qualified name without its vendor
suffix is in a section only as the qualified name of a word on one of its lines, and the name is
then this word with the suffix behind it. So a value at the tier of the vendor suffix is the literal
that the target gives to the name that is written without the suffix. -/
theorem qualified_names_stay_apart :
    Function.Injective qualify ∧
    ∀ (source api : String) (names : OrderedMap String EnumValue),
      (parse source).get? api = some names →
      names.keys = (writtenNames api (shapes source)).eraseDups.map qualify ∧
      (∀ name stem : String, stripVendorSuffix (qualify name) = some stem → stem ∈ names.keys →
        ∃ core ∈ writtenNames api (shapes source), isWord core.toList = true ∧
          IsVendorForm name core ∧ stem = qualify core) ∧
      (∀ name value origin : String,
        (parse source).lookup api (qualify name) = .resolved value .vendorSuffix origin →
        origin = api ∧ ∃ core ∈ writtenNames api (shapes source), isWord core.toList = true ∧
          IsVendorForm name core ∧ names.get? (qualify core) = some (.literal value)) := by
  refine ⟨qualify_injective, ?_⟩
  intro source api names held
  refine ⟨keys_section_of_parse held, fun _ _ => exists_vendorForm_of_mem held, ?_⟩
  intro name value origin found
  obtain ⟨same, stem, stripped, given⟩ := held_of_vendorSuffix found
  rw [Sections.value?, held, Option.bind_some] at given
  have known : stem ∈ names.keys := List.mem_map_of_mem (OrderedMap.mem_entries_iff.2 given)
  obtain ⟨core, written, word, form, rfl⟩ := exists_vendorForm_of_mem held stripped known
  exact ⟨same, core, written, word, form, given⟩

/-- Names that meet the vendor tokens and the platform namespaces: `WGL` is qualified and `WGL_ARB`
is not, so nothing is left of the latter that is in the section. -/
def crossedNames : String :=
  "A enum:\n\tWGL = 1\n\tWGL_ARB = 2\n\tARB = 3\n\t3DFX_ARB = 4\n"

/-- Names that are each other's prefixes and suffixes stay apart. -/
theorem crossed_names_stay_apart :
    ∃ names, (parse crossedNames).get? "A" = some names ∧
      names.keys = ["GL_WGL", "WGL_ARB", "GL_ARB", "GL_3DFX_ARB"] ∧
      stripVendorSuffix (qualify "WGL_ARB") = some "WGL" ∧ "WGL" ∉ names.keys ∧
      stripVendorSuffix (qualify "3DFX_ARB_EXT") = some "GL_3DFX_ARB" ∧
      "GL_3DFX_ARB" ∈ names.keys ∧
      (∃ core ∈ writtenNames "A" (shapes crossedNames), IsVendorForm "3DFX_ARB_EXT" core ∧
        "GL_3DFX_ARB" = qualify core) ∧
      (parse crossedNames).lookup "A" (qualify "3DFX_ARB_EXT") =
        .resolved "4" .vendorSuffix "A" ∧
      ∃ core ∈ writtenNames "A" (shapes crossedNames), IsVendorForm "3DFX_ARB_EXT" core ∧
        names.get? (qualify core) = some (.literal "4") := by
  have listed : ((parse crossedNames).get? "A").map OrderedMap.keys =
      some ["GL_WGL", "WGL_ARB", "GL_ARB", "GL_3DFX_ARB"] := by decide +kernel
  have stripped : stripVendorSuffix (qualify "3DFX_ARB_EXT") = some "GL_3DFX_ARB" := by decide
  have found : (parse crossedNames).lookup "A" (qualify "3DFX_ARB_EXT") =
      .resolved "4" .vendorSuffix "A" := by decide +kernel
  obtain ⟨names, held, keys⟩ := Option.map_eq_some_iff.1 listed
  have known : "GL_3DFX_ARB" ∈ names.keys := by simp [keys]
  have facts := qualified_names_stay_apart.2 crossedNames "A" names held
  obtain ⟨core, written, -, form, same⟩ := facts.2.1 "3DFX_ARB_EXT" "GL_3DFX_ARB" stripped known
  obtain ⟨-, other, writtenToo, -, formToo, given⟩ := facts.2.2 "3DFX_ARB_EXT" "4" "A" found
  exact ⟨names, held, keys, by decide, by simp [keys], stripped, known,
    ⟨core, written, form, same⟩, found, other, writtenToo, formToo, given⟩

end EnumTable

end ExtensionLoader
