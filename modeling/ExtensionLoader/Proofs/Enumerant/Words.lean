import ExtensionLoader.Proofs.Enumerant.Lookup
import ExtensionLoader.Proofs.Enumerant.Resolution
import ExtensionLoader.Proofs.Enumerant.Written

/-! # Tables of words

Everything that is read from an enumerant spec is a word: the APIs, the names and the literals. A
lookup finds nothing but literals, so resolving a table keeps its values words
(`EnumTable.ofWords_resolve`).
-/

namespace ExtensionLoader

open Text

/-- Sections of words, with values of some kind. -/
structure Sections.OfWords {α : Type} (valued : α → Prop) (table : Sections α) : Prop where
  apis : ∀ group ∈ table.entries, isWord group.1.toList = true
  names : ∀ group ∈ table.entries, ∀ entry ∈ group.2.entries, isWord entry.1.toList = true
  values : ∀ group ∈ table.entries, ∀ entry ∈ group.2.entries, valued entry.2

theorem isWord_qualify {name : String} (word : isWord name.toList = true) :
    isWord (qualify name).toList = true := by
  unfold qualify
  split
  · exact word
  · rw [String.toList_append]
    exact isWord_append (by decide) (isWord_iff.1 word).2

/-- A value that holds a word if it holds a text at all. -/
def EnumValue.OfWord (value : EnumValue) : Prop :=
  ∀ text, value = .literal text → isWord text.toList = true

namespace EnumTable

/-- A parsed table consists of words. -/
theorem ofWords_parse (source : String) : (parse source).OfWords EnumValue.OfWord := by
  have read {group : String × OrderedMap String EnumValue} (held : group ∈ (parse source).entries)
      {entry : String × EnumValue} (member : entry ∈ group.2.entries) :
      isWord entry.1.toList = true ∧ entry.2.OfWord := by
    obtain ⟨listed, named⟩ := giving_mem_shapes held member
    have words := ofWords_of_mem_shapes listed
    rw [← named]
    obtain ⟨name, value⟩ := entry
    cases value with
    | literal text =>
      refine ⟨isWord_qualify words.1, fun other same => ?_⟩
      cases same
      exact words.2
    | reference api => exact ⟨isWord_qualify words.2, fun other same => nomatch same⟩
  refine ⟨?_, fun _ held _ member => (read held member).1,
    fun _ held _ member => (read held member).2⟩
  intro group held
  exact ofWords_of_mem_shapes (sectionOf_mem_shapes (List.mem_map_of_mem held))

theorem mem_of_value? {table : EnumTable} {api name : String} {value : EnumValue}
    (held : table.value? api name = some value) :
    ∃ group ∈ table.entries, (name, value) ∈ group.2.entries := by
  obtain ⟨names, known, given⟩ := Option.bind_eq_some_iff.1 held
  exact ⟨(api, names), OrderedMap.mem_entries_iff.2 known, OrderedMap.mem_entries_iff.2 given⟩

/-- A reference is settled by literals of the table alone. -/
theorem Settles.literal {table : EnumTable} {target name value source : String} {tier : Tier}
    (rule : table.Settles target name (.resolved value tier source)) :
    ∃ group ∈ table.entries, ∃ known, (known, .literal value) ∈ group.2.entries := by
  have named {api known : String} (held : table.value? api known = some (.literal value)) :
      ∃ group ∈ table.entries, ∃ known, (known, .literal value) ∈ group.2.entries := by
    obtain ⟨group, listed, given⟩ := mem_of_value? held
    exact ⟨group, listed, known, given⟩
  cases rule with
  | direct held => exact named held
  | vendorSuffix _ _ held => exact named held
  | @global _ _ _ _ names _ place _ contributed =>
    have listed : (source, names) ∈ table.entries := by simp [place]
    cases contributed with
    | own held => exact ⟨_, listed, name, OrderedMap.mem_entries_iff.2 held.1⟩
    | short stem _ _ held => exact ⟨_, listed, stem, OrderedMap.mem_entries_iff.2 held.1⟩

/-- An entry of words is given a word. -/
theorem isWord_valueGiven {table : EnumTable} (words : table.OfWords EnumValue.OfWord)
    {group : String × OrderedMap String EnumValue} (held : group ∈ table.entries)
    {entry : String × EnumValue} (member : entry ∈ group.2.entries) :
    isWord (table.valueGiven entry.1 entry.2).toList = true := by
  obtain ⟨name, value⟩ := entry
  cases value with
  | literal text => exact words.values group held _ member text rfl
  | reference target =>
    obtain ⟨outcome, rule⟩ := settles_total table target name
    rw [valueGiven, lookup_of_settles rule]
    cases outcome with
    | resolved text tier source =>
      obtain ⟨other, listed, known, given⟩ := rule.literal
      exact words.values other listed _ given text rfl
    | unresolved reason =>
      have missing : isWord unresolvedValue.toList = true := by decide
      exact missing

/-- Settling a table of words gives a table of words. -/
theorem ofWords_settled {table : EnumTable} (words : table.OfWords EnumValue.OfWord) :
    table.settled.OfWords fun value => isWord value.toList = true := by
  refine ⟨?_, ?_, ?_⟩
  · intro group member
    obtain ⟨original, held, rfl⟩ := List.mem_map.1 member
    exact words.apis original held
  · intro group member entry inside
    obtain ⟨original, held, rfl⟩ := List.mem_map.1 member
    obtain ⟨given, listed, rfl⟩ := List.mem_map.1 inside
    exact words.names original held given listed
  · intro group member entry inside
    obtain ⟨original, held, rfl⟩ := List.mem_map.1 member
    obtain ⟨given, listed, rfl⟩ := List.mem_map.1 inside
    exact isWord_valueGiven words held listed

/-- A spec that is read and resolved is a table of words. -/
theorem ofWords_resolve (source : String) (found : Diagnostics) :
    ((parse source).resolve found).1.OfWords fun value => isWord value.toList = true := by
  rw [resolve_fst]
  exact ofWords_settled (ofWords_parse source)

end EnumTable

end ExtensionLoader
