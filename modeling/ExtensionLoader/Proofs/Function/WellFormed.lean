import ExtensionLoader.Proofs.Function.Blocks
import ExtensionLoader.Proofs.Function.TypeMap

/-! # What a function spec can put into a table

Categories and names are read as words, and so are the types that a type map translates. A table
that is read therefore has no empty group, its APIs and functions are named by words, and its types
stand on one line (`FunctionTable.wellFormed_parse`).
-/

namespace ExtensionLoader

open Text

namespace FunctionLine

/-- What a line names is a word; the type of a field may be missing. -/
def OfWords : FunctionLine → Prop
  | directive => True
  | header name => isWord name.toList = true
  | field _ value type _ => isWord value.toList = true ∧ (type = "" ∨ isWord type.toList = true)

/-- A field's key and value are words. -/
theorem ofWords_of_field? {key behind : List Char} {shape : FunctionLine}
    (read : field? key behind = some shape) : shape.OfWords := by
  unfold field? at read
  split at read
  · dsimp only at read
    split at read
    · cases read
    · rename_i given
      cases read
      have word := isWord_of_splitWord (List.isEmpty_eq_false_iff.1 (Bool.not_eq_true _ ▸ given))
      refine ⟨by rwa [String.toList_ofList], ?_⟩
      rw [String.toList_ofList]
      by_cases typed : (splitWord (trimStart (splitWord (trimStart behind)).2)).1 = []
      · exact .inl (by rw [typed])
      · exact .inr (isWord_of_splitWord typed)
  · cases read

/-- Whatever a line is, its names are words. -/
theorem ofWords_of_classify {line : List Char} {shape : FunctionLine}
    (classified : classify line = some shape) : shape.OfWords := by
  unfold classify at classified
  split at classified
  · cases classified
    trivial
  · dsimp only at classified
    split at classified
    · cases classified
    · rename_i given
      split at classified
      · cases classified
        have word := isWord_of_splitWord (List.isEmpty_eq_false_iff.1 (Bool.not_eq_true _ ▸ given))
        rwa [OfWords, String.toList_ofList]
      · exact ofWords_of_field? classified

end FunctionLine

theorem Dialect.isWord_functionPrefix_append (dialect : Dialect) {name : String}
    (word : isWord name.toList = true) :
    isWord (dialect.functionPrefix ++ name).toList = true := by
  rw [String.toList_append]
  cases dialect <;> exact isWord_append (by decide) (isWord_iff.1 word).2

/-- The section of a category is a word. -/
theorem Dialect.isWord_categoryName (dialect : Dialect) {category : String}
    (word : isWord category.toList = true) :
    isWord (dialect.categoryName category).toList = true := by
  unfold categoryName
  cases dialect with
  | core => exact word
  | wgl =>
    dsimp only [categoryPrefix]
    split
    · rw [String.toList_append]
      exact isWord_append (by decide) (isWord_iff.1 word).2
    · exact word
  | glx =>
    dsimp only [categoryPrefix]
    split
    · rw [String.toList_append]
      exact isWord_append (by decide) (isWord_iff.1 word).2
    · exact word

/-- A parameter whose name is a word and whose type takes one line. -/
structure Parameter.WellFormed (parameter : Parameter) : Prop where
  type : '\n' ∉ parameter.type.toList
  name : isWord parameter.name.toList = true

/-- A function whose name is a word and whose types take one line each. -/
structure FunctionRecord.WellFormed (record : FunctionRecord) : Prop where
  returnType : TypeMap.IsField record.returnType
  name : isWord record.name.toList = true
  parameters : ∀ parameter ∈ record.parameters, parameter.WellFormed

namespace FunctionTable

/-- The functions of an API: at least one. -/
structure GroupWellFormed (group : String × List FunctionRecord) : Prop where
  api : isWord group.1.toList = true
  nonempty : group.2 ≠ []
  records : ∀ record ∈ group.2, record.WellFormed

theorem not_mem_parameterType {types : TypeMap} (gives : types.GivesFields) {type : String}
    (word : isWord type.toList = true) (modifiers : List Char) :
    '\n' ∉ (parameterType types type modifiers).toList := by
  have named := (gives type (TypeMap.isField_of_isWord word)).noFeed
  unfold parameterType
  dsimp only
  split
  · split <;> simp [toString, named]
  · exact named

/-- A block comes from a header and lines of the spec. -/
theorem mem_of_mem_cutAtHeaders {lines : List FunctionLine} {block : String × List FunctionLine}
    (member : block ∈ cutAtHeaders lines) :
    .header block.1 ∈ lines ∧ ∀ line ∈ block.2, line ∈ lines := by
  induction lines with
  | nil => cases member
  | cons line rest ih =>
    cases line with
    | header name =>
      rcases List.mem_cons.1 member with rfl | later
      · exact ⟨List.mem_cons_self, fun other inside =>
          List.mem_cons_of_mem _ (List.takeWhile_subset _ inside)⟩
      · exact ⟨List.mem_cons_of_mem _ (ih later).1, fun other inside =>
          List.mem_cons_of_mem _ ((ih later).2 other inside)⟩
    | directive =>
      exact ⟨List.mem_cons_of_mem _ (ih member).1, fun other inside =>
        List.mem_cons_of_mem _ ((ih member).2 other inside)⟩
    | field key value type modifiers =>
      exact ⟨List.mem_cons_of_mem _ (ih member).1, fun other inside =>
        List.mem_cons_of_mem _ ((ih member).2 other inside)⟩

/-- A field of a block consists of words. -/
theorem field_of_mem {key : String} {block : List FunctionLine} {field : Field}
    (words : ∀ line ∈ block, line.OfWords) (member : field ∈ block.filterMap (field? key)) :
    isWord field.value.toList = true ∧ (field.type = "" ∨ isWord field.type.toList = true) := by
  obtain ⟨line, listed, read⟩ := List.mem_filterMap.1 member
  cases line with
  | directive => cases read
  | header name => cases read
  | field known value type modifiers =>
    rw [field?] at read
    split at read
    · cases read
      exact words _ listed
    · cases read

/-- A block of words gives a well-formed function. -/
theorem wellFormed_recordOf (dialect : Dialect) {types : TypeMap} (gives : types.GivesFields)
    {name : String} (word : isWord name.toList = true) {block : List FunctionLine}
    (words : ∀ line ∈ block, line.OfWords) : (recordOf dialect types name block).WellFormed where
  returnType := by
    rw [recordOf, returnTypeOf]
    cases last : (block.filterMap (field? "return")).getLast? with
    | none => exact TypeMap.isField_of_isWord (show isWord voidType.toList = true by decide)
    | some field =>
      exact gives _ (TypeMap.isField_of_isWord (field_of_mem words (List.mem_of_getLast? last)).1)
  name := by
    rw [recordOf, ← functionPrefix_append]
    exact dialect.isWord_functionPrefix_append word
  parameters := by
    intro parameter member
    obtain ⟨field, listed, rfl⟩ := List.mem_map.1 member
    obtain ⟨named, typed⟩ := field_of_mem words listed
    refine ⟨?_, named⟩
    dsimp only
    rcases typed with missing | typed
    · rw [if_pos missing]
      exact List.not_mem_nil
    · rw [if_neg]
      · exact not_mem_parameterType gives typed field.modifiers
      · intro missing
        rw [missing] at typed
        cases typed

theorem isWord_categoryOf {dialect : Dialect} {block : List FunctionLine} {category : String}
    (words : ∀ line ∈ block, line.OfWords) (given : categoryOf dialect block = some category) :
    isWord category.toList = true := by
  obtain ⟨field, last, rfl⟩ := Option.map_eq_some_iff.1 given
  rw [← categoryName_eq]
  exact dialect.isWord_categoryName (field_of_mem words (List.mem_of_getLast? last)).1

theorem ofWords_of_mem_shapes {source : String} : ∀ line ∈ shapes source, line.OfWords := by
  intro line member
  obtain ⟨own, -, classified⟩ := List.mem_filterMap.1 member
  exact FunctionLine.ofWords_of_classify classified

/-- What is kept of a spec is a category and a function of words. -/
theorem wellFormed_of_mem_kept {dialect : Dialect} {types : TypeMap} (gives : types.GivesFields)
    {source : String} {filed : String × FunctionRecord}
    (member : filed ∈ kept dialect types (cutAtHeaders (shapes source))) :
    isWord filed.1.toList = true ∧ filed.2.WellFormed := by
  obtain ⟨category, record⟩ := filed
  obtain ⟨name, block, last, given, rfl⟩ := mem_kept_iff.1 member
  obtain ⟨header, inside⟩ := mem_of_mem_cutAtHeaders (mem_of_lastBlock? last)
  have words : ∀ line ∈ block, line.OfWords := fun line listed =>
    ofWords_of_mem_shapes line (inside line listed)
  exact ⟨isWord_categoryOf words given,
    wellFormed_recordOf dialect gives (ofWords_of_mem_shapes _ header) words⟩

/-- **The groups of a table that is read.** No group is empty, and what names APIs and functions
are words. -/
theorem wellFormed_parse (source : String) {types : TypeMap} (gives : types.GivesFields) :
    ∀ group ∈ (parse source types).entries, GroupWellFormed group := by
  rintro ⟨api, records⟩ member
  rw [parse_eq_collect] at member
  obtain ⟨nonempty, given⟩ := OrderedMap.mem_entries_collect member
  obtain ⟨record, inside⟩ := List.exists_mem_of_ne_nil records nonempty
  exact ⟨(wellFormed_of_mem_kept gives (given record inside)).1, nonempty,
    fun other listed => (wellFormed_of_mem_kept gives (given other listed)).2⟩

/-- Each function of a table that is read is named in the dialect of the spec. -/
theorem startsWith_functionPrefix_of_parse (source : String) (types : TypeMap) :
    ∀ group ∈ (parse source types).entries, ∀ record ∈ group.2,
      (dialectOf source).functionPrefix.toList <+: record.name.toList := by
  rintro ⟨api, records⟩ member record inside
  rw [parse_eq_collect] at member
  obtain ⟨-, given⟩ := OrderedMap.mem_entries_collect member
  obtain ⟨name, block, -, -, rfl⟩ := mem_kept_iff.1 (given record inside)
  rw [recordOf, ← functionPrefix_append, String.toList_append]
  exact List.prefix_append _ _

end FunctionTable

end ExtensionLoader
