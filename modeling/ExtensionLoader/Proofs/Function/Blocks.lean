import ExtensionLoader.Function.Spec
import ExtensionLoader.Proofs.Function.Naming
import ExtensionLoader.Proofs.OrderedMap

/-! # The blocks of a function spec

The reader of a function spec keeps one block for each function and changes the one that
is open. What it has in the end can be said without it: cut the lines at the headers
(`FunctionTable.cutAtHeaders`), and of several blocks under one name take the last one,
at the place of the first (`FunctionTable.blocks_eq_ofList`). The functions whose last
block has a category are filed under it, in that order
(`FunctionTable.parse_eq_collect`).
-/

namespace ExtensionLoader

/-- Whether the line opens a function. -/
def FunctionLine.isHeader : FunctionLine → Bool
  | header _ => true
  | _ => false

/-- Whether a line can count: as a header, or as a field of a key that blocks have. -/
def FunctionLine.counts : FunctionLine → Bool
  | directive => false
  | header _ => true
  | field key _ _ _ => key ∈ ["category", "return", "param"]

namespace FunctionTable

/-- The lines of a source that have a shape, in order. -/
def shapes (source : String) : List FunctionLine :=
  (Spec.cleanedLines source).filterMap FunctionLine.classify

/-- The name of each header with the lines up to the next header. Lines before the first
header belong to no block. -/
def cutAtHeaders : List FunctionLine → List (String × List FunctionLine)
  | [] => []
  | .header name :: rest => (name, rest.takeWhile fun line => !line.isHeader) :: cutAtHeaders rest
  | _ :: rest => cutAtHeaders rest

/-- The lines of a source from the first header on, without the directives and the fields of
other keys. -/
def countingLines (source : String) : List FunctionLine :=
  ((shapes source).dropWhile fun line => !line.isHeader).filter FunctionLine.counts

/-- The last block under a name. -/
def lastBlock? (cut : List (String × List FunctionLine)) (name : String) :
    Option (List FunctionLine) :=
  (cut.filter fun block => block.1 = name).getLast?.map Prod.snd

/-- A field without its key. -/
structure Field where
  value : String
  type : String
  modifiers : List Char

/-- The field of a key that a line gives. -/
def field? (key : String) : FunctionLine → Option Field
  | .field known value type modifiers =>
    if known = key then some ⟨value, type, modifiers⟩ else none
  | _ => none

/-- The category of a block: the last one that it gives. -/
def categoryOf (dialect : Dialect) (block : List FunctionLine) : Option String :=
  (block.filterMap (field? "category")).getLast?.map fun field => filedUnder dialect field.value

/-- The return type of a block: the last one that it gives. -/
def returnTypeOf (types : TypeMap) (block : List FunctionLine) : Option String :=
  (block.filterMap (field? "return")).getLast?.map fun field => types.translate field.value

/-- The parameters of a block; a field without a type gives one without a type. -/
def parametersOf (types : TypeMap) (block : List FunctionLine) : List Parameter :=
  (block.filterMap (field? "param")).map fun field =>
    ⟨if field.type = "" then "" else parameterType types field.type field.modifiers, field.value⟩

/-- The function that the block under a name declares. -/
def recordOf (dialect : Dialect) (types : TypeMap) (name : String) (block : List FunctionLine) :
    FunctionRecord where
  returnType := (returnTypeOf types block).getD "GLvoid"
  name := functionName dialect name
  parameters := parametersOf types block

/-- The functions that are kept, each with its category: those whose last block has a
category, in the order of their first headers. -/
def kept (dialect : Dialect) (types : TypeMap) (cut : List (String × List FunctionLine)) :
    List (String × FunctionRecord) :=
  (cut.map Prod.fst).eraseDups.filterMap fun name =>
    (lastBlock? cut name).bind fun block =>
      (categoryOf dialect block).map fun category =>
        (category, recordOf dialect types name block)

/-- Read one line that has a shape. -/
def Reading.take (dialect : Dialect) (types : TypeMap) (reading : Reading) :
    FunctionLine → Reading
  | .directive => reading
  | .header name =>
    ⟨reading.blocks.insert (dialect.functionPrefix ++ name) {},
      some (dialect.functionPrefix ++ name)⟩
  | .field key value type modifiers =>
    match reading.current with
    | some name =>
      { reading with
        blocks := reading.blocks.alter name fun block =>
          (block.getD {}).add dialect types key value type modifiers }
    | none => reading

/-- A line acts on the reading through what it is. -/
theorem step_eq_take (dialect : Dialect) (types : TypeMap) (reading : Reading)
    (line : List Char) :
    reading.step dialect types line =
      match FunctionLine.classify line with
      | some shape => reading.take dialect types shape
      | none => reading := by
  unfold Reading.step
  cases FunctionLine.classify line with
  | none => rfl
  | some shape =>
    cases shape with
    | directive => rfl
    | header name => rfl
    | field key value type modifiers =>
      obtain ⟨blocks, current⟩ := reading
      cases current <;> rfl

theorem blocks_eq_foldl_take (source : String) (types : TypeMap) :
    blocks source types =
      ((shapes source).foldl (Reading.take (dialectOf source) types) ⟨.empty, none⟩).blocks := by
  rw [blocks, shapes, List.foldl_filterMap]
  congr 1
  congr 1
  funext reading line
  rw [step_eq_take]
  cases FunctionLine.classify line <;> rfl

/-- What a line adds to the open function. -/
def addLine (dialect : Dialect) (types : TypeMap) (block : FunctionBlock) :
    FunctionLine → FunctionBlock
  | .field key value type modifiers => block.add dialect types key value type modifiers
  | _ => block

/-- The blocks of a cut, put in one after the other. -/
def putIn (dialect : Dialect) (types : TypeMap) (blocks : OrderedMap String FunctionBlock)
    (block : String × List FunctionLine) : OrderedMap String FunctionBlock :=
  blocks.insert (dialect.functionPrefix ++ block.1) (block.2.foldl (addLine dialect types) {})

/-- While a block is open, each line changes it alone, up to the next header. -/
theorem foldl_take_of_open (dialect : Dialect) (types : TypeMap) (lines : List FunctionLine)
    (blocks : OrderedMap String FunctionBlock) (name : String) (block : FunctionBlock) :
    (lines.foldl (Reading.take dialect types) ⟨blocks.insert name block, some name⟩).blocks =
      (cutAtHeaders lines).foldl (putIn dialect types)
        (blocks.insert name
          ((lines.takeWhile fun line => !line.isHeader).foldl (addLine dialect types) block)) := by
  induction lines generalizing blocks name block with
  | nil => rfl
  | cons line rest ih =>
    cases line with
    | directive => exact ih blocks name block
    -- The open block is put in as it is, also when the header opens the same name again.
    | header next => exact ih (blocks.insert name block) (dialect.functionPrefix ++ next) {}
    | field key value type modifiers =>
      rw [List.foldl_cons, Reading.take]
      dsimp only
      rw [OrderedMap.alter_insert]
      exact ih blocks name (block.add dialect types key value type modifiers)

/-- Lines are taken block by block, what stands before the first header apart. -/
theorem foldl_take (dialect : Dialect) (types : TypeMap) (lines : List FunctionLine)
    (blocks : OrderedMap String FunctionBlock) :
    (lines.foldl (Reading.take dialect types) ⟨blocks, none⟩).blocks =
      (cutAtHeaders lines).foldl (putIn dialect types) blocks := by
  induction lines with
  | nil => rfl
  | cons line rest ih =>
    cases line with
    | directive => exact ih
    | header name =>
      exact foldl_take_of_open dialect types rest blocks (dialect.functionPrefix ++ name) {}
    | field key value type modifiers => exact ih

private theorem getLast?_filterMap_cons {α β : Type} (read : α → Option β) (line : α)
    (rest : List α) : ((line :: rest).filterMap read).getLast? =
      (rest.filterMap read).getLast?.or (read line) := by
  cases given : read line with
  | none => simp [given]
  | some value =>
    rw [List.filterMap_cons_some given, List.getLast?_cons]
    cases (rest.filterMap read).getLast? <;> rfl

/-- A line adds what it would be alone. -/
theorem add_eq (dialect : Dialect) (types : TypeMap) (block : FunctionBlock)
    (line : FunctionLine) :
    addLine dialect types block line =
      { category := (categoryOf dialect [line]).or block.category
        returnType := (returnTypeOf types [line]).or block.returnType
        parameters := block.parameters ++ parametersOf types [line] } := by
  cases line with
  | directive =>
    have none : parametersOf types [.directive] = [] := rfl
    rw [none, List.append_nil]
    rfl
  | header name =>
    have none : parametersOf types [.header name] = [] := rfl
    rw [none, List.append_nil]
    rfl
  | field key value type modifiers =>
    unfold addLine FunctionBlock.add
    by_cases category : key = "category"
    · subst category
      simp [categoryOf, returnTypeOf, parametersOf, field?, categoryName_eq]
    · by_cases returned : key = "return"
      · subst returned
        simp [categoryOf, returnTypeOf, parametersOf, field?]
      · by_cases parameter : key = "param"
        · subst parameter
          by_cases untyped : type = "" <;>
            simp [categoryOf, returnTypeOf, parametersOf, field?, untyped]
        · simp [categoryOf, returnTypeOf, parametersOf, field?, category, returned, parameter]

/-- A block's lines together give it its category, return type and parameters. -/
theorem foldl_addLine (dialect : Dialect) (types : TypeMap) (lines : List FunctionLine)
    (block : FunctionBlock) :
    lines.foldl (addLine dialect types) block =
      { category := (categoryOf dialect lines).or block.category
        returnType := (returnTypeOf types lines).or block.returnType
        parameters := block.parameters ++ parametersOf types lines } := by
  induction lines generalizing block with
  | nil => simp [categoryOf, returnTypeOf, parametersOf]
  | cons line rest ih =>
    have category : categoryOf dialect (line :: rest) =
        (categoryOf dialect rest).or (categoryOf dialect [line]) := by
      simp only [categoryOf, getLast?_filterMap_cons _ line, List.filterMap_nil, List.getLast?_nil,
        Option.none_or, Option.map_or]
    have returned : returnTypeOf types (line :: rest) =
        (returnTypeOf types rest).or (returnTypeOf types [line]) := by
      simp only [returnTypeOf, getLast?_filterMap_cons _ line, List.filterMap_nil,
        List.getLast?_nil, Option.none_or, Option.map_or]
    have parameters : parametersOf types (line :: rest) =
        parametersOf types [line] ++ parametersOf types rest := by
      simp only [parametersOf, ← List.map_append, ← List.filterMap_append, List.singleton_append]
    rw [List.foldl_cons, ih, add_eq, category, returned, parameters, Option.or_assoc,
      Option.or_assoc, List.append_assoc]

/-- The blocks of a spec, a later one of a name in place of the earlier. -/
theorem blocks_eq_ofList (source : String) (types : TypeMap) :
    blocks source types = .ofList ((cutAtHeaders (shapes source)).map fun block =>
      ((dialectOf source).functionPrefix ++ block.1,
        { category := categoryOf (dialectOf source) block.2
          returnType := returnTypeOf types block.2
          parameters := parametersOf types block.2 })) := by
  rw [blocks_eq_foldl_take, foldl_take, OrderedMap.ofList, List.foldl_map]
  congr 1
  funext blocks block
  rw [putIn, foldl_addLine]
  simp only [Option.or_none, List.nil_append]

private theorem eraseDups_map_append (lead : String) (names : List String) :
    (names.map fun name => lead ++ name).eraseDups =
      names.eraseDups.map fun name => lead ++ name := by
  induction names using List.reverseRecOn with
  | nil => rfl
  | append_singleton names name ih =>
    rw [List.map_append, List.map_singleton, List.eraseDups_append, List.eraseDups_append, ih]
    by_cases known : name ∈ names <;> simp [List.removeAll, List.eraseDups_cons, known]

theorem keys_blocks (source : String) (types : TypeMap) :
    (blocks source types).keys = ((cutAtHeaders (shapes source)).map Prod.fst).eraseDups.map
      fun name => (dialectOf source).functionPrefix ++ name := by
  rw [blocks_eq_ofList, OrderedMap.keys_ofList, ← eraseDups_map_append, List.map_map,
    List.map_map]
  rfl

theorem get?_blocks (source : String) (types : TypeMap) (name : String) :
    (blocks source types).get? ((dialectOf source).functionPrefix ++ name) =
      (lastBlock? (cutAtHeaders (shapes source)) name).map fun block =>
        { category := categoryOf (dialectOf source) block
          returnType := returnTypeOf types block
          parameters := parametersOf types block } := by
  rw [blocks_eq_ofList, OrderedMap.get?_ofList, List.filter_map, List.getLast?_map,
    Option.map_map, lastBlock?, Option.map_map]
  simp only [Function.comp_def, String.append_right_inj]

/-- The category of a named block with the function that it declares, if it has one. -/
def filed? (entry : String × FunctionBlock) : Option (String × FunctionRecord) :=
  entry.2.category.map fun category =>
    (category, ⟨entry.2.returnType.getD voidType, entry.1, entry.2.parameters⟩)

/-- The table collects the blocks that have a category. -/
theorem parse_eq_collect_filed (source : String) (types : TypeMap) :
    parse source types = .collect ((blocks source types).entries.filterMap filed?) := by
  rw [parse, OrderedMap.collect, List.foldl_filterMap]
  congr 1
  funext table entry
  obtain ⟨name, block⟩ := entry
  change table.file name block = _
  unfold file filed?
  cases given : block.category with
  | none => rfl
  | some category => rfl

/-- The table collects the functions that are kept. -/
theorem parse_eq_collect (source : String) (types : TypeMap) :
    parse source types =
      .collect (kept (dialectOf source) types (cutAtHeaders (shapes source))) := by
  rw [parse_eq_collect_filed, OrderedMap.entries_eq_filterMap_keys, keys_blocks,
    List.filterMap_filterMap, List.filterMap_map, kept]
  congr 1
  congr 1
  funext name
  dsimp only [Function.comp_apply]
  rw [get?_blocks]
  cases lastBlock? (cutAtHeaders (shapes source)) name with
  | none => rfl
  | some block =>
    simp only [Option.map_some, Option.bind_some, filed?, recordOf, voidType,
      functionPrefix_append]

/-- The functions that have a category keep their order. -/
private theorem sublist_map_filed? (entries : List (String × FunctionBlock)) :
    ((entries.filterMap filed?).map fun filed => filed.2.name).Sublist
      (entries.map Prod.fst) := by
  induction entries with
  | nil => exact .refl _
  | cons entry rest ih =>
    obtain ⟨name, block⟩ := entry
    cases given : block.category with
    | none =>
      have dropped : filed? (name, block) = none := by rw [filed?, given, Option.map_none]
      rw [List.filterMap_cons_none dropped, List.map_cons]
      exact ih.cons name
    | some category =>
      have filed : filed? (name, block) = some
          (category, ⟨block.returnType.getD voidType, name, block.parameters⟩) := by
        rw [filed?, given, Option.map_some]
      rw [List.filterMap_cons_some filed, List.map_cons, List.map_cons]
      exact ih.cons_cons name

/-- No function stands in a table twice, not even under different categories. -/
theorem nodup_names_parse (source : String) (types : TypeMap) :
    ((parse source types).values.flatten.map FunctionRecord.name).Nodup := by
  rw [parse_eq_collect_filed]
  have names := (OrderedMap.perm_flatten_values_collect
    ((blocks source types).entries.filterMap filed?)).map FunctionRecord.name
  rw [List.map_map] at names
  exact names.nodup_iff.2
    ((blocks source types).nodup.sublist (sublist_map_filed? (blocks source types).entries))

theorem mem_of_lastBlock? {cut : List (String × List FunctionLine)} {name : String}
    {block : List FunctionLine} (last : lastBlock? cut name = some block) :
    (name, block) ∈ cut := by
  obtain ⟨entry, found, same⟩ := Option.map_eq_some_iff.1 last
  have member := List.mem_filter.1 (List.mem_of_getLast? found)
  obtain ⟨known, lines⟩ := entry
  cases same
  cases of_decide_eq_true member.2
  exact member.1

/-- A function is kept exactly if the last block under its name has a category. -/
theorem mem_kept_iff {dialect : Dialect} {types : TypeMap}
    {cut : List (String × List FunctionLine)} {category : String} {record : FunctionRecord} :
    (category, record) ∈ kept dialect types cut ↔
      ∃ name block, lastBlock? cut name = some block ∧
        categoryOf dialect block = some category ∧
        record = recordOf dialect types name block := by
  unfold kept
  rw [List.mem_filterMap]
  constructor
  · rintro ⟨name, _, filed⟩
    obtain ⟨block, last, filed⟩ := Option.bind_eq_some_iff.1 filed
    obtain ⟨known, given, same⟩ := Option.map_eq_some_iff.1 filed
    cases same
    exact ⟨name, block, last, given, rfl⟩
  · rintro ⟨name, block, last, given, rfl⟩
    have member : name ∈ (cut.map Prod.fst).eraseDups :=
      List.mem_eraseDups.2 (List.mem_map.2 ⟨_, mem_of_lastBlock? last, rfl⟩)
    refine ⟨name, member, ?_⟩
    rw [last, Option.bind_some, given, Option.map_some]

/-- The only block of a function is its last. -/
theorem lastBlock?_of_mem {cut : List (String × List FunctionLine)}
    (distinct : (cut.map Prod.fst).Nodup) {block : String × List FunctionLine}
    (member : block ∈ cut) : lastBlock? cut block.1 = some block.2 := by
  have own : block ∈ cut.filter fun other => other.1 = block.1 :=
    List.mem_filter.2 ⟨member, decide_eq_true rfl⟩
  cases last : (cut.filter fun other => other.1 = block.1).getLast? with
  | none =>
    rw [List.getLast?_eq_none_iff] at last
    rw [last] at own
    cases own
  | some other =>
    obtain ⟨present, named⟩ := List.mem_filter.1 (List.mem_of_getLast? last)
    have same : other = block :=
      List.inj_on_of_nodup_map distinct present member (of_decide_eq_true named)
    rw [lastBlock?, last, same, Option.map_some]

/-- Blocks of different names are kept each for itself. -/
theorem kept_of_nodup (dialect : Dialect) (types : TypeMap)
    {cut : List (String × List FunctionLine)} (distinct : (cut.map Prod.fst).Nodup) :
    kept dialect types cut = cut.filterMap fun block =>
      (categoryOf dialect block.2).map fun category =>
        (category, recordOf dialect types block.1 block.2) := by
  rw [kept, OrderedMap.eraseDups_of_nodup distinct, List.filterMap_map]
  refine List.filterMap_congr fun block member => ?_
  rw [Function.comp_apply, lastBlock?_of_mem distinct member, Option.bind_some]

theorem cutAtHeaders_dropWhile (lines : List FunctionLine) :
    cutAtHeaders (lines.dropWhile fun line => !line.isHeader) = cutAtHeaders lines := by
  induction lines with
  | nil => rfl
  | cons line rest ih =>
    cases line with
    | header name => rfl
    | directive => exact ih
    | field key value type modifiers => exact ih

private theorem takeWhile_filter_counts (lines : List FunctionLine) :
    ((lines.filter FunctionLine.counts).takeWhile fun line => !line.isHeader) =
      (lines.takeWhile fun line => !line.isHeader).filter FunctionLine.counts := by
  rw [List.takeWhile_filter]
  congr 2
  funext line
  cases line with
  | header name => rfl
  | directive => rfl
  | field key value type modifiers => exact Bool.or_true _

/-- Lines that count for nothing can be dropped from the blocks. -/
theorem cutAtHeaders_filter_counts (lines : List FunctionLine) :
    cutAtHeaders (lines.filter FunctionLine.counts) =
      (cutAtHeaders lines).map fun block => (block.1, block.2.filter FunctionLine.counts) := by
  induction lines with
  | nil => rfl
  | cons line rest ih =>
    cases line with
    | directive => exact ih
    | header name =>
      rw [List.filter_cons_of_pos rfl, cutAtHeaders, cutAtHeaders, List.map_cons, ih,
        takeWhile_filter_counts]
    | field key value type modifiers =>
      by_cases known : FunctionLine.counts (.field key value type modifiers) = true
      · rw [List.filter_cons_of_pos known, cutAtHeaders, cutAtHeaders, ih] <;> simp
      · rw [List.filter_cons_of_neg known, cutAtHeaders, ih]
        simp

/-- Lines that count for nothing hold none of the known fields. -/
private theorem filterMap_field?_filter_counts {key : String}
    (known : key ∈ ["category", "return", "param"]) (block : List FunctionLine) :
    (block.filter FunctionLine.counts).filterMap (field? key) =
      block.filterMap (field? key) := by
  rw [List.filterMap_filter]
  congr 1
  funext line
  cases line with
  | directive => rfl
  | header name => rfl
  | field given value type modifiers =>
    by_cases same : given = key
    · subst same
      rw [if_pos]
      exact decide_eq_true known
    · simp [field?, same]

/-- Blocks count by what they give alone. -/
theorem kept_map_blocks (dialect : Dialect) (types : TypeMap)
    (cut : List (String × List FunctionLine)) {change : List FunctionLine → List FunctionLine}
    (category : ∀ block, categoryOf dialect (change block) = categoryOf dialect block)
    (record : ∀ name block,
      recordOf dialect types name (change block) = recordOf dialect types name block) :
    kept dialect types (cut.map fun block => (block.1, change block.2)) =
      kept dialect types cut := by
  have last (name : String) :
      lastBlock? (cut.map fun block => (block.1, change block.2)) name =
        (lastBlock? cut name).map change := by
    simp only [lastBlock?, List.filter_map, List.getLast?_map, Option.map_map, Function.comp_def]
  rw [kept, List.map_map, kept]
  congr 1
  funext name
  rw [last]
  cases lastBlock? cut name with
  | none => rfl
  | some block => simp only [Option.map_some, Option.bind_some, category, record]

theorem kept_filter_counts (dialect : Dialect) (types : TypeMap)
    (cut : List (String × List FunctionLine)) :
    kept dialect types (cut.map fun block => (block.1, block.2.filter FunctionLine.counts)) =
      kept dialect types cut := by
  refine kept_map_blocks dialect types cut (fun block => ?_) fun name block => ?_
  · rw [categoryOf, filterMap_field?_filter_counts (by decide), categoryOf]
  · rw [recordOf, returnTypeOf, parametersOf, filterMap_field?_filter_counts (by decide),
      filterMap_field?_filter_counts (by decide), recordOf, returnTypeOf, parametersOf]

theorem kept_countingLines (source : String) (types : TypeMap) :
    kept (dialectOf source) types (cutAtHeaders (countingLines source)) =
      kept (dialectOf source) types (cutAtHeaders (shapes source)) := by
  rw [countingLines, cutAtHeaders_filter_counts, cutAtHeaders_dropWhile, kept_filter_counts]

/-- **The table of a function spec.** Each name counts with its last block alone, at the
place of its first header; the functions whose last block has a category are filed under it
in that order, the categories stand in the order of their first functions, and no function
stands in the table twice. Fields before the first header, directives and fields of other
keys change nothing. -/
theorem parse_files_last_blocks (source : String) (types : TypeMap) :
    let cut := cutAtHeaders (shapes source)
    let functions := kept (dialectOf source) types cut
    (parse source types).keys = (functions.map Prod.fst).eraseDups ∧
    (∀ category, (parse source types).get? category =
      if category ∈ functions.map Prod.fst then
        some ((functions.filter fun filed => filed.1 = category).map Prod.snd)
      else none) ∧
    ((parse source types).values.flatten.map FunctionRecord.name).Nodup ∧
    (∀ category record,
      (∃ records, (parse source types).get? category = some records ∧ record ∈ records) ↔
      ∃ name block, lastBlock? cut name = some block ∧
        categoryOf (dialectOf source) block = some category ∧
        record = recordOf (dialectOf source) types name block) ∧
    kept (dialectOf source) types (cutAtHeaders (countingLines source)) = functions := by
  intro cut functions
  refine ⟨?_, ?_, nodup_names_parse source types, ?_, kept_countingLines source types⟩
  · rw [parse_eq_collect, OrderedMap.keys_collect]
  · intro category
    rw [parse_eq_collect, OrderedMap.get?_collect]
  · intro category record
    rw [parse_eq_collect, OrderedMap.mem_collect_iff, mem_kept_iff]

/-- A spec that opens one function again, between one without a category and one of no vendor. -/
def reopenedSpec : String :=
  "# GLX\nFree(x)\n\tcategory SGIX\n\tparam x Int32 in\nLost()\nQuery()\n\tcategory SGIVERSION\n" ++
    "Free()\n\tcategory ARB\n\tcategory SGI_video\n\tparam y Int32 out array\n"

/-- Its last block decides about a function that is opened twice, its first header about its place.
A category that only begins like a vendor token is not one of a vendor. -/
theorem parse_files_reopened_header :
    let table := parse reopenedSpec (.ofList [("Int32", "int")])
    table.keys = ["GLX_SGI_video", "SGIVERSION"] ∧
      table.get? "GLX_SGI_video" = some [⟨"GLvoid", "glXFree", [⟨"int*", "y"⟩]⟩] ∧
      table.get? "SGIVERSION" = some [⟨"GLvoid", "glXQuery", []⟩] ∧
      table.get? "GLX_SGIX" = none := by
  intro table
  obtain ⟨keys, groups, -⟩ := parse_files_last_blocks reopenedSpec (.ofList [("Int32", "int")])
  have functions : kept (dialectOf reopenedSpec) (.ofList [("Int32", "int")])
      (cutAtHeaders (shapes reopenedSpec)) =
        [("GLX_SGI_video", ⟨"GLvoid", "glXFree", [⟨"int*", "y"⟩]⟩),
          ("SGIVERSION", ⟨"GLvoid", "glXQuery", []⟩)] := by
    decide +kernel
  rw [functions] at keys
  simp only [functions] at groups
  exact ⟨keys.trans (by decide), (groups _).trans (by decide), (groups _).trans (by decide),
    (groups _).trans (by decide)⟩

end FunctionTable

end ExtensionLoader
