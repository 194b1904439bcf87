import ExtensionLoader.Enumerant.Spec
import ExtensionLoader.Proofs.OrderedMap

/-! # The sections of an enumerant spec

The reader of an enumerant spec changes the section that is open. What it has in the end can
be said line by line: a line belongs to the API on the latest section line before it
(`EnumTable.owned`), wherever sections are opened again. The APIs are those on the section
lines, in the order of their first ones, and an API has the enumerants of its own lines: each
name at the place of its first line and with the value of its last one
(`EnumTable.parse_groups_by_latest_section`).
-/

namespace ExtensionLoader

namespace EnumLine

/-- The API whose section a line opens. -/
def opens? : EnumLine → Option String
  | sectionOf api => some api
  | _ => none

/-- The enumerant that a line gives, under its qualified name. -/
def entry? : EnumLine → Option (String × EnumValue)
  | literal name value => some (qualify name, .literal value)
  | borrowed api name => some (qualify name, .reference api)
  | _ => none

end EnumLine

namespace EnumTable

/-- The lines of a source that have a shape, in order. -/
def shapes (source : String) : List EnumLine :=
  (Spec.cleanedLines source).filterMap EnumLine.classify

/-- The names on the section lines. -/
def sectionNames (lines : List EnumLine) : List String := lines.filterMap EnumLine.opens?

/-- The section that is open behind the lines. -/
def latestSection (lines : List EnumLine) : Option String := (sectionNames lines).getLast?

/-- Each line behind the API on the latest section line before it. -/
def owned (lines : List EnumLine) : List (Option String × EnumLine) :=
  lines.zipIdx.map fun (line, place) => (latestSection (lines.take place), line)

/-- The enumerants of the lines that belong to an API. -/
def entriesOf (api : String) (lines : List EnumLine) : List (String × EnumValue) :=
  (owned lines).filterMap fun (owner, line) => if owner = some api then line.entry? else none

/-- The lines without those that can only count for other APIs: the section lines, and the
enumerants of an API. -/
def linesFor (api : String) (lines : List EnumLine) : List EnumLine :=
  ((owned lines).filter fun (owner, line) =>
    line.opens?.isSome || (owner = some api && line.entry?.isSome)).map Prod.snd

theorem sectionNames_append_singleton (lines : List EnumLine) (line : EnumLine) :
    sectionNames (lines ++ [line]) = sectionNames lines ++ line.opens?.toList := by
  rw [sectionNames, List.filterMap_append, sectionNames]
  cases opened : line.opens? <;> simp [opened]

theorem latestSection_append_singleton (lines : List EnumLine) (line : EnumLine) :
    latestSection (lines ++ [line]) = line.opens?.or (latestSection lines) := by
  rw [latestSection, sectionNames_append_singleton, List.getLast?_append, latestSection]
  cases line.opens? <;> rfl

/-- A line belongs to the section that is open before it. -/
theorem owned_append_singleton (lines : List EnumLine) (line : EnumLine) :
    owned (lines ++ [line]) = owned lines ++ [(latestSection lines, line)] := by
  have before : ∀ entry ∈ lines.zipIdx,
      (latestSection ((lines ++ [line]).take entry.2), entry.1) =
        (latestSection (lines.take entry.2), entry.1) := by
    intro entry member
    have bound : entry.2 < lines.length := by
      have bound := List.snd_lt_of_mem_zipIdx member
      omega
    rw [List.take_append_of_le_length (Nat.le_of_lt bound)]
  rw [owned, List.zipIdx_append, List.map_append, List.map_congr_left before, owned]
  simp

theorem mem_of_mem_owned {lines : List EnumLine} {owner : Option String} {line : EnumLine}
    (listed : (owner, line) ∈ owned lines) : line ∈ lines := by
  obtain ⟨⟨_, place⟩, placed, same⟩ := List.mem_map.1 listed
  cases same
  exact List.fst_mem_of_mem_zipIdx placed

/-- One more line adds its entry to the section that is open. -/
theorem entriesOf_append_singleton (api : String) (lines : List EnumLine) (line : EnumLine) :
    entriesOf api (lines ++ [line]) = entriesOf api lines ++
      if latestSection lines = some api then line.entry?.toList else [] := by
  rw [entriesOf, owned_append_singleton, List.filterMap_append, entriesOf]
  by_cases own : latestSection lines = some api
  · cases given : line.entry? <;> simp [own, given]
  · simp [own]

/-- One more line concerns a section when it is a heading or that section is open. -/
theorem linesFor_append_singleton (api : String) (lines : List EnumLine) (line : EnumLine) :
    linesFor api (lines ++ [line]) = linesFor api lines ++
      if line.opens?.isSome || (latestSection lines = some api && line.entry?.isSome) then [line]
      else [] := by
  rw [linesFor, owned_append_singleton, List.filter_append, List.map_append, linesFor,
    List.filter_singleton]
  dsimp only
  cases line.opens?.isSome || (decide (latestSection lines = some api) && line.entry?.isSome) <;>
    rfl

theorem mem_sectionNames_of_latestSection {lines : List EnumLine} {api : String}
    (latest : latestSection lines = some api) : api ∈ sectionNames lines :=
  List.mem_of_getLast? latest

/-- An API without a section line has no lines. -/
theorem entriesOf_eq_nil {api : String} {lines : List EnumLine}
    (unopened : api ∉ sectionNames lines) : entriesOf api lines = [] := by
  induction lines using List.reverseRecOn with
  | nil => rfl
  | append_singleton lines line ih =>
    rw [sectionNames_append_singleton, List.mem_append, not_or] at unopened
    have foreign : latestSection lines ≠ some api := fun latest =>
      unopened.1 (mem_sectionNames_of_latestSection latest)
    rw [entriesOf_append_singleton, ih unopened.1, if_neg foreign, List.append_nil]

/-- Define an enumerant in the section that is open. -/
def Reading.put (reading : Reading) (name : String) (value : EnumValue) : Reading :=
  match reading.current with
  | some api => { reading with table := reading.table.define api name value }
  | none => reading

/-- Read one line that has a shape. -/
def Reading.take (reading : Reading) : EnumLine → Reading
  | .passthru => reading
  | .sectionOf api => ⟨reading.table.openSection api, some api⟩
  | .literal name value => reading.put (qualify name) (.literal value)
  | .borrowed target name => reading.put (qualify name) (.reference target)

/-- A line acts on the reading through what it is. -/
theorem step_eq_take (reading : Reading) (line : List Char) :
    reading.step line =
      match EnumLine.classify line with
      | some shape => reading.take shape
      | none => reading := by
  obtain ⟨table, current⟩ := reading
  unfold Reading.step
  cases EnumLine.classify line with
  | none => rfl
  | some shape => cases shape <;> cases current <;> rfl

/-- Parsing takes the lines one after the other. -/
theorem parse_eq_foldl_take (source : String) :
    parse source = ((shapes source).foldl Reading.take ⟨.empty, none⟩).table := by
  rw [parse, shapes, List.foldl_filterMap]
  congr 2
  funext reading line
  rw [step_eq_take]
  cases EnumLine.classify line <;> rfl

/-- What the reader has when it has read some lines. -/
structure Reads (lines : List EnumLine) (reading : Reading) : Prop where
  current : reading.current = latestSection lines
  apis : reading.table.keys = (sectionNames lines).eraseDups
  names : ∀ api, reading.table.get? api =
    if api ∈ sectionNames lines then some (.ofList (entriesOf api lines)) else none

theorem ofList_append_singleton {α : Type} (entries : List (String × α)) (name : String)
    (value : α) : OrderedMap.ofList (entries ++ [(name, value)]) =
      (OrderedMap.ofList entries).insert name value := by
  rw [OrderedMap.ofList, List.foldl_append, OrderedMap.ofList]
  rfl

/-- A section line opens its section, at the end if it is new. -/
theorem reads_sectionOf {lines : List EnumLine} {reading : Reading} (reads : Reads lines reading)
    (api : String) :
    Reads (lines ++ [.sectionOf api]) ⟨reading.table.openSection api, some api⟩ where
  current := (latestSection_append_singleton lines (.sectionOf api)).symm
  apis := by
    rw [Sections.openSection, OrderedMap.keys_alter, reads.apis, sectionNames_append_singleton,
      List.eraseDups_append]
    by_cases known : api ∈ sectionNames lines <;>
      simp [known, EnumLine.opens?, List.removeAll, List.eraseDups_cons]
  names := by
    intro other
    have kept : entriesOf other (lines ++ [.sectionOf api]) = entriesOf other lines := by
      simp [entriesOf_append_singleton, EnumLine.entry?]
    rw [Sections.openSection, OrderedMap.get?_alter, reads.names, reads.names, kept,
      sectionNames_append_singleton]
    by_cases same : other = api
    · subst same
      by_cases known : other ∈ sectionNames lines
      · simp [known]
      · -- A section that is opened for the first time has no lines yet.
        have fresh : (OrderedMap.ofList (entriesOf other lines)) = .empty := by
          rw [entriesOf_eq_nil known]
          rfl
        simp [known, fresh, EnumLine.opens?]
    · simp [same, EnumLine.opens?]

/-- A line with an enumerant changes the section that is open, and nothing before the first
section line. -/
theorem reads_put {lines : List EnumLine} {reading : Reading} (reads : Reads lines reading)
    {line : EnumLine} {name : String} {value : EnumValue} (opens : line.opens? = none)
    (gives : line.entry? = some (name, value)) :
    Reads (lines ++ [line]) (reading.put name value) := by
  have sameNames : sectionNames (lines ++ [line]) = sectionNames lines := by
    simp [sectionNames_append_singleton, opens]
  have sameLatest : latestSection (lines ++ [line]) = latestSection lines := by
    rw [latestSection, sameNames, latestSection]
  cases latest : latestSection lines with
  | none =>
    have unchanged : reading.put name value = reading := by
      rw [Reading.put, reads.current, latest]
    rw [unchanged]
    refine ⟨reads.current.trans sameLatest.symm, sameNames ▸ reads.apis, ?_⟩
    intro other
    rw [reads.names, sameNames, entriesOf_append_singleton, latest]
    simp
  | some api =>
    have known : api ∈ sectionNames lines := mem_sectionNames_of_latestSection latest
    have changed : reading.put name value =
        { reading with table := reading.table.define api name value } := by
      rw [Reading.put, reads.current, latest]
    rw [changed]
    refine ⟨reads.current.trans sameLatest.symm, ?_, ?_⟩
    · have present : api ∈ reading.table.keys := by
        rw [reads.apis]
        exact List.mem_eraseDups.2 known
      rw [sameNames, ← reads.apis]
      exact (OrderedMap.keys_alter _ api _).trans (if_pos present)
    · intro other
      dsimp only
      rw [Sections.define, OrderedMap.get?_alter, reads.names, reads.names, sameNames,
        entriesOf_append_singleton, latest]
      by_cases same : other = api
      · subst same
        simp only [known, ↓reduceIte, gives, Option.toList_some, Option.getD_some,
          ofList_append_singleton]
      · have foreign : some api ≠ some other := fun equal => same (Option.some.inj equal).symm
        simp only [same, foreign, ↓reduceIte, List.append_nil]

/-- The reading stays in step with the lines it has taken. -/
theorem reads_take {lines : List EnumLine} {reading : Reading} (reads : Reads lines reading)
    (line : EnumLine) : Reads (lines ++ [line]) (reading.take line) := by
  cases line with
  | passthru =>
    have sameNames : sectionNames (lines ++ [.passthru]) = sectionNames lines := by
      simp [sectionNames_append_singleton, EnumLine.opens?]
    have sameLatest : latestSection (lines ++ [.passthru]) = latestSection lines := by
      rw [latestSection, sameNames, latestSection]
    refine ⟨reads.current.trans sameLatest.symm, sameNames ▸ reads.apis, ?_⟩
    intro other
    have sameEntries : entriesOf other (lines ++ [.passthru]) = entriesOf other lines := by
      simp [entriesOf_append_singleton, EnumLine.entry?]
    rw [sameNames, sameEntries]
    exact reads.names other
  | sectionOf api => exact reads_sectionOf reads api
  | literal name value => exact reads_put reads rfl rfl
  | borrowed target name => exact reads_put reads rfl rfl

/-- Line by line, the reader has what the lines read so far give. -/
theorem reads_foldl_take (lines : List EnumLine) :
    Reads lines (lines.foldl Reading.take ⟨.empty, none⟩) := by
  induction lines using List.reverseRecOn with
  | nil => exact ⟨rfl, rfl, fun api => rfl⟩
  | append_singleton lines line ih =>
    rw [List.foldl_append]
    exact reads_take ih line

theorem keys_parse (source : String) :
    (parse source).keys = (sectionNames (shapes source)).eraseDups := by
  rw [parse_eq_foldl_take]
  exact (reads_foldl_take (shapes source)).apis

theorem get?_parse (source : String) (api : String) :
    (parse source).get? api =
      if api ∈ sectionNames (shapes source) then some (.ofList (entriesOf api (shapes source)))
      else none := by
  rw [parse_eq_foldl_take]
  exact (reads_foldl_take (shapes source)).names api

/-- A name holds the last value its section's lines give it. -/
theorem value?_parse (source : String) (api name : String) :
    (parse source).value? api name =
      ((entriesOf api (shapes source)).filter fun entry => entry.1 = name).getLast?.map
        Prod.snd := by
  rw [Sections.value?, get?_parse]
  by_cases known : api ∈ sectionNames (shapes source)
  · rw [if_pos known, Option.bind_some, OrderedMap.get?_ofList]
  · rw [if_neg known, entriesOf_eq_nil known]
    rfl

/-- The lines that concern a section hold every heading. -/
theorem sectionNames_linesFor (api : String) (lines : List EnumLine) :
    sectionNames (linesFor api lines) = sectionNames lines := by
  induction lines using List.reverseRecOn with
  | nil => rfl
  | append_singleton lines line ih =>
    rw [linesFor_append_singleton, sectionNames_append_singleton]
    cases opened : line.opens? with
    | some name => simp [sectionNames_append_singleton, ih, opened]
    | none => split <;> simp [sectionNames_append_singleton, ih, opened]

/-- Dropping the lines of other APIs does not change which lines an API has. -/
theorem entriesOf_linesFor (api : String) (lines : List EnumLine) :
    entriesOf api (linesFor api lines) = entriesOf api lines := by
  induction lines using List.reverseRecOn with
  | nil => rfl
  | append_singleton lines line ih =>
    have sameLatest : latestSection (linesFor api lines) = latestSection lines := by
      rw [latestSection, sectionNames_linesFor, latestSection]
    rw [linesFor_append_singleton, entriesOf_append_singleton]
    by_cases counts : (line.opens?.isSome ||
        (decide (latestSection lines = some api) && line.entry?.isSome)) = true
    · rw [if_pos counts, entriesOf_append_singleton, ih, sameLatest]
    · rw [if_neg counts, List.append_nil, ih]
      by_cases own : latestSection lines = some api
      · have nothing : line.entry? = none := by
          cases given : line.entry? with
          | none => rfl
          | some entry => exact absurd (by simp [own, given]) counts
        simp [nothing]
      · simp [own]

/-- **The table of an enumerant spec.** The APIs are the names on the section lines, in the
order of their first ones. An API has the names on its own lines, those behind one of its
section lines and before the next section line, in the order of their first lines, each with
the value on its last line. No other line counts for it: two sources that agree on the section
lines and on the lines of an API give that API the same section. -/
theorem parse_groups_by_latest_section (source : String) :
    let lines := shapes source
    (parse source).keys = (sectionNames lines).eraseDups ∧
    (∀ api, ((parse source).get? api).map OrderedMap.keys =
      if api ∈ sectionNames lines then some ((entriesOf api lines).map Prod.fst).eraseDups
      else none) ∧
    (∀ api name, (parse source).value? api name =
      ((entriesOf api lines).filter fun entry => entry.1 = name).getLast?.map Prod.snd) ∧
    (∀ api other, linesFor api (shapes other) = linesFor api lines →
      (parse other).get? api = (parse source).get? api) := by
  intro lines
  refine ⟨keys_parse source, ?_, value?_parse source, ?_⟩
  · intro api
    rw [get?_parse]
    by_cases known : api ∈ sectionNames lines
    · rw [if_pos known, if_pos known, Option.map_some, OrderedMap.keys_ofList]
    · rw [if_neg known, if_neg known, Option.map_none]
  · intro api other agree
    have names : sectionNames (shapes other) = sectionNames lines := by
      rw [← sectionNames_linesFor api, agree, sectionNames_linesFor]
    have entries : entriesOf api (shapes other) = entriesOf api lines := by
      rw [← entriesOf_linesFor, agree, entriesOf_linesFor]
    rw [get?_parse, get?_parse, names, entries]

/-- A spec with a section that is opened twice. -/
def reopened : String := "A enum:\n\tX = 1\nB enum:\n\tY = 2\nA enum:\n\tuse B Y\n\tX = 3\n"

/-- The lines of `A` in the same places, with other lines in between. -/
def reopenedElsewhere : String :=
  "X = 9\nA enum:\n\tX = 1\npassthru: text\nB enum:\n\tuse A X\nA enum:\n???\n\tuse B Y\n\tX = 3\n"

theorem parse_groups_reopened_section :
    linesFor "A" (shapes reopenedElsewhere) = linesFor "A" (shapes reopened) ∧
    (parse reopenedElsewhere).get? "A" = (parse reopened).get? "A" := by
  have agree : linesFor "A" (shapes reopenedElsewhere) = linesFor "A" (shapes reopened) := by
    decide +kernel
  exact ⟨agree, (parse_groups_by_latest_section reopened).2.2.2 "A" reopenedElsewhere agree⟩

end EnumTable

end ExtensionLoader
