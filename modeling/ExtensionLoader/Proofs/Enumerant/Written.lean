import ExtensionLoader.Proofs.Enumerant.Sections
import ExtensionLoader.Proofs.Spec.Line
import ExtensionLoader.Proofs.Text.Lines

/-! # Writing and reading an enumerant spec

A table of words is written section by section, each enumerant on a line of its own
(`EnumLine.Spells`), with any indentation, any comments behind the lines and any lines without
enumerants in between. Reading what is written gives the table back, with each name in its
namespace; and every table that is read from any source is read again from what is written for
it (`EnumTable.parse_reads_what_is_written`).
-/

namespace ExtensionLoader

open Text

namespace EnumLine

/-- The content of a line: words, and blanks between them. -/
inductive Spells : EnumLine → List Char → Prop
  /-- `<api> enum:` -/
  | sectionOf {api : String} {gap : List Char} (word : isWord api.toList = true)
    (blank : AllBlank gap) (apart : gap ≠ []) :
    Spells (.sectionOf api) (api.toList ++ gap ++ "enum:".toList)
  /-- `<name> = <value>` -/
  | literal {name value : String} {before behind : List Char} (nameWord : isWord name.toList = true)
    (valueWord : isWord value.toList = true) (blankBefore : AllBlank before)
    (blankBehind : AllBlank behind) :
    Spells (.literal name value) (name.toList ++ before ++ '=' :: (behind ++ value.toList))
  /-- `use <api> <name>` -/
  | borrowed {api name : String} {first second : List Char} (apiWord : isWord api.toList = true)
    (nameWord : isWord name.toList = true) (blankFirst : AllBlank first) (apartFirst : first ≠ [])
    (blankSecond : AllBlank second) (apartSecond : second ≠ []) :
    Spells (.borrowed api name) ("use".toList ++ first ++ api.toList ++ second ++ name.toList)

/-- A line with a content, between an indentation and a tail. -/
inductive WrittenAs (shape : EnumLine) : List Char → Prop
  | framed {indent content tail : List Char} (blank : AllBlank indent)
    (spelled : Spells shape content) (ends : Spec.Tail tail) :
    WrittenAs shape (indent ++ content ++ tail)

/-- A line without an enumerant: a blank one, a comment alone, or text for the C compiler. -/
inductive Filler : List Char → Prop
  | empty {line : List Char} (only : Spec.Commentary line) : Filler line
  | passthru {indent : List Char} (blank : AllBlank indent) (text : List Char) :
    Filler (indent ++ "passthru:".toList ++ text)

/-- The line that gives a name its value. -/
def giving (name : String) : EnumValue → EnumLine
  | .literal text => .literal name text
  | .reference api => .borrowed api name

/-- A plain way to write a line. -/
def spelling : EnumLine → List Char
  | passthru => "passthru:".toList
  | sectionOf api => api.toList ++ " ".toList ++ "enum:".toList
  | literal name value => name.toList ++ " ".toList ++ '=' :: (" ".toList ++ value.toList)
  | borrowed api name => "use".toList ++ " ".toList ++ api.toList ++ " ".toList ++ name.toList

end EnumLine

namespace EnumTable

/-- The lines that write a table, section by section. -/
def toLines (table : EnumTable) : List EnumLine :=
  table.entries.flatMap fun (api, names) =>
    .sectionOf api :: names.entries.map fun (name, value) => .giving name value

/-- Physical lines that write a table. -/
def WrittenAs (table : EnumTable) : List (List Char) → Prop :=
  Spec.Layout EnumLine.WrittenAs EnumLine.Filler table.toLines

/-- A plain source for a table. -/
def text (table : EnumTable) : String := ofLines (table.toLines.map EnumLine.spelling)

end EnumTable

/-- The name without the namespace that `qualify` puts before it. -/
def unqualified (name : String) : String :=
  if isPlatformName name then name else String.ofList (name.toList.drop 3)

/-- What stands behind a qualified name stands behind the name as well. -/
theorem unqualified_append (name rest : String) :
    unqualified (qualify name ++ rest) = name ++ rest := by
  rw [qualify]
  split
  · rename_i platform
    have longer : isPlatformName (name ++ rest) = true := by
      rw [isPlatformName, Bool.or_eq_true, List.isPrefixOf_iff_prefix,
        List.isPrefixOf_iff_prefix] at platform ⊢
      rw [String.toList_append]
      exact platform.imp (·.trans (List.prefix_append _ _)) (·.trans (List.prefix_append _ _))
    rw [unqualified, if_pos longer]
  · -- No text that starts with `GL_` lies in the namespace of a platform.
    have spelled : ("GL_" ++ name ++ rest).toList = 'G' :: 'L' :: '_' :: (name ++ rest).toList := by
      rw [String.append_assoc, String.toList_append]
      rfl
    have own : isPlatformName ("GL_" ++ name ++ rest) = false := by
      rw [isPlatformName, spelled]
      rfl
    rw [unqualified, own, spelled]
    simp

theorem unqualified_qualify : Function.LeftInverse unqualified qualify := by
  intro name
  have behind := unqualified_append name ""
  rwa [String.append_empty, String.append_empty] at behind

theorem qualify_injective : Function.Injective qualify := unqualified_qualify.injective

/-- The table with every name in its namespace. -/
def EnumTable.qualified (table : EnumTable) : EnumTable :=
  table.mapValues fun _ names => names.mapKeys qualify qualify_injective

namespace EnumLine

variable {word rest line content : List Char} {shape : EnumLine}

/-- A line that starts with a word is no text for the C compiler, unless a colon ends it. -/
theorem not_passthru (isWord : isWord word = true)
    (ends : ∀ c ∈ rest.head?, isWordChar c = false ∧ c ≠ ':') :
    "passthru:".toList.isPrefixOf (word ++ rest) = false := by
  by_contra starts
  rw [Bool.not_eq_false, List.isPrefixOf_iff_prefix] at starts
  obtain ⟨text, whole⟩ := starts
  -- Both ways to cut off the leading word agree, so the rest starts with the colon.
  have cut := splitWord_word_append (isWord_iff.1 isWord).2 fun c head => (ends c head).1
  have other : splitWord ("passthru".toList ++ ':' :: text) = ("passthru".toList, ':' :: text) :=
    splitWord_word_append (isWord_iff.1 (by decide)).2 fun c head => by cases head; rfl
  have keyword : "passthru:".toList = "passthru".toList ++ [':'] := by decide
  rw [keyword, List.append_assoc] at whole
  rw [← whole, List.singleton_append, other] at cut
  cases cut
  exact (ends ':' rfl).2 rfl

theorem ends_of_gap {gap : List Char} (blank : AllBlank gap) (apart : gap ≠ []) {c : Char}
    (head : c ∈ (gap ++ rest).head?) : isWordChar c = false ∧ c ≠ ':' := by
  have isBlank := isBlank_of_mem_head? blank apart head
  exact ⟨isWordChar_of_isBlank isBlank, ne_of_isBlank isBlank rfl⟩

theorem sectionOf?_eq_none (noColon : ':' ∉ line) : sectionOf? line = none := by
  unfold sectionOf?
  split
  · rename_i api keyword cut
    rw [if_neg]
    rintro ⟨rfl, _⟩
    have member : "enum:".toList ∈ tokens line := by simp [cut]
    exact noColon (mem_of_mem_tokens member (by decide))
  · rfl

theorem literal?_eq_none (noSign : '=' ∉ line) : literal? line = none := by
  rw [literal?, cutFirst_eq_none noSign]

/-- No heading starts with a slash. -/
theorem sectionOf?_slash (text : List Char) : sectionOf? ('/' :: text) = none := by
  obtain ⟨token, later, cut⟩ := tokens_cons_of_solid (c := '/') rfl text
  rw [sectionOf?, cut]
  split
  · rename_i api keyword same
    obtain ⟨rfl, _⟩ := List.cons.inj same
    rw [if_neg]
    rintro ⟨_, word⟩
    rw [isWord_cons_eq_false rfl] at word
    cases word
  · rfl

theorem literal?_slash (text : List Char) : literal? ('/' :: text) = none := by
  by_cases sign : '=' ∈ text
  · obtain ⟨front, behind, rfl, absent⟩ := List.eq_append_cons_of_mem sign
    have cut : cutFirst '=' ('/' :: front ++ '=' :: behind) = some ('/' :: front, behind) :=
      cutFirst_append (by simp [absent]) behind
    rw [literal?, ← List.cons_append, cut]
    dsimp only
    rw [trim_cons_of_solid rfl, isWord_cons_eq_false rfl]
    simp
  · exact literal?_eq_none (by simp [sign])

theorem borrowed?_slash (text : List Char) : borrowed? ('/' :: text) = none := by
  obtain ⟨token, later, cut⟩ := tokens_cons_of_solid (c := '/') rfl text
  rw [borrowed?, cut]
  split
  · rename_i keyword api name same
    obtain ⟨rfl, _⟩ := List.cons.inj same
    rw [if_neg]
    rintro ⟨use, _⟩
    cases use
  · rfl

/-- A line that starts with a comment has no shape. -/
theorem classify_slash (text : List Char) : classify ('/' :: text) = none := by
  rw [classify, sectionOf?_slash, literal?_slash, borrowed?_slash]
  rfl

/-- A word, a gap and `enum:` are a heading. -/
theorem classify_section {api : String} {gap : List Char} (word : isWord api.toList = true)
    (blank : AllBlank gap) (apart : gap ≠ []) :
    classify (api.toList ++ gap ++ "enum:".toList) = some (.sectionOf api) := by
  have plain : "passthru:".toList.isPrefixOf (api.toList ++ (gap ++ "enum:".toList)) = false :=
    not_passthru word fun c head => ends_of_gap blank apart head
  have cut : tokens (api.toList ++ gap ++ "enum:".toList) = [api.toList, "enum:".toList] := by
    have keyword : tokens "enum:".toList = ["enum:".toList] := by decide
    rw [tokens_append blank apart, tokens_word word, keyword]
    rfl
  have read : sectionOf? (api.toList ++ gap ++ "enum:".toList) = some (.sectionOf api) := by
    rw [sectionOf?, cut]
    simp [word]
  rw [classify, List.append_assoc, plain, ← List.append_assoc, read]
  rfl

/-- A word, an equals sign and a word are a name with its value. -/
theorem classify_literal {name value : String} {before behind : List Char}
    (nameWord : isWord name.toList = true) (valueWord : isWord value.toList = true)
    (blankBefore : AllBlank before) (blankBehind : AllBlank behind) :
    classify (name.toList ++ before ++ '=' :: (behind ++ value.toList)) =
      some (.literal name value) := by
  have plain : "passthru:".toList.isPrefixOf
      (name.toList ++ (before ++ '=' :: (behind ++ value.toList))) = false := by
    refine not_passthru nameWord fun c head => ?_
    cases before with
    | nil =>
      cases head
      exact ⟨rfl, by decide⟩
    | cons d rest => exact ends_of_gap blankBefore (List.cons_ne_nil d rest) head
  have spaced : Spaced (name.toList ++ before) :=
    (spaced_of_isWord nameWord).append (spaced_of_allBlank blankBefore)
  have spacedBehind : Spaced (behind ++ value.toList) :=
    (spaced_of_allBlank blankBehind).append (spaced_of_isWord valueWord)
  have noColon : ':' ∉ name.toList ++ before ++ '=' :: (behind ++ value.toList) := by
    rw [List.mem_append, List.mem_cons, not_or, not_or]
    exact ⟨not_mem_of_spaced spaced rfl rfl, by decide, not_mem_of_spaced spacedBehind rfl rfl⟩
  have noSign : '=' ∉ name.toList ++ before := not_mem_of_spaced spaced rfl rfl
  have trimName : trim (name.toList ++ before) = name.toList :=
    (trim_append allBlank_nil name.toList blankBefore).trans (trim_word nameWord)
  have trimValue : trim (behind ++ value.toList) = value.toList := by
    have trimmed := trim_append blankBehind value.toList allBlank_nil
    rwa [List.append_nil, trim_word valueWord] at trimmed
  have read : literal? (name.toList ++ before ++ '=' :: (behind ++ value.toList)) =
      some (.literal name value) := by
    rw [literal?, cutFirst_append noSign]
    simp [trimName, trimValue, nameWord, valueWord]
  rw [classify, sectionOf?_eq_none noColon, read, List.append_assoc, plain]
  rfl

theorem spaced_use {api name first second : List Char} (apiWord : isWord api = true)
    (nameWord : isWord name = true) (blankFirst : AllBlank first)
    (blankSecond : AllBlank second) :
    Spaced ("use".toList ++ first ++ api ++ second ++ name) := by
  have keyword : Spaced "use".toList := spaced_of_isWord (by decide)
  exact (((keyword.append (spaced_of_allBlank blankFirst)).append
    (spaced_of_isWord apiWord)).append (spaced_of_allBlank blankSecond)).append
    (spaced_of_isWord nameWord)

/-- The word `use` and two further words are a reference. -/
theorem classify_borrowed {api name : String} {first second : List Char}
    (apiWord : isWord api.toList = true) (nameWord : isWord name.toList = true)
    (blankFirst : AllBlank first) (apartFirst : first ≠ []) (blankSecond : AllBlank second)
    (apartSecond : second ≠ []) :
    classify ("use".toList ++ first ++ api.toList ++ second ++ name.toList) =
      some (.borrowed api name) := by
  have keyword : isWord "use".toList = true := by decide
  have plain : "passthru:".toList.isPrefixOf
      ("use".toList ++ (first ++ (api.toList ++ (second ++ name.toList)))) = false :=
    not_passthru keyword fun c head => ends_of_gap blankFirst apartFirst head
  have spaced := spaced_use apiWord nameWord blankFirst blankSecond
  have cut : tokens ("use".toList ++ first ++ api.toList ++ second ++ name.toList) =
      ["use".toList, api.toList, name.toList] := by
    rw [tokens_append blankSecond apartSecond, tokens_append blankFirst apartFirst,
      tokens_word keyword, tokens_word apiWord, tokens_word nameWord]
    rfl
  have read : borrowed? ("use".toList ++ first ++ api.toList ++ second ++ name.toList) =
      some (.borrowed api name) := by
    rw [borrowed?, cut]
    simp [apiWord, nameWord]
  rw [classify, sectionOf?_eq_none (not_mem_of_spaced spaced rfl rfl),
    literal?_eq_none (not_mem_of_spaced spaced rfl rfl), read, List.append_assoc,
    List.append_assoc, List.append_assoc, plain]
  rfl

theorem classify_of_spells (spelled : Spells shape content) : classify content = some shape := by
  cases spelled with
  | sectionOf word blank apart => exact classify_section word blank apart
  | literal nameWord valueWord blankBefore blankBehind =>
    exact classify_literal nameWord valueWord blankBefore blankBehind
  | borrowed apiWord nameWord blankFirst apartFirst blankSecond apartSecond =>
    exact classify_borrowed apiWord nameWord blankFirst apartFirst blankSecond apartSecond

/-- A content holds no characters but those of words, blanks, colons and signs. -/
theorem not_mem_of_spells (spelled : Spells shape content) {c : Char}
    (outside : isWordChar c = false) (solid : isBlank c = false) (noColon : c ≠ ':')
    (noSign : c ≠ '=') : c ∉ content := by
  have absent {text : List Char} (spaced : Spaced text) : c ∉ text :=
    not_mem_of_spaced spaced outside solid
  cases spelled with
  | @sectionOf api gap word blank apart =>
    have keyword : "enum:".toList = "enum".toList ++ [':'] := by decide
    have spaced : Spaced (api.toList ++ gap ++ "enum".toList) :=
      ((spaced_of_isWord word).append (spaced_of_allBlank blank)).append
        (spaced_of_isWord (by decide))
    rw [keyword, ← List.append_assoc, List.mem_append, List.mem_singleton, not_or]
    exact ⟨absent spaced, noColon⟩
  | literal nameWord valueWord blankBefore blankBehind =>
    rw [List.mem_append, List.mem_cons, not_or, not_or]
    exact ⟨absent ((spaced_of_isWord nameWord).append (spaced_of_allBlank blankBefore)), noSign,
      absent ((spaced_of_allBlank blankBehind).append (spaced_of_isWord valueWord))⟩
  | borrowed apiWord nameWord blankFirst apartFirst blankSecond apartSecond =>
    exact absent (spaced_use apiWord nameWord blankFirst blankSecond)

/-- A content starts and ends with characters that are not blank. -/
theorem trim_of_spells (spelled : Spells shape content) : trim content = content := by
  cases spelled with
  | @sectionOf api gap word blank apart =>
    have starts := isBlank_head?_word_append word (gap ++ "enum:".toList)
    rw [← List.append_assoc] at starts
    refine trim_eq_self starts fun c last => ?_
    rw [List.getLast?_append_of_ne_nil _ (by decide)] at last
    cases last
    rfl
  | @literal name value before behind nameWord valueWord blankBefore blankBehind =>
    have starts := isBlank_head?_word_append nameWord (before ++ '=' :: (behind ++ value.toList))
    have ends := isBlank_getLast?_append_word valueWord (name.toList ++ before ++ '=' :: behind)
    rw [← List.append_assoc] at starts
    rw [List.append_assoc, List.cons_append] at ends
    exact trim_eq_self starts ends
  | @borrowed api name first second apiWord nameWord blankFirst apartFirst blankSecond _ =>
    have keyword : isWord "use".toList = true := by decide
    have starts := isBlank_head?_word_append keyword
      (first ++ (api.toList ++ (second ++ name.toList)))
    simp only [← List.append_assoc] at starts
    exact trim_eq_self starts (isBlank_getLast?_append_word nameWord _)

/-- What a physical line gives, text for the C compiler apart. -/
def read (line : List Char) : Option EnumLine :=
  (classify (Spec.cleanLine line)).filter (· ≠ passthru)

/-- A written line is read as what it writes. -/
theorem read_of_writtenAs (written : WrittenAs shape line) : read line = some shape := by
  cases written with
  | @framed indent content tail blank spelled ends =>
    have foreign {c : Char} (outside : isWordChar c = false) (solid : isBlank c = false)
        (noColon : c ≠ ':') (noSign : c ≠ '=') : c ∉ content :=
      not_mem_of_spells spelled outside solid noColon noSign
    have noOpener : ¬ Spec.opener <:+: content := by
      intro within
      exact foreign (c := '/') rfl rfl (by decide) (by decide) (within.subset List.mem_cons_self)
    have unescaped : content.getLast? ≠ some '\\' := by
      intro last
      exact foreign (c := '\\') rfl rfl (by decide) (by decide) (List.mem_of_getLast? last)
    have noHash : '#' ∉ content := foreign rfl rfl (by decide) (by decide)
    have cleaned := Spec.cleanLine_of_content blank (Spec.hashesEscaped_of_not_mem noHash)
      noOpener ends fun _ => unescaped
    rw [read, cleaned, trim_of_spells spelled, classify_of_spells spelled]
    cases spelled <;> rfl

/-- A line that writes nothing is read as nothing. -/
theorem read_of_filler (filler : Filler line) : read line = none := by
  cases filler with
  | empty only =>
    rcases Spec.cleanLine_of_commentary only with nothing | ⟨behind, opened⟩
    · rw [read, nothing]
      rfl
    · rw [read, opened, classify_slash]
      rfl
  | @passthru indent blank text =>
    have starts : ∀ c ∈ "passthru:".toList.head?, isBlank c = false := by
      intro c head
      cases head
      rfl
    have ends : ∀ c ∈ "passthru:".toList.getLast?, isBlank c = false := by
      intro c last
      cases last
      rfl
    obtain ⟨behind, cleaned⟩ :=
      Spec.exists_cleanLine_eq blank (by decide) (by decide) (by decide) starts ends text
    have leads : "passthru:".toList.isPrefixOf ("passthru:".toList ++ behind) = true :=
      List.isPrefixOf_iff_prefix.2 (List.prefix_append _ _)
    rw [read, cleaned, classify, if_pos leads]
    rfl

end EnumLine

namespace EnumTable

/-- Text for the C compiler changes nothing. -/
theorem foldl_take_filter (lines : List EnumLine) (reading : Reading) :
    (lines.filter (· ≠ .passthru)).foldl Reading.take reading =
      lines.foldl Reading.take reading := by
  rw [List.foldl_filter]
  congr 1
  funext reading line
  cases line <;> rfl

theorem parse_eq_foldl_read (source : String) :
    parse source =
      (((Text.lines source).filterMap EnumLine.read).foldl Reading.take ⟨.empty, none⟩).table := by
  have same : (shapes source).filter (· ≠ .passthru) =
      (Text.lines source).filterMap EnumLine.read := by
    rw [shapes, Spec.filterMap_cleanedLines rfl, List.filter_filterMap]
    rfl
  rw [parse_eq_foldl_take, ← foldl_take_filter, same]

theorem parse_of_writtenAs {table : EnumTable} {source : String}
    (written : table.WrittenAs (Text.lines source)) :
    parse source = (table.toLines.foldl Reading.take ⟨.empty, none⟩).table := by
  rw [parse_eq_foldl_read,
    written.filterMap_eq EnumLine.read id (fun _ _ => EnumLine.read_of_writtenAs)
      (fun _ => EnumLine.read_of_filler), List.map_id]

/-- Reading the enumerants of an open section puts them into it. -/
theorem foldl_take_giving (entries : List (String × EnumValue)) (table : EnumTable) (api : String)
    (names : OrderedMap String EnumValue) :
    (entries.map fun entry => EnumLine.giving entry.1 entry.2).foldl Reading.take
        ⟨table.insert api names, some api⟩ =
      ⟨table.insert api (entries.foldl
        (fun names entry => names.insert (qualify entry.1) entry.2) names), some api⟩ := by
  induction entries generalizing names with
  | nil => rfl
  | cons entry rest ih =>
    obtain ⟨name, value⟩ := entry
    have taken : Reading.take ⟨table.insert api names, some api⟩ (EnumLine.giving name value) =
        ⟨table.insert api (names.insert (qualify name) value), some api⟩ := by
      have changed := OrderedMap.alter_insert table api names fun known =>
        (known.getD .empty).insert (qualify name) value
      cases value with
      | literal text => exact congrArg (Reading.mk · (some api)) changed
      | reference target => exact congrArg (Reading.mk · (some api)) changed
    rw [List.map_cons, List.foldl_cons, taken, ih, List.foldl_cons]

/-- Reading a section that is new puts it behind the others. -/
theorem foldl_take_section (reading : Reading) (group : String × OrderedMap String EnumValue)
    (fresh : group.1 ∉ reading.table.keys) :
    (EnumLine.sectionOf group.1 ::
        group.2.entries.map fun entry => EnumLine.giving entry.1 entry.2).foldl
        Reading.take reading =
      ⟨reading.table.insert group.1 (group.2.mapKeys qualify qualify_injective), some group.1⟩ := by
  have opened : reading.take (.sectionOf group.1) =
      ⟨reading.table.insert group.1 .empty, some group.1⟩ :=
    congrArg (Reading.mk · (some group.1)) (OrderedMap.alter_of_not_mem fresh _)
  have renamed : group.2.entries.foldl
      (fun names entry => names.insert (qualify entry.1) entry.2) .empty =
        group.2.mapKeys qualify qualify_injective := by
    have listed := OrderedMap.entries_ofList (group.2.mapKeys qualify qualify_injective).nodup
    refine OrderedMap.ext_entries (Eq.trans ?_ listed)
    rw [OrderedMap.ofList, OrderedMap.mapKeys, List.foldl_map]
  rw [List.foldl_cons, opened, foldl_take_giving, renamed]

/-- Sections written one below the other are taken one behind the other. -/
theorem foldl_take_toLines (groups : List (String × OrderedMap String EnumValue))
    (reading : Reading) (fresh : (reading.table.keys ++ groups.map Prod.fst).Nodup) :
    ((groups.flatMap fun group => EnumLine.sectionOf group.1 ::
        group.2.entries.map fun entry => EnumLine.giving entry.1 entry.2).foldl
        Reading.take reading).table.entries =
      reading.table.entries ++ groups.map fun group =>
        (group.1, group.2.mapKeys qualify qualify_injective) := by
  -- The names of the sections to come are new, so a section that was read stays as it is.
  induction groups generalizing reading with
  | nil => simp
  | cons group rest ih =>
    have absent : group.1 ∉ reading.table.keys := fun member =>
      (List.nodup_append.1 fresh).2.2 _ member _ (by simp) rfl
    let names := group.2.mapKeys qualify qualify_injective
    have grown : (reading.table.insert group.1 names).entries =
        reading.table.entries ++ [(group.1, names)] :=
      OrderedMap.entries_alter_of_not_mem absent fun _ => names
    have later : ((reading.table.insert group.1 names).keys ++ rest.map Prod.fst).Nodup := by
      rwa [OrderedMap.insert, OrderedMap.keys_alter, if_neg absent, List.append_assoc]
    rw [List.flatMap_cons, List.foldl_append, foldl_take_section reading group absent,
      ih ⟨reading.table.insert group.1 names, some group.1⟩ later, grown, List.append_assoc]
    rfl

/-- Reading the lines of a table gives the table, with each name in its namespace. -/
theorem parse_of_written {table : EnumTable} {source : String}
    (written : table.WrittenAs (Text.lines source)) : parse source = table.qualified := by
  rw [parse_of_writtenAs written]
  exact OrderedMap.ext_entries (foldl_take_toLines table.entries ⟨.empty, none⟩ table.nodup)

end EnumTable

namespace EnumLine

/-- The names and values of a line are words. -/
def OfWords : EnumLine → Prop
  | passthru => True
  | sectionOf api => isWord api.toList = true
  | literal name value => isWord name.toList = true ∧ isWord value.toList = true
  | borrowed api name => isWord api.toList = true ∧ isWord name.toList = true

theorem ofWords_of_sectionOf? {line : List Char} {shape : EnumLine}
    (read : sectionOf? line = some shape) : shape.OfWords := by
  rw [sectionOf?] at read
  split at read
  · split at read
    · rename_i known
      cases read
      simpa [OfWords] using known.2
    · cases read
  · cases read

/-- A name with its value consists of words. -/
theorem ofWords_of_literal? {line : List Char} {shape : EnumLine}
    (read : literal? line = some shape) : shape.OfWords := by
  rw [literal?] at read
  split at read
  · cases read
  · split at read
    · rename_i known
      cases read
      simpa [OfWords] using known
    · cases read

/-- A reference consists of words. -/
theorem ofWords_of_borrowed? {line : List Char} {shape : EnumLine}
    (read : borrowed? line = some shape) : shape.OfWords := by
  rw [borrowed?] at read
  split at read
  · split at read
    · rename_i known
      cases read
      simpa [OfWords] using known.2
    · cases read
  · cases read

/-- Whatever a line is, it consists of words. -/
theorem ofWords_of_classify {line : List Char} {shape : EnumLine}
    (classified : classify line = some shape) : shape.OfWords := by
  rw [classify] at classified
  split at classified
  · cases classified
    trivial
  · rcases Option.or_eq_some_iff.1 classified with read | ⟨_, others⟩
    · exact ofWords_of_sectionOf? read
    · rcases Option.or_eq_some_iff.1 others with read | ⟨_, read⟩
      · exact ofWords_of_literal? read
      · exact ofWords_of_borrowed? read

theorem spells_spelling {shape : EnumLine} (words : shape.OfWords) (given : shape ≠ passthru) :
    Spells shape shape.spelling := by
  have blank : AllBlank " ".toList := by decide
  have apart : " ".toList ≠ [] := by decide
  cases shape with
  | passthru => exact absurd rfl given
  | sectionOf api => exact .sectionOf words blank apart
  | literal name value => exact .literal words.1 words.2 blank blank
  | borrowed api name => exact .borrowed words.1 words.2 blank apart blank apart

/-- The spelling of a line of words takes one line. -/
theorem isPhysicalLine_spelling {shape : EnumLine} (words : shape.OfWords) :
    IsPhysicalLine shape.spelling := by
  have absent {c : Char} (outside : isWordChar c = false) (noBlank : c ≠ ' ') (noColon : c ≠ ':')
      (noSign : c ≠ '=') : c ∉ shape.spelling := by
    have noWord {word : List Char} (known : isWord word = true) : c ∉ word :=
      not_mem_word known outside
    cases shape with
    | passthru =>
      have noKeyword : c ∉ "passthru".toList := noWord (by decide)
      change c ∉ "passthru".toList ++ [':']
      simp only [List.mem_append, List.mem_singleton, noKeyword, noColon, or_self,
        not_false_eq_true]
    | sectionOf api =>
      have noKeyword : c ∉ "enum".toList := noWord (by decide)
      change c ∉ api.toList ++ [' '] ++ ("enum".toList ++ [':'])
      simp only [List.mem_append, List.mem_singleton, noWord words, noBlank, noKeyword, noColon,
        or_self, not_false_eq_true]
    | literal name value =>
      change c ∉ name.toList ++ [' '] ++ '=' :: ([' '] ++ value.toList)
      simp only [List.mem_append, List.mem_cons, List.not_mem_nil, noWord words.1, noBlank, noSign,
        noWord words.2, or_self, not_false_eq_true]
    | borrowed api name =>
      have noKeyword : c ∉ "use".toList := noWord (by decide)
      change c ∉ "use".toList ++ [' '] ++ api.toList ++ [' '] ++ name.toList
      simp only [List.mem_append, List.mem_singleton, noKeyword, noWord words.1, noBlank,
        noWord words.2, or_self, not_false_eq_true]
  have noFeed : '\n' ∉ shape.spelling := absent rfl (by decide) (by decide) (by decide)
  have noReturn : '\r' ∉ shape.spelling := absent rfl (by decide) (by decide) (by decide)
  exact ⟨noFeed, fun last => noReturn (List.mem_of_getLast? last)⟩

end EnumLine

namespace EnumTable

/-- A table of words is written by its text. -/
theorem writtenAs_text {table : EnumTable}
    (words : ∀ line ∈ table.toLines, line.OfWords ∧ line ≠ .passthru) :
    table.WrittenAs (Text.lines table.text) := by
  have physical : ∀ line ∈ table.toLines.map EnumLine.spelling, IsPhysicalLine line := by
    intro line member
    obtain ⟨shape, written, rfl⟩ := List.mem_map.1 member
    exact EnumLine.isPhysicalLine_spelling (words shape written).1
  rw [text, lines_ofLines physical, WrittenAs]
  clear physical
  generalize table.toLines = lines at words
  induction lines with
  | nil => exact .nil
  | cons line rest ih =>
    have first := words line List.mem_cons_self
    have spelled := EnumLine.spells_spelling first.1 first.2
    have framed : line.WrittenAs ([] ++ line.spelling ++ []) :=
      .framed allBlank_nil spelled (.blank allBlank_nil)
    rw [List.append_nil, List.nil_append] at framed
    exact .item framed (ih fun other member => words other (List.mem_cons_of_mem line member))

/-- The table with every name as it was before it was put into its namespace. -/
def bare (table : EnumTable) : EnumTable :=
  table.mapValues fun _ names =>
    .ofList (names.entries.map fun entry => (unqualified entry.1, entry.2))

/-- A table of qualified names comes back from its bare form. -/
theorem qualified_bare {table : EnumTable}
    (named : ∀ group ∈ table.entries, ∀ entry ∈ group.2.entries,
      qualify (unqualified entry.1) = entry.1) : table.bare.qualified = table := by
  rw [qualified, bare, OrderedMap.mapValues_mapValues]
  refine OrderedMap.mapValues_eq_self fun group member => OrderedMap.ext_entries ?_
  have renamed : (group.2.entries.map fun entry => (unqualified entry.1, entry.2)).map
      (fun entry => (qualify entry.1, entry.2)) = group.2.entries := by
    rw [List.map_map]
    refine (List.map_congr_left fun entry held => ?_).trans (List.map_id _)
    rw [Function.comp_apply, named group member entry held]
    rfl
  have distinct : ((group.2.entries.map fun entry =>
      (unqualified entry.1, entry.2)).map Prod.fst).Nodup := by
    refine List.Nodup.of_map qualify ?_
    have keys := congrArg (List.map Prod.fst) renamed
    rw [List.map_map, Function.comp_def] at keys
    rw [List.map_map, Function.comp_def]
    exact keys ▸ group.2.nodup
  rw [OrderedMap.entries_mapKeys, OrderedMap.entries_ofList distinct, renamed]

/-- Every enumerant that is read stands on a line of its own. -/
theorem giving_mem_shapes {source : String} {group : String × OrderedMap String EnumValue}
    (held : group ∈ (parse source).entries) {entry : String × EnumValue}
    (member : entry ∈ group.2.entries) :
    EnumLine.giving (unqualified entry.1) entry.2 ∈ shapes source ∧
      qualify (unqualified entry.1) = entry.1 := by
  have found : (parse source).get? group.1 = some group.2 :=
    OrderedMap.valueOf_of_mem (parse source).nodup held
  rw [get?_parse] at found
  split at found
  · have names := Option.some.inj found
    rw [← names] at member
    have own := OrderedMap.mem_of_mem_entries_ofList member
    obtain ⟨⟨owner, line⟩, owned, gives⟩ := List.mem_filterMap.1 own
    have read : line ∈ shapes source := mem_of_mem_owned owned
    dsimp only at gives
    split at gives
    · cases line with
      | passthru => cases gives
      | sectionOf api => cases gives
      | literal name value =>
        cases gives
        dsimp only [EnumLine.giving]
        rw [unqualified_qualify name]
        exact ⟨read, rfl⟩
      | borrowed api name =>
        cases gives
        dsimp only [EnumLine.giving]
        rw [unqualified_qualify name]
        exact ⟨read, rfl⟩
    · cases gives
  · cases found

theorem ofWords_of_mem_shapes {source : String} {line : EnumLine} (read : line ∈ shapes source) :
    line.OfWords := by
  obtain ⟨text, _, classified⟩ := List.mem_filterMap.1 read
  exact EnumLine.ofWords_of_classify classified

/-- An API of the parsed table has a heading in the spec. -/
theorem sectionOf_mem_shapes {source api : String} (known : api ∈ (parse source).keys) :
    .sectionOf api ∈ shapes source := by
  rw [keys_parse, List.mem_eraseDups] at known
  obtain ⟨line, read, opens⟩ := List.mem_filterMap.1 known
  cases line with
  | sectionOf api =>
    cases opens
    exact read
  | passthru => cases opens
  | literal name value => cases opens
  | borrowed api name => cases opens

/-- The bare form of a parsed table consists of words. -/
theorem ofWords_toLines_bare (source : String) :
    ∀ line ∈ (parse source).bare.toLines, line.OfWords ∧ line ≠ .passthru := by
  intro line member
  obtain ⟨group, held, written⟩ := List.mem_flatMap.1 member
  obtain ⟨original, known, rfl⟩ := List.mem_map.1 held
  rcases List.mem_cons.1 written with rfl | written
  · have opened := sectionOf_mem_shapes (List.mem_map_of_mem known)
    exact ⟨ofWords_of_mem_shapes opened, by simp⟩
  · obtain ⟨entry, named, rfl⟩ := List.mem_map.1 written
    obtain ⟨first, listed, rfl⟩ := List.mem_map.1 (OrderedMap.mem_of_mem_entries_ofList named)
    refine ⟨ofWords_of_mem_shapes (giving_mem_shapes known listed).1, ?_⟩
    cases first.2 <;> simp [EnumLine.giving]

/-- **Reading what is written.** Any way to write a table of words is read as that table, with
each name in its namespace. Every table that is read from a source is such a table, and any
way to write it is read as the same table again. -/
theorem parse_reads_what_is_written :
    (∀ (table : EnumTable) (source : String), table.WrittenAs (Text.lines source) →
      parse source = table.qualified) ∧
    (∀ source : String, ∃ table : EnumTable, parse source = table.qualified ∧
      table.WrittenAs (Text.lines table.text) ∧
      ∀ again : String, table.WrittenAs (Text.lines again) → parse again = parse source) := by
  refine ⟨fun table source written => parse_of_written written, ?_⟩
  intro source
  have same : (parse source).bare.qualified = parse source :=
    qualified_bare fun group held entry member => (giving_mem_shapes held member).2
  refine ⟨(parse source).bare, same.symm, writtenAs_text (ofWords_toLines_bare source), ?_⟩
  intro again written
  rw [parse_of_written written, same]

/-- A table whose names are the keywords of the grammar. -/
def keywords : EnumTable where
  entries := [
    ("passthru", ⟨[("use", .literal "enum"), ("enum", .reference "passthru")], by decide⟩),
    ("enum", ⟨[("WGL_use", .literal "0x1")], by decide⟩)]
  nodup := by decide

/-- Lines that write names like the words of the grammar. -/
def keywordLines : List (List Char) :=
  [[] ++ '#' :: " enum.spec".toList,
    [] ++ "passthru:".toList ++ " /* use */".toList,
    "  ".toList ++ ("passthru".toList ++ " ".toList ++ "enum:".toList) ++
      ([] ++ '#' :: "use".toList),
    [] ++ ("use".toList ++ [] ++ '=' :: ([] ++ "enum".toList)) ++
      ("\t".toList ++ '#' :: " passthru:".toList),
    " ".toList ++ (Spec.opener ++ " use # X = 1 ".toList ++ Spec.closer) ++ [],
    [] ++ (Spec.opener ++ " X = 2 ".toList ++ Spec.closer) ++
      ("\t".toList ++ (Spec.opener ++ " # X = 3 ".toList ++ Spec.closer) ++ []),
    [] ++ (Spec.opener ++ " X = 4 */ X = 5 /*".toList ++ Spec.closer) ++
      (" ".toList ++ '#' :: " X = 6".toList),
    "\t".toList ++ ("use".toList ++ " \t".toList ++ "passthru".toList ++ " ".toList ++
      "enum".toList) ++ [],
    [] ++ ("enum".toList ++ " ".toList ++ "enum:".toList) ++ [],
    " ".toList ++ ("WGL_use".toList ++ "\t".toList ++ '=' :: (" ".toList ++ "0x1".toList)) ++
      (" ".toList ++ '#' :: " = 2".toList)]

/-- The words of the grammar are names like others, where names are read. -/
theorem parse_reads_written_keywords :
    keywords.WrittenAs (Text.lines (ofLines keywordLines)) ∧
      parse (ofLines keywordLines) = keywords.qualified := by
  have cut : Text.lines (ofLines keywordLines) = keywordLines := lines_ofLines (by decide)
  have written : keywords.WrittenAs (Text.lines (ofLines keywordLines)) := by
    rw [cut]
    refine .other (.empty (.tail (.comment (by decide) _))) (.other (.passthru (by decide) _) ?_)
    refine .item (.framed (by decide) (.sectionOf (by decide) (by decide) (by decide))
      (.comment (by decide) _)) ?_
    refine .item (.framed (by decide) (.literal (by decide) (by decide) (by decide) (by decide))
      (.comment (by decide) _)) ?_
    refine .other (.empty (.block (by decide) (by decide) (.tail (.blank (by decide))))) ?_
    refine .other (.empty (.block (by decide) (by decide) (.block (by decide) (by decide)
      (.tail (.blank (by decide)))))) ?_
    refine .other (.empty (.span (by decide) (Spec.hashesEscaped_of_not_mem (by decide))
      (.comment (by decide) _))) ?_
    refine .item (.framed (by decide) (.borrowed (by decide) (by decide) (by decide) (by decide)
      (by decide) (by decide)) (.blank (by decide))) ?_
    refine .item (.framed (by decide) (.sectionOf (by decide) (by decide) (by decide))
      (.blank (by decide))) ?_
    exact .item (.framed (by decide) (.literal (by decide) (by decide) (by decide) (by decide))
      (.comment (by decide) _)) .nil
  exact ⟨written, parse_reads_what_is_written.1 keywords (ofLines keywordLines) written⟩

end EnumTable

end ExtensionLoader
