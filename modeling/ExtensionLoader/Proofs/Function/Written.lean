import ExtensionLoader.Proofs.Function.Blocks
import ExtensionLoader.Proofs.Spec.Line
import ExtensionLoader.Proofs.Text.Lines

/-! # Reading the declarations of a function spec

A declaration is a header with an argument list, one return type, one category and any number
of parameters, each on a line of its own (`FunctionLine.Spells`). A spec that writes different
functions in this way, with any layout and any other fields, directives and comments in
between, is read as exactly these functions (`FunctionTable.parse_reads_declarations`).
-/

namespace ExtensionLoader

open Text

/-- The first line of a spec tells its dialect, in letters of either case. -/
inductive Dialect.ToldBy (line : List Char) : Dialect → Prop
  | wgl (told : "wgl".toList <:+: lowerAscii line) : ToldBy line .wgl
  | glx (silent : ¬ "wgl".toList <:+: lowerAscii line)
    (told : "glx".toList <:+: lowerAscii line) : ToldBy line .glx
  | core (silent : ¬ "wgl".toList <:+: lowerAscii line)
    (silentAgain : ¬ "glx".toList <:+: lowerAscii line) : ToldBy line .core

namespace FunctionLine

/-- The content of a line of a declaration. -/
inductive Spells : FunctionLine → List Char → Prop
  /-- `<name>(<arguments>)` -/
  | header {name : String} {arguments : List Char} (word : isWord name.toList = true)
    (escaped : Spec.HashesEscaped arguments) (noOpener : ¬ Spec.opener <:+: arguments) :
    Spells (.header name) (name.toList ++ '(' :: (arguments ++ [')']))
  /-- `return <type>` or `category <api>` -/
  | single {key value : String} {gap : List Char} (known : key ∈ ["return", "category"])
    (word : isWord value.toList = true) (blank : AllBlank gap) (apart : gap ≠ []) :
    Spells (.field key value "" []) (key.toList ++ gap ++ value.toList)
  /-- `param <name> <type> <modifiers>` -/
  | parameter {name type : String} {modifiers first second third : List Char}
    (nameWord : isWord name.toList = true) (typeWord : isWord type.toList = true)
    (escaped : Spec.HashesEscaped modifiers) (noOpener : ¬ Spec.opener <:+: modifiers)
    (blankFirst : AllBlank first) (apartFirst : first ≠ []) (blankSecond : AllBlank second)
    (apartSecond : second ≠ []) (blankThird : AllBlank third)
    (apartThird : modifiers ≠ [] → third ≠ []) :
    Spells (.field "param" name type modifiers)
      ("param".toList ++ first ++ name.toList ++ second ++ type.toList ++ (third ++ modifiers))

/-- A line with a content, between an indentation and a tail. A hash directly behind a
backslash opens no comment. -/
inductive WrittenAs (shape : FunctionLine) : List Char → Prop
  | framed {indent content tail : List Char} (blank : AllBlank indent)
    (spelled : Spells shape content) (ends : Spec.Tail tail)
    (unescaped : tail.head? = some '#' → content.getLast? ≠ some '\\') :
    WrittenAs shape (indent ++ content ++ tail)

/-- A line that declares nothing: a blank one, a comment alone, a directive, or a field of
another key. -/
inductive Filler : List Char → Prop
  | empty {line : List Char} (only : Spec.Commentary line) : Filler line
  | directive {indent name : List Char} (blank : AllBlank indent) (nonempty : name ≠ [])
    (named : ∀ c ∈ name, isWordChar c = true ∨ c = '-') (text : List Char) :
    Filler (indent ++ (name ++ [':']) ++ text)
  | other {indent gap value : List Char} {key : String} (blank : AllBlank indent)
    (keyWord : isWord key.toList = true) (unknown : key ∉ ["category", "return", "param"])
    (blankGap : AllBlank gap) (apart : gap ≠ []) (valueWord : isWord value = true)
    (text : List Char) : Filler (indent ++ (key.toList ++ gap ++ value) ++ text)

end FunctionLine

/-- The words among the modifiers of a parameter that make it a pointer. -/
def IsPointer (modifiers : List Char) : Prop :=
  HasWord modifiers "array".toList ∨ HasWord modifiers "reference".toList

/-- The word among the modifiers of a parameter that makes a pointer constant. -/
def IsInput (modifiers : List Char) : Prop := HasWord modifiers "in".toList

theorem isPointer_iff (modifiers : List Char) :
    (containsWord modifiers "array".toList || containsWord modifiers "reference".toList) = true ↔
      IsPointer modifiers := by
  rw [Bool.or_eq_true, containsWord_iff (by decide), containsWord_iff (by decide), IsPointer]

theorem isInput_iff (modifiers : List Char) :
    containsWord modifiers "in".toList = true ↔ IsInput modifiers :=
  containsWord_iff (by decide) modifiers

instance : DecidablePred IsPointer := fun modifiers =>
  decidable_of_iff _ (isPointer_iff modifiers)

instance : DecidablePred IsInput := fun modifiers => decidable_of_iff _ (isInput_iff modifiers)

namespace FunctionTable

/-- A line of a declaration behind its header. -/
inductive Given
  | returned (type : String)
  | filed (category : String)
  | parameter (name type : String) (modifiers : List Char)

namespace Given

/-- The line a property is written as. -/
def line : Given → FunctionLine
  | returned type => .field "return" type "" []
  | filed category => .field "category" category "" []
  | parameter name type modifiers => .field "param" name type modifiers

/-- The type a property returns, when it is a return type. -/
def returned? : Given → Option String
  | returned type => some type
  | _ => none

/-- The category a property files under, when it is a category. -/
def filed? : Given → Option String
  | filed category => some category
  | _ => none

/-- The C parameter that a line gives. -/
def parameter? (types : TypeMap) : Given → Option Parameter
  | parameter name type modifiers =>
    some ⟨if IsPointer modifiers then
        (if IsInput modifiers then "const " else "") ++ types.translate type ++ "*"
      else types.translate type, name⟩
  | _ => none

end Given

/-- A function with what is given for it, among that one return type and one category. -/
structure Declaration where
  name : String
  given : List Given
  returnType : String
  category : String
  returns : given.filterMap Given.returned? = [returnType]
  files : given.filterMap Given.filed? = [category]

namespace Declaration

/-- The lines a declaration is written as: the header and its properties. -/
def lines (declaration : Declaration) : List FunctionLine :=
  .header declaration.name :: declaration.given.map Given.line

/-- The function that is declared. -/
def record (dialect : Dialect) (types : TypeMap) (declaration : Declaration) : FunctionRecord where
  returnType := types.translate declaration.returnType
  name := functionName dialect declaration.name
  parameters := declaration.given.filterMap (Given.parameter? types)

end Declaration

/-- A source that tells its dialect in a comment on its first line, and writes declarations of
different functions on the others. -/
structure Writes (dialect : Dialect) (declarations : List Declaration) (source : String) :
    Prop where
  distinct : (declarations.map Declaration.name).Nodup
  written : ∃ first rest, Text.lines source = first :: rest ∧ Spec.Commentary first ∧
    dialect.ToldBy first ∧
    Spec.Layout FunctionLine.WrittenAs FunctionLine.Filler
      (declarations.flatMap Declaration.lines) rest

end FunctionTable

theorem Dialect.ofFirstLine_of_toldBy {line : List Char} {dialect : Dialect}
    (told : dialect.ToldBy line) : ofFirstLine line = dialect := by
  cases told with
  | wgl told => rw [ofFirstLine, if_pos (holds_iff.2 told)]
  | glx silent told =>
    rw [ofFirstLine, if_neg (mt holds_iff.1 silent), if_pos (holds_iff.2 told)]
  | core silent silentAgain =>
    rw [ofFirstLine, if_neg (mt holds_iff.1 silent), if_neg (mt holds_iff.1 silentAgain)]

namespace FunctionLine

variable {word gap rest line content : List Char} {shape : FunctionLine}

/-- A line that starts with a word is told by what follows the word. -/
theorem classify_word (isWord : isWord word = true)
    (ends : ∀ c ∈ rest.head?, isWordChar c = false ∧ c ≠ '-' ∧ c ≠ ':') :
    classify (word ++ rest) =
      if rest.head? = some '(' ∧ rest.getLast? = some ')' then
        some (.header (String.ofList word))
      else field? word rest := by
  have inWord := (isWord_iff.1 isWord).2
  have named : ∀ c ∈ word, (isWordChar c || c == '-') = true := by
    intro c member
    rw [inWord c member, Bool.true_or]
  have stops : rest.dropWhile (fun c => isWordChar c || c == '-') = rest := by
    cases rest with
    | nil => rfl
    | cons c rest =>
      obtain ⟨foreign, noHyphen, _⟩ := ends c rfl
      exact List.dropWhile_cons_of_neg (by simp [foreign, noHyphen])
  have noColon : (rest.head? == some ':') = false := by
    rw [beq_eq_false_iff_ne]
    intro head
    exact (ends ':' head).2.2 rfl
  -- The word ends where the name of a directive would, but no colon follows.
  have plain : isDirective (word ++ rest) = false := by
    rw [isDirective]
    simp only [List.dropWhile_append_of_pos named, stops, noColon, Bool.and_false]
  have cut := splitWord_word_append inWord fun c head => (ends c head).1
  have nonempty : word.isEmpty = false := by simp [isWord_ne_nil isWord]
  rw [classify, plain, cut]
  simp only [Bool.false_eq_true, ↓reduceIte, nonempty]

theorem classify_header {name : String} {arguments : List Char}
    (word : isWord name.toList = true) :
    classify (name.toList ++ '(' :: (arguments ++ [')'])) = some (.header name) := by
  have closes : ('(' :: (arguments ++ [')'])).getLast? = some ')' := by
    rw [← List.cons_append, List.getLast?_concat]
  rw [classify_word word (by simp [isWordChar]), if_pos ⟨rfl, closes⟩, String.ofList_toList]

theorem classify_keyed (isWord : isWord word = true) (blank : AllBlank gap) (apart : gap ≠ []) :
    classify (word ++ (gap ++ rest)) = field? word (gap ++ rest) := by
  rw [classify_word isWord, if_neg]
  · rintro ⟨opens, _⟩
    exact ne_of_isBlank (isBlank_of_mem_head? blank apart opens) rfl rfl
  · intro c head
    have isBlank := isBlank_of_mem_head? blank apart head
    exact ⟨isWordChar_of_isBlank isBlank, ne_of_isBlank isBlank rfl, ne_of_isBlank isBlank rfl⟩

/-- Behind the key and a gap, the field's value is the next word. -/
theorem field?_gap_append (key : String) {value : String} (isWord : isWord value.toList = true)
    (blank : AllBlank gap) (apart : gap ≠ []) (ends : ∀ c ∈ rest.head?, isWordChar c = false) :
    field? key.toList (gap ++ (value.toList ++ rest)) =
      some (.field key value (String.ofList (splitWord (trimStart rest)).1)
        (splitWord (trimStart rest)).2) := by
  obtain ⟨c, others, rfl⟩ := List.exists_cons_of_ne_nil apart
  have opens : (((c :: others ++ (value.toList ++ rest)).head?.map isBlank).getD false) = true :=
    blank c List.mem_cons_self
  have start : trimStart (c :: others ++ (value.toList ++ rest)) = value.toList ++ rest := by
    rw [trimStart_append blank, trimStart_eq_self (isBlank_head?_word_append isWord rest)]
  have cut := splitWord_word_append (isWord_iff.1 isWord).2 ends
  have nonempty : value.toList.isEmpty = false := by simp [isWord_ne_nil isWord]
  rw [field?, if_pos opens, start, cut]
  simp only [nonempty, Bool.false_eq_true, ↓reduceIte, String.ofList_toList]

theorem classify_single {key value : String} (keyWord : isWord key.toList = true)
    (valueWord : isWord value.toList = true) (blank : AllBlank gap) (apart : gap ≠ []) :
    classify (key.toList ++ gap ++ value.toList) = some (.field key value "" []) := by
  have nothing : ∀ c ∈ ([] : List Char).head?, isWordChar c = false := fun c head => nomatch head
  have read := field?_gap_append key valueWord blank apart nothing
  rw [List.append_nil] at read
  rw [List.append_assoc, classify_keyed keyWord blank apart, read]
  rfl

/-- A `param` line gives the parameter's name, its type and its modifiers. -/
theorem classify_parameter {name type : String} {first second left : List Char}
    (nameWord : isWord name.toList = true) (typeWord : isWord type.toList = true)
    (blankFirst : AllBlank first) (apartFirst : first ≠ []) (blankSecond : AllBlank second)
    (apartSecond : second ≠ []) (apart : ∀ c ∈ left.head?, isBlank c = true) :
    classify ("param".toList ++ first ++ name.toList ++ second ++ type.toList ++ left) =
      some (.field "param" name type left) := by
  have keyWord : isWord "param".toList = true := by decide
  have ends : ∀ c ∈ (second ++ (type.toList ++ left)).head?, isWordChar c = false :=
    fun c head => isWordChar_of_isBlank (isBlank_of_mem_head? blankSecond apartSecond head)
  have read := field?_gap_append "param" nameWord blankFirst apartFirst ends
  have start : trimStart (second ++ (type.toList ++ left)) = type.toList ++ left := by
    rw [trimStart_append blankSecond, trimStart_eq_self (isBlank_head?_word_append typeWord left)]
  have cut : splitWord (type.toList ++ left) = (type.toList, left) :=
    splitWord_word_append (isWord_iff.1 typeWord).2 fun c head =>
      isWordChar_of_isBlank (apart c head)
  rw [start, cut, String.ofList_toList] at read
  simp only [List.append_assoc]
  rw [classify_keyed keyWord blankFirst apartFirst, read]

/-- The line without the blanks around its modifiers. -/
def trimmed : FunctionLine → FunctionLine
  | field key value type modifiers => field key value type (trim modifiers)
  | line => line

private theorem isWord_of_known : ∀ key ∈ ["return", "category"], isWord key.toList = true := by
  decide

private theorem counts_of_known :
    ∀ key ∈ ["return", "category"], key ∈ ["category", "return", "param"] := by
  decide

/-- Content is what it spells, up to blanks around the modifiers. -/
theorem classify_trim_of_spells (spelled : Spells shape content) :
    ∃ known, classify (trim content) = some known ∧ known.counts = true ∧
      known.trimmed = shape.trimmed := by
  cases spelled with
  | @header name arguments word escaped noOpener =>
    have starts := isBlank_head?_word_append word ('(' :: (arguments ++ [')']))
    have ends : ∀ c ∈ (name.toList ++ '(' :: (arguments ++ [')'])).getLast?,
        isBlank c = false := by
      intro c last
      rw [← List.cons_append, ← List.append_assoc, List.getLast?_concat] at last
      cases last
      rfl
    refine ⟨.header name, ?_, rfl, rfl⟩
    rw [trim_eq_self starts ends, classify_header word]
  | @single key value gap known word blank apart =>
    have keyWord := isWord_of_known key known
    have starts := isBlank_head?_word_append keyWord (gap ++ value.toList)
    have ends := isBlank_getLast?_append_word word (key.toList ++ gap)
    rw [← List.append_assoc] at starts
    refine ⟨.field key value "" [], ?_, decide_eq_true (counts_of_known key known), rfl⟩
    rw [trim_eq_self starts ends, classify_single keyWord word blank apart]
  | @parameter name type modifiers first second third nameWord typeWord _ _ blankFirst apartFirst
      blankSecond apartSecond blankThird apartThird =>
    -- Trimming the line takes blanks from the end of the modifiers, never the end of the type.
    have blankHead : ∀ c ∈ (trimEnd (third ++ modifiers)).head?, isBlank c = true := by
      intro c head
      have own := head?_of_trimEnd head
      by_cases given : modifiers = []
      · rw [given, List.append_nil] at own
        exact blankThird c (List.mem_of_mem_head? own)
      · exact isBlank_of_mem_head? blankThird (apartThird given) own
    have starts : ∀ c ∈ ("param".toList ++ first ++ name.toList ++ second ++ type.toList).head?,
        isBlank c = false := by
      intro c head
      simp only [List.append_assoc] at head
      exact isBlank_head?_word_append (by decide) _ c head
    refine ⟨.field "param" name type (trimEnd (third ++ modifiers)), ?_, rfl, ?_⟩
    · rw [trim_append_word typeWord starts, classify_parameter nameWord typeWord blankFirst
        apartFirst blankSecond apartSecond blankHead]
    · have blanks := trim_append blankThird modifiers allBlank_nil
      rw [List.append_nil] at blanks
      rw [trimmed, trimmed, trim_trimEnd, blanks]

/-- Content holds neither kind of comment. -/
theorem plain_of_spells (spelled : Spells shape content) :
    Spec.HashesEscaped content ∧ ¬ Spec.opener <:+: content := by
  cases spelled with
  | @header name arguments word escaped noOpener =>
    have lead {c : Char} (outside : isWordChar c = false) (other : c ≠ '(') :
        c ∉ name.toList ++ ['('] := by
      rw [List.mem_append, List.mem_singleton, not_or]
      exact ⟨not_mem_word word outside, other⟩
    have whole : name.toList ++ '(' :: (arguments ++ [')']) =
        (name.toList ++ ['(']) ++ (arguments ++ [')']) := by
      rw [List.append_assoc, List.singleton_append]
    rw [whole]
    exact ⟨(escaped.append_right (by decide)).append_left (lead rfl (by decide)),
      Spec.not_opener_infix_append_left (lead rfl (by decide))
        (Spec.not_opener_infix_append noOpener (by decide))⟩
  | @single key value gap known word blank apart =>
    have spaced : Spaced (key.toList ++ gap ++ value.toList) :=
      ((spaced_of_isWord (isWord_of_known key known)).append (spaced_of_allBlank blank)).append
        (spaced_of_isWord word)
    exact ⟨Spec.hashesEscaped_of_not_mem (not_mem_of_spaced spaced rfl rfl),
      fun within => not_mem_of_spaced spaced rfl rfl (within.subset List.mem_cons_self)⟩
  | @parameter name type modifiers first second third nameWord typeWord escaped noOpener
      blankFirst _ blankSecond _ blankThird _ =>
    have keyword : Spaced "param".toList := spaced_of_isWord (by decide)
    have lead : Spaced
        ("param".toList ++ first ++ name.toList ++ second ++ type.toList ++ third) :=
      ((((keyword.append (spaced_of_allBlank blankFirst)).append
        (spaced_of_isWord nameWord)).append (spaced_of_allBlank blankSecond)).append
        (spaced_of_isWord typeWord)).append (spaced_of_allBlank blankThird)
    rw [← List.append_assoc]
    exact ⟨escaped.append_left (not_mem_of_spaced lead rfl rfl),
      Spec.not_opener_infix_append_left (not_mem_of_spaced lead rfl rfl) noOpener⟩

/-- A field with another key counts for nothing. -/
theorem not_counts_of_field? {key behind : List Char} {known : FunctionLine}
    (read : field? key behind = some known)
    (unknown : String.ofList key ∉ ["category", "return", "param"]) : known.counts = false := by
  rw [field?] at read
  split at read
  · dsimp only at read
    split at read
    · cases read
    · cases read
      exact decide_eq_false unknown
  · cases read

/-- What a physical line gives to a block. -/
def read (line : List Char) : Option FunctionLine :=
  ((classify (Spec.cleanLine line)).filter counts).map trimmed

theorem read_of_writtenAs (written : WrittenAs shape line) : read line = some shape.trimmed := by
  cases written with
  | framed blank spelled ends unescaped =>
    obtain ⟨escaped, noOpener⟩ := plain_of_spells spelled
    obtain ⟨known, classified, counts, same⟩ := classify_trim_of_spells spelled
    rw [read, Spec.cleanLine_of_content blank escaped noOpener ends unescaped, classified,
      Option.filter_some, if_pos counts, Option.map_some, same]

/-- A directive is read as nothing. -/
theorem read_directive {indent name : List Char} (blank : AllBlank indent) (nonempty : name ≠ [])
    (named : ∀ c ∈ name, isWordChar c = true ∨ c = '-') (text : List Char) :
    read (indent ++ (name ++ [':']) ++ text) = none := by
  have absent {c : Char} (foreign : isWordChar c = false) (noHyphen : c ≠ '-')
      (noColon : c ≠ ':') : c ∉ name ++ [':'] := by
    intro member
    rcases List.mem_append.1 member with member | member
    · rcases named c member with inWord | same
      · rw [foreign] at inWord
        cases inWord
      · exact noHyphen same
    · exact noColon (List.mem_singleton.1 member)
  have starts : ∀ c ∈ (name ++ [':']).head?, isBlank c = false := by
    intro c head
    rw [List.head?_append_of_ne_nil _ nonempty] at head
    rcases named c (List.mem_of_mem_head? head) with inWord | rfl
    · exact isBlank_of_isWordChar inWord
    · rfl
  have ends : ∀ c ∈ (name ++ [':']).getLast?, isBlank c = false := by
    intro c last
    rw [List.getLast?_concat] at last
    cases last
    rfl
  obtain ⟨behind, cleaned⟩ := Spec.exists_cleanLine_eq blank (List.concat_ne_nil ':' name)
    (absent rfl (by decide) (by decide)) (absent rfl (by decide) (by decide)) starts ends text
  have directive : isDirective (name ++ [':'] ++ behind) = true := by
    have inside : ∀ c ∈ name, (isWordChar c || c == '-') = true := by
      intro c member
      simpa using named c member
    rw [isDirective, List.append_assoc]
    simp only [List.takeWhile_append_of_pos inside, List.dropWhile_append_of_pos inside]
    simp [nonempty, isWordChar]
  rw [read, cleaned, classify, if_pos directive]
  rfl

/-- A field with another key is read as nothing. -/
theorem read_other {indent value : List Char} {key : String} (blank : AllBlank indent)
    (keyWord : isWord key.toList = true) (unknown : key ∉ ["category", "return", "param"])
    (blankGap : AllBlank gap) (apart : gap ≠ []) (valueWord : isWord value = true)
    (text : List Char) : read (indent ++ (key.toList ++ gap ++ value) ++ text) = none := by
  have spaced : Spaced (key.toList ++ gap ++ value) :=
    ((spaced_of_isWord keyWord).append (spaced_of_allBlank blankGap)).append
      (spaced_of_isWord valueWord)
  have nonempty : key.toList ++ gap ++ value ≠ [] :=
    List.append_ne_nil_of_right_ne_nil _ (isWord_ne_nil valueWord)
  have starts := isBlank_head?_word_append keyWord (gap ++ value)
  rw [← List.append_assoc] at starts
  obtain ⟨behind, cleaned⟩ := Spec.exists_cleanLine_eq blank nonempty
    (not_mem_of_spaced spaced rfl rfl) (not_mem_of_spaced spaced rfl rfl) starts
    (isBlank_getLast?_append_word valueWord _) text
  rw [read, cleaned, List.append_assoc, List.append_assoc, classify_keyed keyWord blankGap apart]
  cases given : field? key.toList (gap ++ (value ++ behind)) with
  | none => rfl
  | some known =>
    rw [← String.ofList_toList (s := key)] at unknown
    rw [Option.filter_some, not_counts_of_field? given unknown]
    rfl

/-- A line that writes nothing is read as nothing. -/
theorem read_of_filler (filler : Filler line) : read line = none := by
  cases filler with
  | empty only =>
    rcases Spec.cleanLine_of_commentary only with nothing | ⟨behind, opened⟩
    · rw [read, nothing]
      rfl
    · rw [read, opened]
      rfl
  | directive blank nonempty named text => exact read_directive blank nonempty named text
  | other blank keyWord unknown blankGap apart valueWord text =>
    exact read_other blank keyWord unknown blankGap apart valueWord text

end FunctionLine

namespace FunctionTable

open FunctionLine (trimmed)

/-- Trimming modifiers moves no header. -/
theorem cutAtHeaders_map_trimmed (lines : List FunctionLine) :
    cutAtHeaders (lines.map trimmed) =
      (cutAtHeaders lines).map fun block => (block.1, block.2.map trimmed) := by
  have kept (rest : List FunctionLine) :
      (rest.map trimmed).takeWhile (fun line => !line.isHeader) =
        (rest.takeWhile fun line => !line.isHeader).map trimmed := by
    rw [List.takeWhile_map]
    congr 2
    funext line
    cases line <;> rfl
  induction lines with
  | nil => rfl
  | cons line rest ih =>
    cases line with
    | directive => exact ih
    | header name =>
      rw [List.map_cons, trimmed, cutAtHeaders, cutAtHeaders, List.map_cons, ih, kept]
      all_goals simp
    | field key value type modifiers => exact ih

/-- Trimming modifiers changes a field in that alone. -/
theorem field?_trimmed (key : String) (line : FunctionLine) :
    field? key line.trimmed =
      (field? key line).map fun field => { field with modifiers := trim field.modifiers } := by
  cases line with
  | directive => rfl
  | header name => rfl
  | field known value type modifiers =>
    rw [trimmed, field?, field?]
    split <;> rfl

theorem parameterType_trim (types : TypeMap) (type : String) (modifiers : List Char) :
    parameterType types type (trim modifiers) = parameterType types type modifiers := by
  rw [parameterType, containsWord_trim (by decide), containsWord_trim (by decide),
    containsWord_trim (by decide), parameterType]

/-- Trimming modifiers changes no function. -/
theorem kept_map_trimmed (dialect : Dialect) (types : TypeMap)
    (cut : List (String × List FunctionLine)) :
    kept dialect types (cut.map fun block => (block.1, block.2.map trimmed)) =
      kept dialect types cut := by
  have fields (key : String) (block : List FunctionLine) :
      (block.map trimmed).filterMap (field? key) =
        (block.filterMap (field? key)).map fun field =>
          { field with modifiers := trim field.modifiers } := by
    rw [List.filterMap_map, List.map_filterMap]
    congr 1
    funext line
    exact field?_trimmed key line
  refine kept_map_blocks dialect types cut (fun block => ?_) fun name block => ?_
  · rw [categoryOf, fields, List.getLast?_map, Option.map_map, categoryOf]
    rfl
  · have parameters : parametersOf types (block.map trimmed) = parametersOf types block := by
      rw [parametersOf, fields, List.map_map, parametersOf]
      congr 1
      funext field
      rw [Function.comp_apply, parameterType_trim]
    rw [recordOf, parameters, returnTypeOf, fields, List.getLast?_map, Option.map_map, recordOf,
      returnTypeOf]
    rfl

/-- Only what the physical lines give to blocks is kept. -/
theorem kept_read (dialect : Dialect) (types : TypeMap) (source : String) :
    kept dialect types (cutAtHeaders (shapes source)) =
      kept dialect types
        (cutAtHeaders ((Text.lines source).filterMap FunctionLine.read)) := by
  have same : ((shapes source).filter FunctionLine.counts).map trimmed =
      (Text.lines source).filterMap FunctionLine.read := by
    rw [shapes, Spec.filterMap_cleanedLines rfl, List.filter_filterMap, List.map_filterMap]
    rfl
  rw [← same, cutAtHeaders_map_trimmed, kept_map_trimmed, cutAtHeaders_filter_counts,
    kept_filter_counts]

/-- A block reaches to the next header. -/
theorem takeWhile_lines_append {block rest : List FunctionLine}
    (fields : ∀ line ∈ block, line.isHeader = false)
    (starts : ∀ line ∈ rest.head?, line.isHeader = true) :
    ((block ++ rest).takeWhile fun line => !line.isHeader) = block ∧
      cutAtHeaders (block ++ rest) = cutAtHeaders rest := by
  induction block with
  | nil =>
    cases rest with
    | nil => exact ⟨rfl, rfl⟩
    | cons line rest => simp [starts line rfl]
  | cons line block ih =>
    obtain ⟨taken, cut⟩ := ih fun other member => fields other (List.mem_cons_of_mem line member)
    have field := fields line List.mem_cons_self
    rw [List.cons_append, List.takeWhile_cons_of_pos (by simp [field]), taken]
    cases line with
    | header name => cases field
    | directive => exact ⟨rfl, cut⟩
    | field key value type modifiers => exact ⟨rfl, cut⟩

/-- Written declarations are cut into what each declares. -/
theorem cutAtHeaders_lines (declarations : List Declaration) :
    cutAtHeaders (declarations.flatMap Declaration.lines) =
      declarations.map fun declaration =>
        (declaration.name, declaration.given.map Given.line) := by
  induction declarations with
  | nil => rfl
  | cons declaration rest ih =>
    have fields : ∀ line ∈ declaration.given.map Given.line, line.isHeader = false := by
      intro line member
      obtain ⟨given, _, rfl⟩ := List.mem_map.1 member
      cases given <;> rfl
    have starts : ∀ line ∈ (rest.flatMap Declaration.lines).head?, line.isHeader = true := by
      intro line head
      cases rest with
      | nil => cases head
      | cons next rest =>
        cases head
        rfl
    obtain ⟨taken, cut⟩ := takeWhile_lines_append fields starts
    rw [List.flatMap_cons, Declaration.lines, List.cons_append, cutAtHeaders, taken, cut, ih,
      List.map_cons]

/-- A declaration is filed under its category. -/
theorem categoryOf_given (dialect : Dialect) (declaration : Declaration) :
    categoryOf dialect (declaration.given.map Given.line) =
      some (filedUnder dialect declaration.category) := by
  have fields : (declaration.given.map Given.line).filterMap (field? "category") =
      (declaration.given.filterMap Given.filed?).map fun category => ⟨category, "", []⟩ := by
    rw [List.filterMap_map, List.map_filterMap]
    congr 1
    funext given
    cases given <;> rfl
  rw [categoryOf, fields, declaration.files]
  rfl

/-- The C type of a parameter: that of its spec type, a pointer where the modifiers say so, and
constant where it is an input. -/
theorem parameterType_eq (types : TypeMap) (type : String) (modifiers : List Char) :
    parameterType types type modifiers =
      if IsPointer modifiers then
        (if IsInput modifiers then "const " else "") ++ types.translate type ++ "*"
      else types.translate type := by
  unfold parameterType
  simp only [isPointer_iff, isInput_iff]
  split
  · split
    · rfl
    · rw [String.empty_append]
      rfl
  · rfl

/-- A declaration's block gives the function it declares. -/
theorem recordOf_given (dialect : Dialect) (types : TypeMap) {declaration : Declaration}
    (typed : ∀ name type modifiers,
      Given.parameter name type modifiers ∈ declaration.given → type ≠ "") :
    recordOf dialect types declaration.name (declaration.given.map Given.line) =
      declaration.record dialect types := by
  have returned : (declaration.given.map Given.line).filterMap (field? "return") =
      (declaration.given.filterMap Given.returned?).map fun type => ⟨type, "", []⟩ := by
    rw [List.filterMap_map, List.map_filterMap]
    congr 1
    funext given
    cases given <;> rfl
  have parameters : parametersOf types (declaration.given.map Given.line) =
      declaration.given.filterMap (Given.parameter? types) := by
    rw [parametersOf, List.filterMap_map, List.map_filterMap]
    refine List.filterMap_congr fun given member => ?_
    cases given with
    | returned type => rfl
    | filed category => rfl
    | parameter name type modifiers =>
      have nonempty := typed name type modifiers member
      rw [Given.parameter?, ← parameterType_eq]
      simp [Given.line, field?, nonempty]
  rw [recordOf, returnTypeOf, returned, declaration.returns, parameters]
  rfl

variable {dialect : Dialect} {declarations : List Declaration} {source : String}

/-- The parameters of a written declaration have types. -/
theorem typed_of_writes (written : Writes dialect declarations source)
    {declaration : Declaration} (member : declaration ∈ declarations)
    (name type : String) (modifiers : List Char)
    (given : Given.parameter name type modifiers ∈ declaration.given) : type ≠ "" := by
  obtain ⟨_, rest, _, _, _, layout⟩ := written.written
  have line : Given.line (.parameter name type modifiers) ∈
      declarations.flatMap Declaration.lines :=
    List.mem_flatMap.2 ⟨declaration, member, List.mem_cons_of_mem _ (List.mem_map_of_mem given)⟩
  -- The line is written somewhere, and no type is left out of what is written.
  obtain ⟨text, ⟨_, spelled, _, _⟩⟩ := layout.exists_of_mem line
  cases spelled with
  | single known _ _ _ => exact absurd known (by decide)
  | parameter _ typeWord _ _ _ _ _ _ _ _ =>
    rintro rfl
    cases typeWord

theorem dialectOf_of_writes (written : Writes dialect declarations source) :
    dialectOf source = dialect := by
  obtain ⟨first, rest, cut, _, told, _⟩ := written.written
  rw [dialectOf, cut, List.headD_cons, Dialect.ofFirstLine_of_toldBy told]

theorem filterMap_read_of_writes (written : Writes dialect declarations source) :
    (Text.lines source).filterMap FunctionLine.read =
      (declarations.flatMap Declaration.lines).map trimmed := by
  obtain ⟨first, rest, cut, comment, _, layout⟩ := written.written
  have nothing : FunctionLine.read first = none := FunctionLine.read_of_filler (.empty comment)
  rw [cut, List.filterMap_cons_none nothing]
  exact layout.filterMap_eq FunctionLine.read trimmed
    (fun _ _ => FunctionLine.read_of_writtenAs) (fun _ => FunctionLine.read_of_filler)

/-- Each declaration is kept under its category, in order. -/
theorem kept_of_writes (written : Writes dialect declarations source) (types : TypeMap) :
    kept dialect types (cutAtHeaders (shapes source)) =
      declarations.map fun declaration =>
        (filedUnder dialect declaration.category, declaration.record dialect types) := by
  have distinct : ((declarations.map fun declaration =>
      (declaration.name, declaration.given.map Given.line)).map Prod.fst).Nodup := by
    rw [List.map_map]
    exact written.distinct
  rw [kept_read, filterMap_read_of_writes written, cutAtHeaders_map_trimmed, kept_map_trimmed,
    cutAtHeaders_lines, kept_of_nodup dialect types distinct, List.filterMap_map]
  refine (List.filterMap_congr fun declaration member => ?_).trans
    (congrFun List.filterMap_eq_map declarations)
  rw [Function.comp_apply, Function.comp_apply, categoryOf_given, Option.map_some,
    recordOf_given dialect types (typed_of_writes written member)]

/-- **Reading what is declared.** A spec that writes declarations of different functions is read
as one record for each of them, under its category and in order; nothing else is in the
table. -/
theorem parse_reads_declarations (types : TypeMap)
    (written : Writes dialect declarations source) :
    let functions := declarations.map fun declaration =>
      (filedUnder dialect declaration.category, declaration.record dialect types)
    (parse source types).keys = (functions.map Prod.fst).eraseDups ∧
    (∀ category, (parse source types).get? category =
      if category ∈ functions.map Prod.fst then
        some ((functions.filter fun filed => filed.1 = category).map Prod.snd)
      else none) ∧
    (parse source types).values.flatten.Perm (functions.map Prod.snd) := by
  intro functions
  have table : parse source types = .collect functions := by
    rw [parse_eq_collect, dialectOf_of_writes written, kept_of_writes written]
  rw [table]
  exact ⟨OrderedMap.keys_collect functions, OrderedMap.get?_collect functions,
    OrderedMap.perm_flatten_values_collect functions⟩

/-- A declaration of a function of a vendor, with an input array. -/
def copyDeclaration : Declaration where
  name := "Copy"
  given := [.filed "ARB", .parameter "from" "Int32" "in array [n]".toList, .returned "Flag"]
  returnType := "Flag"
  category := "ARB"
  returns := rfl
  files := rfl

/-- A spec that declares it, with what does not count around it. -/
def copyLines : List (List Char) :=
  [[] ++ '#' :: " WGL.spec".toList,
    [] ++ ("Copy".toList ++ '(' :: ("from) (n".toList ++ [')'])) ++
      (" ".toList ++ '#' :: " Copy".toList),
    "\t".toList ++ ("category".toList ++ " ".toList ++ "ARB".toList) ++ ([] ++ '#' :: "wgl".toList),
    "\t".toList ++ ("version".toList ++ " ".toList ++ "1".toList) ++ ".0 /* category".toList,
    [] ++ ("param".toList ++ [':']) ++ " n Int32".toList,
    "\t".toList ++ ("param".toList ++ " ".toList ++ "from".toList ++ "\t".toList ++
      "Int32".toList ++ (" ".toList ++ "in array [n]".toList)) ++ [],
    "\t".toList ++ ("return".toList ++ "  ".toList ++ "Flag".toList) ++ " ".toList]

/-- A type map with a target that is itself a type of the map. -/
def copyTypes : TypeMap := .ofList [("Flag", "BOOL"), ("Int32", "GLint"), ("GLint", "int")]

/-- The example's function is read as declared. -/
theorem parse_reads_copy_declaration :
    Writes .wgl [copyDeclaration] (ofLines copyLines) ∧
    (parse (ofLines copyLines) copyTypes).get? "WGL_ARB" =
      some [⟨"BOOL", "wglCopy", [⟨"const GLint*", "from"⟩]⟩] := by
  have cut : Text.lines (ofLines copyLines) = copyLines := lines_ofLines (by decide)
  have written : Writes .wgl [copyDeclaration] (ofLines copyLines) := by
    refine ⟨by decide, _, _, cut, .tail (.comment (by decide) _), .wgl (by decide), ?_⟩
    have plain {text : List Char} : '#' ∉ text → Spec.HashesEscaped text :=
      Spec.hashesEscaped_of_not_mem
    refine .item (.framed (by decide) (.header (by decide) (plain (by decide)) (by decide))
      (.comment (by decide) _) (by decide)) ?_
    refine .item (.framed (by decide) (.single (by decide) (by decide) (by decide) (by decide))
      (.comment (by decide) _) (by decide)) ?_
    refine .other (.other (by decide) (by decide) (by decide) (by decide) (by decide)
      (by decide) _) ?_
    refine .other (.directive (by decide) (by decide) (by simp [isWordChar]) _) ?_
    refine .item (.framed (by decide) (.parameter (by decide) (by decide) (plain (by decide))
      (by decide) (by decide) (by decide) (by decide) (by decide) (by decide) (by decide))
      (.blank (by decide)) (by decide)) ?_
    exact .item (.framed (by decide) (.single (by decide) (by decide) (by decide) (by decide))
      (.blank (by decide)) (by decide)) .nil
  refine ⟨written, ?_⟩
  rw [(parse_reads_declarations copyTypes written).2.1]
  decide

end FunctionTable

end ExtensionLoader
