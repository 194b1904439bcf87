import ExtensionLoader.Proofs.Yaml.Scalar
import ExtensionLoader.Yaml.Token.Lexer

/-! # Steps of the lexer

Outside of brackets, and with no collection open but a mapping at the first column, the lexer
stands at the start of a line, behind a key, or behind the mark of a value or an item. What it does
there is told by one lemma for each token (`Lexer.readOn_key`, `Lexer.readOn_colon`,
`Lexer.readOn_hyphen`, `Lexer.readOn_scalar`), from where a token starts to where the next one does.
-/

namespace ExtensionLoader.Yaml.Lexer

/-- What is done where the next token starts, with the gap before it skipped. -/
def readOn (fuel : Nat) (lexer : Lexer) : Except Fault (List Token) :=
  match lexer.rest with
  | [] => do
    let lexer ← lexer.closeAll.dropCandidate
    return lexer.tokens.toList
  | c :: rest => do
    Lexer.readTokens fuel (← (lexer.closeBehind lexer.place.column).readToken c rest.head?)

/-- Where the lexer gets when it skips a gap and gives up the key candidates that are too far
back. -/
def ready (lexer : Lexer) : Except Fault Lexer := lexer.toNext.reviewAll

theorem readTokens_of_ready {lexer next : Lexer} (ready : lexer.ready = .ok next) (fuel : Nat) :
    readTokens (fuel + 1) lexer = readOn fuel next := by
  rw [Lexer.ready] at ready
  rw [readTokens, ready]
  rfl

/-- No collection is open, or one at the first column. -/
inductive Outermost : List Nat → Prop
  | none : Outermost []
  | first : Outermost [0]

theorem closeBehind_outermost {lexer : Lexer} (outermost : Outermost lexer.columns)
    (column : Nat) : lexer.closeBehind column = lexer := by
  obtain ⟨place, rest, tokens, columns, keyAllowed, candidate, outer⟩ := lexer
  rw [closeBehind]
  split
  · rfl
  · cases outermost <;> simp

/-- One token is read, and the gap behind it is skipped. -/
theorem readOn_token {lexer after next : Lexer} {c : Char} {rest : List Char}
    (outermost : Outermost lexer.columns) (left : lexer.rest = c :: rest)
    (token : lexer.readToken c rest.head? = .ok after) (ready : after.ready = .ok next)
    (fuel : Nat) : readOn (fuel + 1) lexer = readOn fuel next := by
  rw [readOn, left]
  change ((lexer.closeBehind _).readToken c rest.head? >>= readTokens (fuel + 1)) = _
  rw [closeBehind_outermost outermost, token]
  exact readTokens_of_ready ready fuel

section Gaps

variable {keyAllowed : Bool} {place : Place} {rest : List Char} (line column : Nat)

/-- Before a solid character there is nothing to skip. -/
theorem skip_solid (starts : StartsSolid rest) :
    skip false false keyAllowed place rest = ⟨keyAllowed, place, rest⟩ := by
  cases rest with
  | nil => rfl
  | cons c rest =>
    obtain ⟨printable, solid, noHash⟩ := starts c rfl
    have noTab : c ≠ '\t' := printable.ne (by decide)
    have noMark : c ≠ byteOrderMark := printable.ne (by decide)
    rw [skip, printable.isBreak_eq_false]
    simp [solid, noHash, noTab, noMark]

theorem skip_space (starts : StartsSolid rest) :
    skip false false keyAllowed (placeAt line column) (' ' :: rest) =
      ⟨keyAllowed, placeAt line (column + 1), rest⟩ := by
  rw [skip]
  exact skip_solid starts

theorem skip_feed (starts : StartsSolid rest) :
    skip false false keyAllowed (placeAt line column) ('\n' :: rest) =
      ⟨true, placeAt (line + 1) 0, rest⟩ := by
  rw [skip]
  change skip false false (keyAllowed || true) (placeAt (line + 1) 0) rest = _
  rw [Bool.or_true]
  exact skip_solid starts

end Gaps

theorem inFlow_of_outside {lexer : Lexer} (flow : lexer.outer = []) : lexer.inFlow = false := by
  rw [inFlow, flow]
  rfl

/-- A gap is skipped, and the candidate is reviewed at its end. -/
theorem ready_of_skip {lexer : Lexer} {keyAllowed : Bool} {place : Place} {rest : List Char}
    {candidate : Option KeyCandidate} (flow : lexer.outer = [])
    (skipped : skip false false lexer.keyAllowed lexer.place lexer.rest = ⟨keyAllowed, place, rest⟩)
    (reviewed : review place lexer.candidate = .ok candidate) :
    lexer.ready = .ok { lexer with keyAllowed, place, rest, candidate } := by
  have outside := inFlow_of_outside flow
  rw [ready, toNext, outside, skipped, reviewAll]
  change (review place lexer.candidate >>= fun candidate => _) = _
  rw [reviewed]
  change (lexer.outer.mapM (review place) >>= fun outer => _) = _
  rw [flow]
  rfl

/-- A candidate of an earlier line is given up, unless it must be a key. -/
theorem review_stale {place : Place} {candidate : KeyCandidate}
    (earlier : candidate.place.line < place.line) (free : candidate.required = false) :
    review place (some candidate) = .ok none := by
  have stale : (some candidate).any (isStale place) = true := by
    simp [isStale, earlier]
  rw [review, if_pos stale, giveUp, free]
  rfl

section Dispatch

variable {lexer : Lexer}

/-- At a plain text's start a plain scalar is read. -/
theorem readToken_plain {c : Char} {text rest : List Char} (flow : lexer.outer = [])
    (plain : IsPlain (c :: text))
    (noMark : isDocumentMark lexer.place lexer.rest = false) :
    lexer.readToken c (text ++ rest).head? = lexer.plainScalar := by
  have outside := inFlow_of_outside flow
  have solid : c ≠ ' ' := fun space => plain.starts (congrArg some space)
  have noTab : c ≠ '\t' := plain.printable.head.ne (by decide)
  have starts := plain.noMark
  rw [startsWithMark] at starts
  split at starts
  · rename_i marked
    have inside : endsWord (text ++ rest).head? = false := endsWord_append_eq_false starts rest
    generalize (text ++ rest).head? = next at inside
    rcases marked with rfl | rfl | rfl <;>
      simp [readToken, noMark, outside, startsPlain, inside]
  · generalize (text ++ rest).head? = next
    have word : startsPlain false c next = true := by
      simp [startsPlain, starts, isSpace, solid, noTab]
    simp only [isIndicator, isFlowMark, List.contains_cons, List.contains_nil, Bool.or_eq_false_iff,
      beq_eq_false_iff_ne] at starts
    simp [readToken, noMark, outside, word, starts]

theorem readToken_quote (noMark : isDocumentMark lexer.place lexer.rest = false)
    (next : Option Char) :
    lexer.readToken '\'' next = lexer.quotedScalar .singleQuoted (readSingleQuoted {}) := by
  simp [readToken, noMark]

theorem readToken_colon (noMark : isDocumentMark lexer.place lexer.rest = false)
    {next : Option Char} (ends : endsWord next = true) :
    lexer.readToken ':' next = lexer.value := by
  simp [readToken, noMark, ends]

theorem readToken_hyphen (noMark : isDocumentMark lexer.place lexer.rest = false)
    {next : Option Char} (ends : endsWord next = true) :
    lexer.readToken '-' next = lexer.blockEntry := by
  simp [readToken, noMark, ends]

end Dispatch

/-- The node that is next becomes the candidate, if a key may stand there. -/
theorem noteCandidate_of_none {lexer : Lexer} (free : lexer.candidate = none)
    (flow : lexer.outer = []) :
    lexer.noteCandidate = .ok { lexer with
      candidate := if lexer.keyAllowed then
        some ⟨lexer.tokens.size, lexer.place, lexer.columns.head? == some lexer.place.column⟩
        else none } := by
  obtain ⟨place, rest, tokens, columns, keyAllowed, candidate, outer⟩ := lexer
  cases free
  cases flow
  cases keyAllowed <;> rfl

/-- Reading a plain scalar adds its token and moves behind it. -/
theorem plainScalar_eq {lexer : Lexer} {candidate : Option KeyCandidate} {text rest : List Char}
    {wrapped : Bool} {place : Place} (noted : lexer.noteCandidate = .ok { lexer with candidate })
    (flow : lexer.outer = [])
    (read : readPlain false lexer.base {} lexer.place lexer.rest =
      .ok ⟨(text, wrapped), place, rest⟩) :
    lexer.plainScalar = .ok
      ({ lexer with keyAllowed := wrapped, place, rest, candidate }.emit
        (.scalar .plain (String.ofList text))) := by
  have outside := inFlow_of_outside flow
  rw [plainScalar, noted]
  change (readPlain lexer.inFlow lexer.base {} lexer.place lexer.rest >>= fun _ => _) = _
  rw [outside, read]
  rfl

/-- Reading a quoted scalar adds its token and moves behind it. -/
theorem quotedScalar_eq {lexer : Lexer} {candidate : Option KeyCandidate} {c : Char}
    {behind text rest : List Char} {line column : Nat} {place : Place} {style : ScalarStyle}
    {read : Place → List Char → Except Fault (Read (List Char))}
    (noted : lexer.noteCandidate = .ok { lexer with candidate })
    (left : lexer.rest = c :: behind) (stands : lexer.place = placeAt line column)
    (printable : IsPrintableAscii c)
    (body : read (placeAt line (column + 1)) behind = .ok ⟨text, place, rest⟩) :
    lexer.quotedScalar style read = .ok
      ({ lexer with keyAllowed := false, place, rest, candidate }.emit
        (.scalar style (String.ofList text))) := by
  obtain ⟨_, _, tokens, columns, keyAllowed, held, outer⟩ := lexer
  cases left
  cases stands
  rw [quotedScalar, noted]
  change (read ((placeAt line column).past c) behind >>= fun _ => _) = _
  rw [past_of_printable printable, body]
  rfl

/-- Going past a mark, which becomes a token. -/
theorem take_one {lexer : Lexer} {c : Char} {rest : List Char} {line column : Nat}
    (left : lexer.rest = c :: rest) (stands : lexer.place = placeAt line column)
    (printable : IsPrintableAscii c) (token : Token) :
    lexer.take 1 token = { lexer with
      place := placeAt line (column + 1), rest, tokens := lexer.tokens.push token } := by
  obtain ⟨place, _, tokens, columns, keyAllowed, candidate, outer⟩ := lexer
  cases left
  cases stands
  rw [← past_of_printable printable]
  rfl

/-- A name that may be a key: it is written without quotes, and not too long. -/
structure IsKey (name : String) : Prop where
  plain : IsPlain name.toList
  nonempty : name.toList ≠ []
  short : name.toList.length ≤ 1024

/-- A text that does not start like a document mark is none when a colon stands behind it. -/
theorem isDocumentMark_append {text : List Char} (other : startsLikeDocumentMark text = false)
    (place : Place) (rest : List Char) : isDocumentMark place (text ++ ':' :: rest) = false := by
  match text, rest with
  | [], [] | [], [_] | [], _ :: _ :: _ | [_], [] | [_], _ :: _ | [_, _], _ =>
    simp [isDocumentMark]
  | a :: b :: c :: more, rest =>
    have unlike : ([a, b, c] == ['-', '-', '-'] || [a, b, c] == ['.', '.', '.']) = false := by
      simpa [startsLikeDocumentMark, List.isPrefixOf, @eq_comm _ '-', @eq_comm _ '.'] using other
    change (place.column == 0 && (_ || _) && _) = false
    rw [unlike, Bool.and_false, Bool.false_and]

theorem isDocumentMark_of_ne_zero {column : Nat} (behind : column ≠ 0) (line : Nat)
    (text : List Char) : isDocumentMark (placeAt line column) text = false := by
  obtain ⟨column, rfl⟩ := Nat.exists_eq_succ_of_ne_zero behind
  exact isDocumentMark_behind line column text

/-- An insertion at the end of a front goes between the two parts. -/
theorem insertIdxIfInBounds_append {α : Type} (front behind : List α) (x : α) :
    (front ++ behind).toArray.insertIdxIfInBounds front.length x =
      (front ++ x :: behind).toArray := by
  have inserted : (front ++ behind).insertIdx front.length x = front ++ x :: behind := by
    induction front with
    | nil => rfl
    | cons y front ih => exact congrArg (y :: ·) ih
  simp [Array.insertIdxIfInBounds, inserted]

/-- The token that opens a mapping at the first column, if none is open. -/
def opening (columns : List Nat) : List Token :=
  if columns = [] then [.blockMappingStart] else []

/-- A candidate becomes a key where its tokens start, and where no collection is open, it opens one
at the first column. -/
theorem openAt_key {lexer : Lexer} {front behind : List Token} (flow : lexer.outer = [])
    (outermost : Outermost lexer.columns) (held : lexer.tokens = (front ++ behind).toArray) :
    openAt { lexer with tokens := lexer.tokens.insertIdxIfInBounds front.length .key } 0
        front.length .blockMappingStart =
      { lexer with
        tokens := (front ++ (opening lexer.columns ++ .key :: behind)).toArray
        columns := [0] } := by
  obtain ⟨place, rest, tokens, columns, keyAllowed, candidate, outer⟩ := lexer
  cases flow
  cases held
  have keyed := insertIdxIfInBounds_append front behind Token.key
  have opened := insertIdxIfInBounds_append front (.key :: behind) Token.blockMappingStart
  cases outermost with
  | none =>
    simp only [keyed, openAt, opened]
    rfl
  | first =>
    simp only [keyed]
    rfl

section States

variable (line column : Nat) (columns : List Nat) (tokens : List Token) (rest : List Char)

/-- Reading stands at the start of a line, outside of brackets. -/
def lineStart : Lexer :=
  { place := placeAt line 0, rest, tokens := tokens.toArray, columns }

/-- Reading stands behind a key at the start of a line, before its colon. -/
def behindKey (name : String) : Lexer :=
  { place := placeAt line name.toList.length
    rest
    tokens := (tokens ++ [Token.scalar .plain name]).toArray
    columns
    keyAllowed := false
    candidate := some ⟨tokens.length, placeAt line 0, columns.head? == some 0⟩ }

/-- Reading stands behind the mark of a value or an item, in a collection at the first column. -/
def behindMark (keyAllowed : Bool) : Lexer :=
  { place := placeAt line column, rest, tokens := tokens.toArray, columns := [0], keyAllowed }

end States

variable {line column : Nat} {columns : List Nat} {tokens : List Token} {rest : List Char}

/-- A key is read as a candidate whose tokens come with its colon. -/
theorem readOn_key {name : String} (key : IsKey name) (outermost : Outermost columns)
    (ends : endsWord rest.head? = true) (fuel : Nat) :
    readOn (fuel + 1) (lineStart line columns tokens (name.toList ++ ':' :: rest)) =
      readOn fuel (behindKey line columns tokens (':' :: rest) name) := by
  obtain ⟨c, text, whole⟩ := List.exists_cons_of_ne_nil key.nonempty
  have indented : base (lineStart line columns tokens (name.toList ++ ':' :: rest)) ≤ 1 := by
    cases outermost with
    | none => exact Nat.zero_le 1
    | first => exact Nat.le_refl 1
  have read : readPlain false (base (lineStart line columns tokens (name.toList ++ ':' :: rest))) {}
      (placeAt line 0) (name.toList ++ ':' :: rest) =
        .ok ⟨(name.toList, false), placeAt line (0 + name.toList.length), ':' :: rest⟩ :=
    readPlain_append key.plain key.nonempty indented (readPlain_colon _ ends)
  rw [Nat.zero_add] at read
  have token : (lineStart line columns tokens (name.toList ++ ':' :: rest)).plainScalar =
      .ok (behindKey line columns tokens (':' :: rest) name) := by
    rw [plainScalar_eq (noteCandidate_of_none rfl rfl) rfl read, String.ofList_toList]
    simp [emit, lineStart, behindKey, placeAt]
  have dispatched : (lineStart line columns tokens (name.toList ++ ':' :: rest)).readToken c
      (text ++ ':' :: rest).head? =
      (lineStart line columns tokens (name.toList ++ ':' :: rest)).plainScalar :=
    readToken_plain rfl (whole ▸ key.plain)
      (isDocumentMark_append key.plain.noDocumentMark (placeAt line 0) rest)
  have starts : StartsSolid (':' :: rest) := by
    rintro d ⟨⟩
    decide
  have fresh : review (placeAt line name.toList.length)
      (behindKey line columns tokens (':' :: rest) name).candidate =
        .ok (behindKey line columns tokens (':' :: rest) name).candidate := by
    rw [review, if_neg]
    simp [behindKey, isStale, placeAt, key.short]
  have ready : (behindKey line columns tokens (':' :: rest) name).ready =
      .ok (behindKey line columns tokens (':' :: rest) name) :=
    ready_of_skip rfl (skip_solid starts) fresh
  exact readOn_token outermost (congrArg (· ++ ':' :: rest) whole) (dispatched.trans token) ready
    fuel

/-- The tokens of a key with its colon. -/
def keyTokens (columns : List Nat) (name : String) : List Token :=
  opening columns ++ [.key, .scalar .plain name, .value]

/-- A colon makes the node before it a key. -/
theorem value_behindKey (outermost : Outermost columns) (name : String) :
    (behindKey line columns tokens (':' :: rest) name).value =
      .ok (behindMark line (name.toList.length + 1) (tokens ++ keyTokens columns name) rest
        false) := by
  have opened := @openAt_key (behindKey line columns tokens (':' :: rest) name) tokens
    [.scalar .plain name] rfl outermost rfl
  rw [value]
  change Except.ok (take { openAt { behindKey line columns tokens (':' :: rest) name with
    tokens := _ } 0 tokens.length .blockMappingStart with keyAllowed := false, candidate := none }
      1 .value) = _
  rw [opened, take_one rfl rfl (by decide)]
  simp [behindMark, keyTokens, behindKey]

/-- The colon behind a key makes the key's tokens certain. -/
theorem readOn_colon {name : String} {next : Lexer} (key : IsKey name)
    (outermost : Outermost columns) (ends : endsWord rest.head? = true)
    (ready : (behindMark line (name.toList.length + 1) (tokens ++ keyTokens columns name) rest
      false).ready = .ok next) (fuel : Nat) :
    readOn (fuel + 1) (behindKey line columns tokens (':' :: rest) name) = readOn fuel next := by
  have behind : name.toList.length ≠ 0 := fun none => key.nonempty (List.length_eq_zero_iff.1 none)
  have noMark : isDocumentMark (placeAt line name.toList.length) (':' :: rest) = false :=
    isDocumentMark_of_ne_zero behind line _
  have token : (behindKey line columns tokens (':' :: rest) name).readToken ':' rest.head? =
      (behindKey line columns tokens (':' :: rest) name).value := readToken_colon noMark ends
  exact readOn_token outermost rfl (token.trans (value_behindKey outermost name)) ready fuel

/-- Behind a mark a space is skipped. -/
theorem ready_space {keyAllowed : Bool} (starts : StartsSolid rest) :
    (behindMark line column tokens (' ' :: rest) keyAllowed).ready =
      .ok (behindMark line (column + 1) tokens rest keyAllowed) :=
  ready_of_skip rfl (skip_space line column starts) rfl

/-- Behind a mark a line may end. -/
theorem ready_feed {keyAllowed : Bool} (starts : StartsSolid rest) :
    (behindMark line column tokens ('\n' :: rest) keyAllowed).ready =
      .ok (lineStart (line + 1) [0] tokens rest) :=
  ready_of_skip rfl (skip_feed line column starts) rfl

/-- The hyphen of an item stands at the start of a line. -/
theorem blockEntry_lineStart :
    (lineStart line [0] tokens ('-' :: rest)).blockEntry =
      .ok (behindMark line 1 (tokens ++ [.blockEntry]) rest true) := by
  have entry : (lineStart line [0] tokens ('-' :: rest)).blockEntry =
      .ok ((lineStart line [0] tokens ('-' :: rest)).take 1 .blockEntry) := rfl
  rw [entry, take_one rfl rfl (by decide)]
  simp [lineStart, behindMark]

theorem readOn_hyphen (starts : StartsSolid rest) (fuel : Nat) :
    readOn (fuel + 1) (lineStart line [0] tokens ('-' :: ' ' :: rest)) =
      readOn fuel (behindMark line 2 (tokens ++ [.blockEntry]) rest true) := by
  have noMark : isDocumentMark (placeAt line 0) ('-' :: ' ' :: rest) = false := by
    cases rest <;> rfl
  refine readOn_token .first rfl ?_ (ready_space starts) fuel
  rw [readToken_hyphen noMark rfl, blockEntry_lineStart]

/-- The candidate that a scalar behind a mark becomes. -/
def noted (line column : Nat) (tokens : List Token) (keyAllowed : Bool) : Option KeyCandidate :=
  if keyAllowed then some ⟨tokens.length, placeAt line column, [0].head? == some column⟩ else none

/-- A scalar behind a mark is no key when its line has ended. -/
theorem review_noted (behind : column ≠ 0) (keyAllowed : Bool) :
    review (placeAt (line + 1) 0) (noted line column tokens keyAllowed) = .ok none := by
  cases keyAllowed with
  | false => rfl
  | true =>
    refine review_stale (Nat.lt_succ_self line) ?_
    simpa using behind.symm

/-- A scalar without quotes behind a mark is read to the start of the next line. -/
theorem readOn_plain {text : String} {keyAllowed : Bool} (plain : IsPlain text.toList)
    (nonempty : text.toList ≠ []) (behind : column ≠ 0) (starts : StartsSolid rest) (fuel : Nat) :
    readOn (fuel + 1) (behindMark line column tokens (text.toList ++ '\n' :: rest) keyAllowed) =
      readOn fuel (lineStart (line + 1) [0] (tokens ++ [.scalar .plain text]) rest) := by
  obtain ⟨c, others, whole⟩ := List.exists_cons_of_ne_nil nonempty
  have read : readPlain false
      (base (behindMark line column tokens (text.toList ++ '\n' :: rest) keyAllowed)) {}
      (placeAt line column) (text.toList ++ '\n' :: rest) =
        .ok ⟨(text.toList, true), placeAt (line + 1) 0, rest⟩ :=
    readPlain_append plain nonempty (Nat.le_add_left 1 column) (readPlain_feed starts line _)
  have token : (behindMark line column tokens (text.toList ++ '\n' :: rest)
      keyAllowed).plainScalar =
        .ok { lineStart (line + 1) [0] (tokens ++ [.scalar .plain text]) rest with
          candidate := noted line column tokens keyAllowed } := by
    rw [plainScalar_eq (noteCandidate_of_none rfl rfl) rfl read, String.ofList_toList]
    simp [emit, lineStart, behindMark, noted, placeAt]
  have dispatched :
      (behindMark line column tokens (text.toList ++ '\n' :: rest) keyAllowed).readToken c
        (others ++ '\n' :: rest).head? =
      (behindMark line column tokens (text.toList ++ '\n' :: rest) keyAllowed).plainScalar :=
    readToken_plain rfl (whole ▸ plain) (isDocumentMark_of_ne_zero behind _ _)
  exact readOn_token .first (congrArg (· ++ '\n' :: rest) whole) (dispatched.trans token)
    (ready_of_skip rfl (skip_solid starts) (review_noted behind keyAllowed)) fuel

/-- A scalar in quotes behind a mark is read up to its closing quote, and the line ends there. -/
theorem readOn_quoted {text : String} {keyAllowed : Bool} (printable : PrintableAscii text.toList)
    (behind : column ≠ 0) (starts : StartsSolid rest) (fuel : Nat) :
    readOn (fuel + 1)
        (behindMark line column tokens (written .singleQuoted text ++ '\n' :: rest) keyAllowed) =
      readOn fuel (lineStart (line + 1) [0] (tokens ++ [.scalar .singleQuoted text]) rest) := by
  have shown : written .singleQuoted text ++ '\n' :: rest =
      '\'' :: (singleQuotedBody false text.toList ++ '\'' :: '\n' :: rest) := by
    simp [written]
  have noQuote : ('\n' :: rest).head? ≠ some '\'' := by simp
  have body := readSingleQuoted_body printable noQuote [] line column
  rw [List.nil_append] at body
  have token : (behindMark line column tokens
      ('\'' :: (singleQuotedBody false text.toList ++ '\'' :: '\n' :: rest))
      keyAllowed).quotedScalar .singleQuoted (readSingleQuoted {}) =
        .ok { behindMark line (column + (singleQuotedBody false text.toList).length + 2)
            (tokens ++ [.scalar .singleQuoted text]) ('\n' :: rest) false with
          candidate := noted line column tokens keyAllowed } := by
    rw [quotedScalar_eq (noteCandidate_of_none rfl rfl) rfl rfl (by decide) body,
      String.ofList_toList]
    simp [emit, behindMark, noted, placeAt]
  rw [shown]
  exact readOn_token .first rfl
    ((readToken_quote (isDocumentMark_of_ne_zero behind _ _) _).trans token)
    (ready_of_skip rfl (skip_feed line _ starts) (review_noted behind keyAllowed)) fuel

/-- A scalar behind a mark is read to the end of its line. -/
theorem readOn_scalar {style : ScalarStyle} {text : String} {keyAllowed : Bool}
    (legible : Legible style text) (behind : column ≠ 0) (starts : StartsSolid rest)
    (fuel : Nat) :
    readOn (fuel + 1)
        (behindMark line column tokens (written style text ++ '\n' :: rest) keyAllowed) =
      readOn fuel (lineStart (line + 1) [0] (tokens ++ [.scalar style text]) rest) := by
  cases legible with
  | plain printable nonempty allowed =>
    exact readOn_plain (isPlain_of_allowsPlain printable allowed) nonempty behind starts fuel
  | singleQuoted printable => exact readOn_quoted printable behind starts fuel

end ExtensionLoader.Yaml.Lexer
