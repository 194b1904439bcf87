import ExtensionLoader.Yaml.Token.Block
import ExtensionLoader.Yaml.Token.Plain
import ExtensionLoader.Yaml.Token.Property
import ExtensionLoader.Yaml.Token.Quoted

/-! # The tokens of a text

Tokens are read from left to right. Two things are decided late: a node is the key of a
mapping only when a colon comes behind it in the same line, and an indentation ends when
something stands further left. The lexer therefore remembers the columns of the open
block collections and, for each open bracket, the last node that may be a key.
-/

namespace ExtensionLoader.Yaml

/-- A node that is a key if a colon follows it. -/
structure KeyCandidate where
  /-- The number of tokens before the node. -/
  before : Nat
  place : Place
  /-- Whether nothing but a key can stand there. -/
  required : Bool

/-- Where reading stands, and what has been read. -/
structure Lexer where
  place : Place := {}
  rest : List Char
  tokens : Array Token := #[]
  /-- The columns of the open block collections, the innermost first. -/
  columns : List Nat := []
  /-- Whether the next node may be a key. -/
  keyAllowed : Bool := true
  candidate : Option KeyCandidate := none
  /-- The candidates outside of each open bracket. -/
  outer : List (Option KeyCandidate) := []

namespace Lexer

/-- Whether brackets are open. -/
def inFlow (lexer : Lexer) : Bool := !lexer.outer.isEmpty

/-- The column at which content inside the innermost block collection may start. -/
def base (lexer : Lexer) : Nat :=
  match lexer.columns with
  | [] => 0
  | column :: _ => column + 1

/-- A fault at the place where reading stands. -/
def fail {α : Type} (lexer : Lexer) : Except Fault α := .error lexer.place.fault

/-- Go past some characters that are next. -/
def past (lexer : Lexer) (count : Nat) : Lexer :=
  { lexer with
    place := lexer.place.pastAll (lexer.rest.take count), rest := lexer.rest.drop count }

/-- Go on where `rest` is all that is left. -/
def upTo (lexer : Lexer) (rest : List Char) : Lexer :=
  lexer.past (lexer.rest.length - rest.length)

/-- Put a token behind the others. -/
def emit (lexer : Lexer) (token : Token) : Lexer :=
  { lexer with tokens := lexer.tokens.push token }

/-- Go past some characters that are a token. -/
def take (lexer : Lexer) (count : Nat) (token : Token) : Lexer := (lexer.past count).emit token

/-- Skip spaces, comments and line breaks. A tab is skipped only where it cannot be taken
for an indentation. A byte order mark before a line is skipped, but it takes a column. A
new line may start with a key. -/
def skip (inFlow : Bool) : (inComment keyAllowed : Bool) → Place → List Char → Read Bool
  | _, keyAllowed, place, [] => ⟨keyAllowed, place, []⟩
  | inComment, keyAllowed, place, c :: rest =>
    if isBreak c then skip inFlow false (keyAllowed || !inFlow) (place.past c) rest
    else if inComment ∨ c = '#' then skip inFlow true keyAllowed (place.past c) rest
    else if c = ' ' ∨ (c = '\t' ∧ (inFlow ∨ !keyAllowed)) ∨
        (c = byteOrderMark ∧ place.column = 0) then
      skip inFlow false keyAllowed (place.past c) rest
    else ⟨keyAllowed, place, c :: rest⟩

/-- Go to the next token. -/
def toNext (lexer : Lexer) : Lexer :=
  let read := skip lexer.inFlow false lexer.keyAllowed lexer.place lexer.rest
  { lexer with keyAllowed := read.value, place := read.place, rest := read.rest }

/-- Whether a candidate is too far back: in another line, or by more than 1024 octets. -/
def isStale (place : Place) (candidate : KeyCandidate) : Bool :=
  candidate.place.line < place.line || candidate.place.octets + 1024 < place.octets

/-- Give up a candidate, unless it must be a key. -/
def giveUp (place : Place) : Option KeyCandidate → Except Fault (Option KeyCandidate)
  | some candidate => if candidate.required then .error place.fault else .ok none
  | none => .ok none

/-- Give up a candidate if it is too far back. -/
def review (place : Place) (candidate : Option KeyCandidate) :
    Except Fault (Option KeyCandidate) :=
  if candidate.any (isStale place) then giveUp place candidate else .ok candidate

/-- Give up all candidates that are too far back. -/
def reviewAll (lexer : Lexer) : Except Fault Lexer := do
  let candidate ← review lexer.place lexer.candidate
  let outer ← lexer.outer.mapM (review lexer.place)
  return { lexer with candidate, outer }

/-- Give up the candidate inside the innermost bracket. -/
def dropCandidate (lexer : Lexer) : Except Fault Lexer := do
  return { lexer with candidate := ← giveUp lexer.place lexer.candidate }

/-- Take the node that is next for a candidate, if a key may stand there. -/
def noteCandidate (lexer : Lexer) : Except Fault Lexer := do
  if lexer.keyAllowed then
    let lexer ← lexer.dropCandidate
    let required := !lexer.inFlow && lexer.columns.head? == some lexer.place.column
    return { lexer with candidate := some ⟨lexer.tokens.size, lexer.place, required⟩ }
  else return lexer

/-- Close the block collections that start behind a column. -/
def closeBehind (lexer : Lexer) (column : Nat) : Lexer :=
  if lexer.inFlow then lexer
  else
    { lexer with
      tokens := lexer.tokens ++
        Array.replicate (lexer.columns.takeWhile (column < ·)).length Token.blockEnd
      columns := lexer.columns.dropWhile (column < ·) }

/-- Close every open block, unless brackets are open. -/
def closeAll (lexer : Lexer) : Lexer :=
  if lexer.inFlow then lexer
  else
    { lexer with
      tokens := lexer.tokens ++ Array.replicate lexer.columns.length Token.blockEnd
      columns := [] }

/-- Open a block collection at a column, if it is further right than all others. Its
token comes behind the first `before` tokens. -/
def openAt (lexer : Lexer) (column before : Nat) (token : Token) : Lexer :=
  if lexer.inFlow || lexer.columns.head?.any (column ≤ ·) then lexer
  else
    { lexer with
      tokens := lexer.tokens.insertIdxIfInBounds before token
      columns := column :: lexer.columns }

/-- Open a block collection where reading stands. -/
def openHere (lexer : Lexer) (token : Token) : Lexer :=
  lexer.openAt lexer.place.column lexer.tokens.size token

/-- Read the mark of a new or ended document. -/
def document (lexer : Lexer) (token : Token) : Except Fault Lexer := do
  let lexer ← lexer.closeAll.dropCandidate
  return { lexer with keyAllowed := false }.take 3 token

/-- Read a directive. -/
def directive (lexer : Lexer) : Except Fault Lexer := do
  let lexer ← lexer.closeAll.dropCandidate
  match takeDirective lexer.rest with
  | none => lexer.fail
  | some (token, rest) =>
    let lexer := (lexer.upTo rest).emit token
    let (place, rest) ← skipLineEnd lexer.place lexer.rest
    return { lexer with keyAllowed := false, place, rest }

/-- Open a bracket, within which a key may come. -/
def openFlow (lexer : Lexer) (token : Token) : Except Fault Lexer := do
  let lexer ← lexer.noteCandidate
  return { lexer with
    keyAllowed := true, candidate := none, outer := lexer.candidate :: lexer.outer }.take 1 token

/-- Close a bracket and go on with the candidate around it. -/
def closeFlow (lexer : Lexer) (token : Token) : Except Fault Lexer := do
  let lexer ← lexer.dropCandidate
  let lexer := match lexer.outer with
    | candidate :: outer => { lexer with candidate, outer }
    | [] => lexer
  return { lexer with keyAllowed := false }.take 1 token

/-- Read a comma between items. -/
def flowEntry (lexer : Lexer) : Except Fault Lexer := do
  let lexer ← lexer.dropCandidate
  return { lexer with keyAllowed := true }.take 1 .flowEntry

/-- Read the hyphen before an item. -/
def blockEntry (lexer : Lexer) : Except Fault Lexer := do
  if !lexer.inFlow && !lexer.keyAllowed then lexer.fail
  else
    let lexer ← (lexer.openHere .blockSequenceStart).dropCandidate
    return { lexer with keyAllowed := true }.take 1 .blockEntry

/-- Read the question mark before a key. -/
def explicitKey (lexer : Lexer) : Except Fault Lexer := do
  if !lexer.inFlow && !lexer.keyAllowed then lexer.fail
  else
    let lexer ← (lexer.openHere .blockMappingStart).dropCandidate
    return { lexer with keyAllowed := !lexer.inFlow }.take 1 .key

/-- Read the colon before a value. If there is a candidate, it is a key. -/
def value (lexer : Lexer) : Except Fault Lexer :=
  match lexer.candidate with
  | some candidate =>
    let lexer :=
      { lexer with tokens := lexer.tokens.insertIdxIfInBounds candidate.before .key }
    let lexer := lexer.openAt candidate.place.column candidate.before .blockMappingStart
    return { lexer with keyAllowed := false, candidate := none }.take 1 .value
  | none =>
    if !lexer.inFlow && !lexer.keyAllowed then lexer.fail
    else
      let lexer := lexer.openHere .blockMappingStart
      return { lexer with keyAllowed := !lexer.inFlow }.take 1 .value

/-- Read an anchor or an alias, whose mark is next. -/
def anchor (lexer : Lexer) (token : String → Token) : Except Fault Lexer := do
  let lexer ← lexer.noteCandidate
  match takeAnchor (lexer.rest.drop 1) with
  | none => lexer.fail
  | some (name, rest) => return ({ lexer with keyAllowed := false }.upTo rest).emit (token name)

/-- Read a tag. -/
def tag (lexer : Lexer) : Except Fault Lexer := do
  let lexer ← lexer.noteCandidate
  match takeTag lexer.rest with
  | none => lexer.fail
  | some (token, rest) =>
    if endsTag lexer.inFlow rest.head? then
      return ({ lexer with keyAllowed := false }.upTo rest).emit token
    else lexer.fail

/-- Read a block scalar, whose mark is next. -/
def blockScalar (lexer : Lexer) (style : ScalarStyle) : Except Fault Lexer := do
  let lexer ← lexer.dropCandidate
  let start := lexer.past 1
  let ⟨text, place, rest⟩ ← readBlock style lexer.base start.place start.rest
  return { lexer with keyAllowed := true, place, rest }.emit (.scalar style (String.ofList text))

/-- Read a quoted scalar, whose quote is next. -/
def quotedScalar (lexer : Lexer) (style : ScalarStyle)
    (read : Place → List Char → Except Fault (Read (List Char))) : Except Fault Lexer := do
  let lexer ← lexer.noteCandidate
  let start := lexer.past 1
  let ⟨text, place, rest⟩ ← read start.place start.rest
  return { lexer with keyAllowed := false, place, rest }.emit (.scalar style (String.ofList text))

/-- Read a plain scalar. If it ends with a gap over lines, a key may come next. -/
def plainScalar (lexer : Lexer) : Except Fault Lexer := do
  let lexer ← lexer.noteCandidate
  let ⟨(text, wrapped), place, rest⟩ ← readPlain lexer.inFlow lexer.base {} lexer.place lexer.rest
  return { lexer with keyAllowed := wrapped, place, rest }.emit
    (.scalar .plain (String.ofList text))

/-- Read the token that starts with `c`. -/
def readToken (lexer : Lexer) (c : Char) (next : Option Char) : Except Fault Lexer :=
  if lexer.place.column = 0 ∧ c = '%' then lexer.directive
  else if isDocumentMark lexer.place lexer.rest then
    lexer.document (if c = '-' then .documentStart else .documentEnd)
  else if c = '[' then lexer.openFlow .flowSequenceStart
  else if c = '\x7b' then lexer.openFlow .flowMappingStart
  else if c = ']' then lexer.closeFlow .flowSequenceEnd
  else if c = '\x7d' then lexer.closeFlow .flowMappingEnd
  else if c = ',' then lexer.flowEntry
  else if c = '-' ∧ endsWord next then lexer.blockEntry
  else if c = '?' ∧ (lexer.inFlow ∨ endsWord next) then lexer.explicitKey
  else if c = ':' ∧ (lexer.inFlow ∨ endsWord next) then lexer.value
  else if c = '*' then lexer.anchor .alias
  else if c = '&' then lexer.anchor .anchor
  else if c = '!' then lexer.tag
  else if c = '|' ∧ !lexer.inFlow then lexer.blockScalar .literal
  else if c = '>' ∧ !lexer.inFlow then lexer.blockScalar .folded
  else if c = '\'' then lexer.quotedScalar .singleQuoted (readSingleQuoted {})
  else if c = '"' then lexer.quotedScalar .doubleQuoted (readDoubleQuoted (.behind {}))
  else if startsPlain lexer.inFlow c next then lexer.plainScalar
  else lexer.fail

/-- Read the tokens that are left. Each of them takes a character at least, so `fuel`
tokens are enough for a text that is shorter. -/
def readTokens : (fuel : Nat) → Lexer → Except Fault (List Token)
  | 0, lexer => lexer.fail
  | fuel + 1, lexer => do
    let lexer ← lexer.toNext.reviewAll
    match lexer.rest with
    | [] =>
      let lexer ← lexer.closeAll.dropCandidate
      return lexer.tokens.toList
    | c :: rest => readTokens fuel (← (lexer.closeBehind lexer.place.column).readToken c rest.head?)

end Lexer

/-- The tokens of a text. -/
def Token.ofText (text : String) : Except Fault (List Token) := do
  let chars ← prepare text
  Lexer.readTokens (chars.length + 1) { rest := chars }

end ExtensionLoader.Yaml
