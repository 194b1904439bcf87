import ExtensionLoader.Yaml.Token
import ExtensionLoader.Yaml.Token.Gap

/-! # Block scalars

A block scalar is the lines behind its header that are indented enough. The header may
say how much that is and what becomes of the line breaks at the end.
-/

namespace ExtensionLoader.Yaml

/-- What becomes of the line breaks at the end of a block scalar. -/
inductive Chomping
  /-- All of them go. -/
  | strip
  /-- The first one stays. -/
  | clip
  /-- All of them stay. -/
  | keep
deriving DecidableEq

/-- What the header of a block scalar says. -/
structure BlockHeader where
  chomping : Chomping := .clip
  /-- How much more than its surroundings the scalar is indented. -/
  indent : Option Nat := none

/-- The chomping that a mark stands for. -/
def Chomping.ofMark? : Char → Option Chomping
  | '+' => some .keep
  | '-' => some .strip
  | _ => none

/-- Take a chomping mark, if one is next. -/
def takeChomping : List Char → Option Chomping × List Char
  | [] => (none, [])
  | c :: rest =>
    match Chomping.ofMark? c with
    | some chomping => (some chomping, rest)
    | none => (none, c :: rest)

/-- Take an indentation, if one is next. It cannot be zero. -/
def takeIndent : List Char → Option (Option Nat × List Char)
  | [] => some (none, [])
  | c :: rest =>
    if c = '0' then none
    else if c.isDigit then some (some (c.toNat - '0'.toNat), rest)
    else some (none, c :: rest)

/-- Read the marks of a header, which come in either order. -/
def takeHeader (text : List Char) : Option (BlockHeader × List Char) :=
  match takeChomping text with
  | (some chomping, rest) => do
    let (indent, rest) ← takeIndent rest
    return (⟨chomping, indent⟩, rest)
  | (none, rest) => do
    match ← takeIndent rest with
    | (none, rest) => return (⟨.clip, none⟩, rest)
    | (some indent, rest) =>
      let (chomping, rest) := takeChomping rest
      return (⟨chomping.getD .clip, some indent⟩, rest)

/-- Skip spaces and a comment up to the end of the line. -/
def skipLineEnd (place : Place) (text : List Char) : Except Fault (Place × List Char) :=
  let spaces := text.takeWhile isSpace
  let rest := text.dropWhile isSpace
  let comment := if rest.head? = some '#' then rest.takeWhile fun c => !isBreak c else []
  match rest.drop comment.length with
  | [] => .ok (place.pastAll (spaces ++ comment), [])
  | c :: later =>
    let place := place.pastAll (spaces ++ comment)
    if isBreak c then .ok (place.past c, later) else .error place.fault

/-- Skip the empty lines before the first line of a scalar. The breaks come first, then
the deepest indentation that was met. -/
def skipEmptyLines (indent : Option Nat) (deepest : Nat) :
    Place → List Char → Except Fault (Read (List Char × Nat))
  | place, [] => .ok ⟨([], max deepest place.column), place, []⟩
  | place, c :: rest =>
    let outside := indent.all (place.column < ·)
    if c = ' ' ∧ outside then skipEmptyLines indent deepest (place.past c) rest
    else if c = '\t' ∧ outside then .error place.fault
    else if isBreak c then do
      let ⟨(breaks, found), after, left⟩ ←
        skipEmptyLines indent (max deepest place.column) (place.past c) rest
      return ⟨(c :: breaks, found), after, left⟩
    else .ok ⟨([], max deepest place.column), place, c :: rest⟩

/-- What was read since the last character of a block scalar. -/
inductive BlockState
  /-- Nothing; `spaced` tells whether the line starts with a space. -/
  | within (spaced : Bool)
  /-- The break of a line, and those of the empty lines behind it; none before the
  first line. -/
  | behind (spaced : Bool) (first breaks : List Char)

/-- What the breaks between two lines of a block scalar stand for. -/
def joinLines (style : ScalarStyle) (spaced : Bool) (first breaks : List Char) : List Char :=
  if style = .folded ∧ first = ['\n'] ∧ !spaced then
    if breaks.isEmpty then [' '] else breaks
  else first ++ breaks

/-- The text at the end of a block scalar. -/
def Chomping.apply (chomping : Chomping) (first breaks : List Char) : List Char :=
  match chomping with
  | .strip => []
  | .clip => first
  | .keep => first ++ breaks

/-- Read the lines of a block scalar that is indented by `indent`. -/
def readLines (style : ScalarStyle) (chomping : Chomping) (indent : Nat) :
    BlockState → Place → List Char → Except Fault (Read (List Char))
  | .within _, place, [] => .ok ⟨[], place, []⟩
  | .behind _ first breaks, place, [] => .ok ⟨chomping.apply first breaks, place, []⟩
  | .within spaced, place, c :: rest =>
    if isBreak c then
      readLines style chomping indent (.behind spaced [c] []) (place.past c) rest
    else
      (readLines style chomping indent (.within spaced) (place.past c) rest).map (Read.push [c])
  | .behind spaced first breaks, place, c :: rest =>
    if c = ' ' ∧ place.column < indent then
      readLines style chomping indent (.behind spaced first breaks) (place.past c) rest
    else if c = '\t' ∧ place.column < indent then .error place.fault
    else if isBreak c then
      readLines style chomping indent (.behind spaced first (breaks ++ [c])) (place.past c) rest
    else if place.column = indent then
      (readLines style chomping indent (.within (isSpace c)) (place.past c) rest).map
        (Read.push (joinLines style (spaced || isSpace c) first breaks ++ [c]))
    else .ok ⟨chomping.apply first breaks, place, c :: rest⟩

/-- Read a block scalar behind its first mark. `base` is the column at which the content
of the surroundings may start. -/
def readBlock (style : ScalarStyle) (base : Nat) (place : Place) (text : List Char) :
    Except Fault (Read (List Char)) :=
  match takeHeader text with
  | none => .error place.fault
  | some (header, rest) => do
    let place := place.pastAll (text.take (text.length - rest.length))
    let (place, rest) ← skipLineEnd place rest
    let known := header.indent.map fun more => base - 1 + more
    let ⟨(breaks, deepest), place, rest⟩ ← skipEmptyLines known 0 place rest
    let indent := known.getD (max deepest (max base 1))
    readLines style header.chomping indent (.behind false [] breaks) place rest

end ExtensionLoader.Yaml
