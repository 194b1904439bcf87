import ExtensionLoader.Yaml.Scalar.Shape

/-! # Written scalars

The text of a scalar in each style. A scalar of several lines is indented by two spaces.
-/

namespace ExtensionLoader.Yaml

/-- How far the lines of a scalar are indented. -/
def indentation : List Char := [' ', ' ']

/-- Write a text between single quotes: a quote twice, and what comes behind line breaks
indented. -/
def singleQuotedBody (behindBreak : Bool) : List Char → List Char
  | [] => if behindBreak then indentation else []
  | c :: rest =>
    if isAnyBreak c then c :: singleQuotedBody true rest
    else
      (if behindBreak then indentation else []) ++ (if c = '\'' then [c, c] else [c]) ++
        singleQuotedBody false rest

/-- A hexadecimal digit in upper case. -/
def upperHexDigit (value : Nat) : Char := (Nat.digitChar (value % 16)).toUpper

/-- The last `count` hexadecimal digits of a number. -/
def hexDigits : (count value : Nat) → List Char
  | 0, _ => []
  | count + 1, value => hexDigits count (value / 16) ++ [upperHexDigit value]

/-- The letters of escapes in double quotes that are written with one. -/
def escapeLetters : List (Char × Char) :=
  [('\x00', '0'), ('\x07', 'a'), ('\x08', 'b'), ('\t', 't'), ('\n', 'n'), ('\x0B', 'v'),
    ('\x0C', 'f'), ('\r', 'r'), ('\x1B', 'e'), ('"', '"'), ('\\', '\\'), ('\u0085', 'N'),
    ('\u2028', 'L'), ('\u2029', 'P')]

/-- A character as it is written between double quotes. -/
def escape (c : Char) : List Char :=
  if isPrintable c && !isAnyBreak c && c != '"' && c != '\\' then [c]
  else
    match escapeLetters.lookup c with
    | some letter => ['\\', letter]
    | none =>
      if c.toNat ≤ 0xFF then '\\' :: 'x' :: hexDigits 2 c.toNat
      else if c.toNat ≤ 0xFFFF then '\\' :: 'u' :: hexDigits 4 c.toNat
      else '\\' :: 'U' :: hexDigits 8 c.toNat

/-- The header of a block of lines: the indentation if it cannot be seen from the first
line, then what becomes of the breaks at the end. -/
def literalHeader (text : List Char) : List Char :=
  (if text.head?.any isSpaceOrBreak then ['2'] else []) ++
    match text.reverse with
    | [] => ['-']
    | [last] => if isAnyBreak last then ['+'] else ['-']
    | last :: before :: _ =>
      if !isAnyBreak last then ['-'] else if isAnyBreak before then ['+'] else []

/-- Write the lines of a text, each one that is not empty indented. -/
def literalBody (behindBreak : Bool) : List Char → List Char
  | [] => []
  | c :: rest =>
    if isAnyBreak c then c :: literalBody true rest
    else (if behindBreak then indentation else []) ++ c :: literalBody false rest

/-- A text as it is written in a style. -/
def written (style : ScalarStyle) (text : String) : List Char :=
  match style with
  | .plain => text.toList
  | .singleQuoted => '\'' :: singleQuotedBody false text.toList ++ ['\'']
  | .doubleQuoted => '"' :: text.toList.flatMap escape ++ ['"']
  | .literal | .folded =>
    '|' :: literalHeader text.toList ++ '\n' :: literalBody true text.toList

end ExtensionLoader.Yaml
