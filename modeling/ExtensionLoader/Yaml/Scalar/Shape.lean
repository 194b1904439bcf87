import ExtensionLoader.Yaml.Character
import ExtensionLoader.Yaml.Scalar.Meaning
import ExtensionLoader.Yaml.Token
import ExtensionLoader.Yaml.Token.Plain

/-! # How a text can be written

A text is written in the plainest style in which it reads back as itself. What decides
are its characters, the spaces and breaks at its ends and next to each other, and the
places of the marks that have a meaning.
-/

namespace ExtensionLoader.Yaml

/-- Whether a character is written as it is: not a control character, not a byte order
mark, and not one of the two noncharacters at the end of the basic plane. -/
def isPrintable (c : Char) : Bool :=
  c == '\n' || (0x20 ≤ c.toNat && c.toNat ≤ 0x7E) || (0xA0 ≤ c.toNat && c.toNat ≤ 0xD7FF) ||
    (0xE000 ≤ c.toNat && c.toNat ≤ 0xFFFD && c != byteOrderMark) || 0x10000 ≤ c.toNat

/-- The line breaks of a text that is not prepared. -/
def isAnyBreak (c : Char) : Bool := isBreak c || c == '\r' || c == '\u0085'

/-- Whether a character may end a word of a text that is not prepared. -/
def endsAnyWord : Option Char → Bool
  | none => true
  | some c => isSpace c || isAnyBreak c || c == '\x00'

/-- Whether two neighbours of a text have two properties. -/
def hasNeighbours (first second : Char → Bool) : List Char → Bool
  | a :: b :: rest => (first a && second b) || hasNeighbours first second (b :: rest)
  | _ => false

/-- Whether the first character of a text has a meaning of its own. -/
def startsWithMark : List Char → Bool
  | c :: rest =>
    if c = '?' ∨ c = ':' ∨ c = '-' then endsAnyWord rest.head? else isIndicator c
  | [] => false

/-- Whether a colon ends a word, or a comment starts, behind the first character. -/
def hasInnerMark : List Char → Bool
  | a :: b :: rest =>
    (b == ':' && endsAnyWord rest.head?) || (b == '#' && endsAnyWord (some a)) ||
      hasInnerMark (b :: rest)
  | _ => false

/-- Whether a text starts like the line that starts or ends a document. -/
def startsLikeDocumentMark (text : List Char) : Bool :=
  ['-', '-', '-'].isPrefixOf text || ['.', '.', '.'].isPrefixOf text

/-- Whether every character can be written as it is, and no space stands before a line
break. -/
def isRegular (text : List Char) : Bool :=
  text.all isPrintable && !hasNeighbours (· == ' ') isAnyBreak text

/-- Whether the character is a space or breaks a line. -/
def isSpaceOrBreak (c : Char) : Bool := c == ' ' || isAnyBreak c

/-- Whether a text can be written without quotes. -/
def allowsPlain (text : List Char) : Bool :=
  isRegular text && !text.any isAnyBreak && !text.head?.any isSpaceOrBreak &&
    !text.getLast?.any isSpaceOrBreak && !startsLikeDocumentMark text &&
    !startsWithMark text && !hasInnerMark text

/-- Whether a text can be written in single quotes. -/
def allowsSingleQuoted (text : List Char) : Bool :=
  isRegular text && !hasNeighbours isAnyBreak (· == ' ') text

/-- Whether a text can be written as a block of lines. -/
def allowsLiteral (text : List Char) : Bool :=
  !text.isEmpty && isRegular text && text.getLast? != some ' '

/-- The style in which a text is written: lines for a text with line feeds, quotes for
one that would mean something else, and no quotes if that is possible. -/
def styleFor (text : String) : ScalarStyle :=
  let chars := text.toList
  if chars.contains '\n' then if allowsLiteral chars then .literal else .doubleQuoted
  else if !isAmbiguous text && allowsPlain chars then .plain
  else if allowsSingleQuoted chars then .singleQuoted
  else .doubleQuoted

end ExtensionLoader.Yaml
