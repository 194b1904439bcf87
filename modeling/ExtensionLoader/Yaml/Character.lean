import ExtensionLoader.Text.Lines
import ExtensionLoader.Yaml.Fault

/-! # The characters of a YAML text

A YAML text holds no control characters but tabs and line breaks. Before anything else
is looked at, every kind of line break but the two separators of Unicode is made a line
feed (`prepare`).
-/

namespace ExtensionLoader.Yaml

/-- The mark that may stand before a line to show the byte order of the text. -/
def byteOrderMark : Char := '\uFEFF'

/-- Whether a YAML text may hold a character. -/
def isReadable (c : Char) : Bool :=
  c == '\t' || c == '\n' || c == '\r' || (0x20 ≤ c.toNat && c.toNat ≤ 0x7E) ||
    c.toNat == 0x85 || (0xA0 ≤ c.toNat && c.toNat ≤ 0xD7FF) ||
    (0xE000 ≤ c.toNat && c.toNat ≤ 0xFFFD) || 0x10000 ≤ c.toNat

/-- The line breaks of a prepared text. -/
def isBreak (c : Char) : Bool := c == '\n' || c == '\u2028' || c == '\u2029'

/-- The characters that may stand between words of a line. -/
def isSpace (c : Char) : Bool := c == ' ' || c == '\t'

/-- Whether a word ends before what comes next: a space, a line break or nothing. -/
def endsWord : Option Char → Bool
  | none => true
  | some c => isSpace c || isBreak c

/-- The characters of a name: ASCII letters and digits, the hyphen and the underscore. -/
def isNameChar (c : Char) : Bool := c.isAlphanum || c == '-' || c == '_'

/-- The characters of a text as its reader sees them: with line feeds for returns and
next-line characters. -/
def prepare (text : String) : Except Fault (List Char) :=
  if text.toList.all isReadable then
    .ok ((Text.unifyBreaks text.toList).map fun c =>
      if c = '\r' ∨ c = '\u0085' then '\n' else c)
  else .error .forbiddenCharacter

/-- A place in a text. Lines and columns count from zero. -/
structure Place where
  line : Nat := 0
  column : Nat := 0
  /-- The number of octets before the place in its line. -/
  octets : Nat := 0
deriving DecidableEq

/-- The place behind a character. -/
def Place.past (place : Place) (c : Char) : Place :=
  if isBreak c then ⟨place.line + 1, 0, 0⟩
  else ⟨place.line, place.column + 1, place.octets + c.utf8Size⟩

/-- The place behind some characters. -/
def Place.pastAll (place : Place) (chars : List Char) : Place := chars.foldl Place.past place

/-- The fault of finding something unexpected at the place. -/
def Place.fault (place : Place) : Fault := .badToken place.line place.column

/-- Whether a line that starts or ends a document is next. -/
def isDocumentMark (place : Place) : List Char → Bool
  | a :: b :: c :: rest =>
    place.column == 0 && ([a, b, c] == ['-', '-', '-'] || [a, b, c] == ['.', '.', '.']) &&
      endsWord rest.head?
  | _ => false

/-- A part of a text that has been read: what it says, and where reading goes on. -/
structure Read (α : Type) where
  value : α
  place : Place
  rest : List Char

end ExtensionLoader.Yaml
