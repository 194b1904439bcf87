/-! # JSON text

The tables of a run are shown as JSON. A value is laid out over several lines, two
spaces deeper for each level; an empty list or object stays on its line. In a
string only the quotation mark, the backslash and the characters below U+0020 are
written as escapes.
-/

namespace ExtensionLoader

/-- The JSON values that are written. -/
inductive Json
  | number (value : Nat)
  | text (value : String)
  | list (items : List Json)
  /-- Named values, in order. -/
  | object (fields : List (String × Json))

namespace Json

/-- A hexadecimal digit in lower case. -/
def hexDigit (value : Nat) : Char := Nat.digitChar (value % 16)

/-- A character as it is written inside a string. -/
def escape (c : Char) : List Char :=
  if c = '"' then ['\\', '"']
  else if c = '\\' then ['\\', '\\']
  else if c.toNat = 0x8 then ['\\', 'b']
  else if c.toNat = 0xC then ['\\', 'f']
  else if c = '\n' then ['\\', 'n']
  else if c = '\r' then ['\\', 'r']
  else if c = '\t' then ['\\', 't']
  else if c.toNat < 0x20 then
    ['\\', 'u', '0', '0', hexDigit (c.toNat / 16), hexDigit c.toNat]
  else [c]

/-- A string with its quotation marks. -/
def quote (value : String) : String :=
  "\"" ++ String.ofList (value.toList.flatMap escape) ++ "\""

/-- Items between brackets, each on its own line one level deeper than `indent`. -/
def enclose (opening closing indent : String) (items : List String) : String :=
  if items.isEmpty then opening ++ closing
  else
    opening ++ String.intercalate "," (items.map fun item => "\n" ++ indent ++ "  " ++ item) ++
      "\n" ++ indent ++ closing

mutual

/-- The text of a value that stands in a line indented by `indent`. -/
def layout (indent : String) : Json → String
  | number value => toString value
  | text value => quote value
  | list items => enclose "[" "]" indent (layoutItems (indent ++ "  ") items)
  | object fields => enclose "\x7b" "\x7d" indent (layoutFields (indent ++ "  ") fields)

/-- The layouts of the items of an array, one below the other. -/
def layoutItems (indent : String) : List Json → List String
  | [] => []
  | item :: rest => layout indent item :: layoutItems indent rest

/-- The layouts of an object's fields, each its quoted name and its value. -/
def layoutFields (indent : String) : List (String × Json) → List String
  | [] => []
  | (name, value) :: rest =>
    (quote name ++ ": " ++ layout indent value) :: layoutFields indent rest

end

/-- A value as a whole document, which starts at the left margin. -/
def document (value : Json) : String := layout "" value

end Json

end ExtensionLoader
