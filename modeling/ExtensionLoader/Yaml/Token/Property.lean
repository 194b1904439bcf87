import ExtensionLoader.Text.Utf8
import ExtensionLoader.Yaml.Token
import ExtensionLoader.Yaml.Token.Quoted

/-! # Anchors, tags and directives

An anchor names a node, and an alias stands for the node of that name. A tag says what a
node is; its name is a URI, in which a percent sign starts an octet of two hexadecimal
digits. The name ends before an octet of zero. A directive stands before a document.
-/

namespace ExtensionLoader.Yaml

/-- Whether the name of an anchor may end before what comes next. -/
def endsAnchor (next : Option Char) : Bool :=
  endsWord next || next.any fun c => ['?', ':', ',', ']', '\x7d', '%', '@', '`'].contains c

/-- Take the name of an anchor. -/
def takeAnchor (text : List Char) : Option (String × List Char) :=
  let name := text.takeWhile isNameChar
  let rest := text.dropWhile isNameChar
  if name.isEmpty || !endsAnchor rest.head? then none else some (String.ofList name, rest)

/-- The characters that a URI may hold as they are. -/
def isUriChar (c : Char) : Bool :=
  isNameChar c ||
    [';', '/', '?', ':', '@', '&', '=', '+', '$', '.', '!', '~', '*', '\'', '(', ')'].contains c

/-- How many octets a character with this first octet has. -/
def octetCount? (first : Nat) : Option Nat :=
  if first < 0x80 then some 1
  else if 0xC0 ≤ first ∧ first < 0xE0 then some 2
  else if 0xE0 ≤ first ∧ first < 0xF0 then some 3
  else if 0xF0 ≤ first ∧ first < 0xF8 then some 4
  else none

/-- Take the octets of a URI. `due` octets must still follow for the character that was
begun. Between angle brackets a URI may hold commas and square brackets. -/
def takeUri (enclosed : Bool) : (due : Nat) → List Char → Option (Tag × List Char)
  | due, '%' :: high :: low :: rest =>
    match hexValue? high, hexValue? low with
    | some high, some low =>
      let octet := high * 16 + low
      let left? := match due with
        | 0 => (octetCount? octet).map (· - 1)
        | left + 1 => if 0x80 ≤ octet ∧ octet < 0xC0 then some left else none
      match left? with
      | none => none
      | some left =>
        (takeUri enclosed left rest).map fun (octets, after) => (octet.toUInt8 :: octets, after)
    | _, _ => none
  | 0, c :: rest =>
    if c = '%' then none
    else if isUriChar c || (enclosed && [',', '[', ']'].contains c) then
      (takeUri enclosed 0 rest).map fun (octets, after) => (c.toNat.toUInt8 :: octets, after)
    else some ([], c :: rest)
  | 0, [] => some ([], [])
  | _ + 1, _ => none

/-- Take a handle: an exclamation mark, and a name with another one behind it. Without
the second one, the name may be the start of a tag. -/
def takeHandle : List Char → Option ((List Char × Bool) × List Char)
  | '!' :: rest =>
    let name := rest.takeWhile isNameChar
    match rest.dropWhile isNameChar with
    | '!' :: after => some (('!' :: name ++ ['!'], true), after)
    | after => some (('!' :: name, false), after)
  | _ => none

/-- The octets of a text. -/
def octetsOf (text : List Char) : Tag := Text.Utf8.encode (String.ofList text)

/-- The tag that the octets of a URI give. -/
def tagOfOctets (octets : List UInt8) : Tag := octets.takeWhile (· ≠ 0)

/-- Take a tag behind nothing: with angle brackets in full, with a handle, or local. -/
def takeTag (text : List Char) : Option (Token × List Char) :=
  match text with
  | '!' :: '<' :: rest => do
    match ← takeUri true 0 rest with
    | ([], _) => none
    | (octets, '>' :: after) => some (.tag "" (tagOfOctets octets), after)
    | _ => none
  | _ => do
    let ((handle, closed), rest) ← takeHandle text
    let (octets, after) ← takeUri false 0 rest
    if closed then
      if octets.isEmpty then none
      else some (.tag (String.ofList handle) (tagOfOctets octets), after)
    else
      match tagOfOctets (octetsOf (handle.drop 1) ++ octets) with
      | [] => some (.tag "" (octetsOf ['!']), after)
      | whole => some (.tag "!" whole, after)

/-- Whether a tag may end before what comes next. -/
def endsTag (inFlow : Bool) (next : Option Char) : Bool :=
  endsWord next || (inFlow && next == some ',')

/-- Take a number of at most nine digits. -/
def takeNumber (text : List Char) : Option (Nat × List Char) :=
  let digits := text.takeWhile Char.isDigit
  if digits.isEmpty || digits.length > 9 then none
  else
    some (digits.foldl (fun value c => value * 10 + (c.toNat - '0'.toNat)) 0,
      text.dropWhile Char.isDigit)

/-- Take what stands behind the name of a directive. -/
def takeDirectiveValue (name rest : List Char) : Option (Token × List Char) :=
  if name = "YAML".toList then do
    match ← takeNumber (rest.dropWhile isSpace) with
    | (major, '.' :: after) => do
      let (minor, after) ← takeNumber after
      some (.version major minor, after)
    | _ => none
  else if name = "TAG".toList then do
    let ((handle, closed), after) ← takeHandle (rest.dropWhile isSpace)
    if (closed || handle = ['!']) && after.head?.any isSpace then
      let (octets, after) ← takeUri true 0 (after.dropWhile isSpace)
      if octets.isEmpty || !endsWord after.head? then none
      else some (.tagHandle (String.ofList handle) (tagOfOctets octets), after)
    else none
  else none

/-- Take a directive, whose percent sign is next. -/
def takeDirective (text : List Char) : Option (Token × List Char) :=
  let name := (text.drop 1).takeWhile isNameChar
  let rest := (text.drop 1).dropWhile isNameChar
  if name.isEmpty || !endsWord rest.head? then none else takeDirectiveValue name rest

end ExtensionLoader.Yaml
