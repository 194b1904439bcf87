import ExtensionLoader.Yaml.Token.Gap

/-! # Quoted scalars

Between single quotes a quote is written twice. Between double quotes a backslash starts
an escape; before a line break it makes the break stand for nothing.
-/

namespace ExtensionLoader.Yaml

/-- Read a scalar in single quotes, where two quotes stand for one. -/
def readSingleQuoted : Gap → Place → List Char → Except Fault (Read (List Char))
  | _, place, [] => .error place.fault
  | gap, place, c :: rest =>
    if isDocumentMark place (c :: rest) then .error place.fault
    else if isSpace c then readSingleQuoted (gap.addSpace c) (place.past c) rest
    else if isBreak c then readSingleQuoted (gap.addBreak c) (place.past c) rest
    else if c = '\'' then
      match rest with
      | '\'' :: rest =>
        (readSingleQuoted ⟨[], [], false⟩ ((place.past c).past c) rest).map
          (Read.push (gap.text ++ ['\'']))
      | rest => .ok ⟨gap.text, place.past c, rest⟩
    else (readSingleQuoted ⟨[], [], false⟩ (place.past c) rest).map (Read.push (gap.text ++ [c]))

/-- The escapes of one letter. -/
def shortEscapes : List (Char × Char) :=
  [('0', '\x00'), ('a', '\x07'), ('b', '\x08'), ('t', '\t'), ('\t', '\t'), ('n', '\n'),
    ('v', '\x0B'), ('f', '\x0C'), ('r', '\r'), ('e', '\x1B'), (' ', ' '), ('"', '"'), ('/', '/'),
    ('\\', '\\'), ('N', '\u0085'), ('_', '\u00A0'), ('L', '\u2028'), ('P', '\u2029')]

/-- The number of hexadecimal digits behind a letter that starts a code. -/
def codeLength? : Char → Option Nat
  | 'x' => some 2
  | 'u' => some 4
  | 'U' => some 8
  | _ => none

/-- The value of a hexadecimal digit. -/
def hexValue? (c : Char) : Option Nat :=
  if '0' ≤ c ∧ c ≤ '9' then some (c.toNat - '0'.toNat)
  else if 'a' ≤ c ∧ c ≤ 'f' then some (c.toNat - 'a'.toNat + 10)
  else if 'A' ≤ c ∧ c ≤ 'F' then some (c.toNat - 'A'.toNat + 10)
  else none

/-- The character with a code, if there is one. -/
def charOfCode? (code : Nat) : Option Char :=
  if code.isValidChar then some (Char.ofNat code) else none

/-- Where reading stands inside double quotes. -/
inductive QuoteState
  | behind (gap : Gap)
  | escape
  /-- Before the last `left + 1` digits of a code. -/
  | code (left value : Nat)

/-- Read a scalar in double quotes with its escapes. -/
def readDoubleQuoted : QuoteState → Place → List Char → Except Fault (Read (List Char))
  | _, place, [] => .error place.fault
  | .behind gap, place, c :: rest =>
    if isDocumentMark place (c :: rest) then .error place.fault
    else if isSpace c then readDoubleQuoted (.behind (gap.addSpace c)) (place.past c) rest
    else if isBreak c then readDoubleQuoted (.behind (gap.addBreak c)) (place.past c) rest
    else if c = '"' then .ok ⟨gap.text, place.past c, rest⟩
    else if c = '\\' then
      (readDoubleQuoted .escape (place.past c) rest).map (Read.push gap.text)
    else
      (readDoubleQuoted (.behind ⟨[], [], false⟩) (place.past c) rest).map
        (Read.push (gap.text ++ [c]))
  | .escape, place, c :: rest =>
    if isBreak c then readDoubleQuoted (.behind ⟨[], [], true⟩) (place.past c) rest
    else
      match shortEscapes.lookup c, codeLength? c with
      | some meant, _ =>
        (readDoubleQuoted (.behind ⟨[], [], false⟩) (place.past c) rest).map (Read.push [meant])
      | none, some length => readDoubleQuoted (.code (length - 1) 0) (place.past c) rest
      | none, none => .error place.fault
  | .code left value, place, c :: rest =>
    match hexValue? c, left with
    | none, _ => .error place.fault
    | some digit, left + 1 =>
      readDoubleQuoted (.code left (value * 16 + digit)) (place.past c) rest
    | some digit, 0 =>
      match charOfCode? (value * 16 + digit) with
      | none => .error place.fault
      | some meant =>
        (readDoubleQuoted (.behind ⟨[], [], false⟩) (place.past c) rest).map (Read.push [meant])

end ExtensionLoader.Yaml
