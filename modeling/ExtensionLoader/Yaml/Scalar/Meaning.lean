import ExtensionLoader.Text.Split

/-! # What a plain text may mean

A text without quotes can mean the null value, a truth value or a number. A text that
would mean one of them has to be quoted to be read as itself.
-/

namespace ExtensionLoader.Yaml

/-- Whether a plain text means no value. -/
def isNull (text : String) : Bool := ["~", "null", "Null", "NULL"].contains text

/-- Whether a plain text means a truth value. -/
def isTruthValue (text : String) : Bool :=
  ["true", "True", "TRUE", "false", "False", "FALSE"].contains text

/-- The value of a digit in some base up to sixteen. -/
def digitValue? (base : Nat) (c : Char) : Option Nat :=
  let value :=
    if c.isDigit then c.toNat - '0'.toNat
    else if 'a' ≤ c ∧ c ≤ 'f' then c.toNat - 'a'.toNat + 10
    else if 'A' ≤ c ∧ c ≤ 'F' then c.toNat - 'A'.toNat + 10
    else base
  if value < base then some value else none

/-- The number that digits of a base give; none without a digit. -/
def digits? (base : Nat) (text : List Char) : Option Nat :=
  if text.isEmpty then none
  else text.foldlM (fun value c => (digitValue? base c).map (value * base + ·)) 0

/-- A text without the sign before it. -/
def dropSign (sign : Char) : List Char → List Char
  | c :: rest => if c = sign then rest else c :: rest
  | [] => []

/-- Whether a text starts with a sign. -/
def isSigned (text : List Char) : Bool := text.head? == some '+' || text.head? == some '-'

/-- Whether a text is digits with a zero too many before them, such as `007`. -/
def hasLeadingZero (text : List Char) : Bool :=
  match if isSigned text then text.drop 1 else text with
  | '0' :: rest => !rest.isEmpty && rest.all Char.isDigit
  | _ => false

/-- The number that digits behind the letter of a base give. -/
def based? (letter : Char) (base : Nat) : List Char → Option Nat
  | '0' :: c :: rest => if c = letter then digits? base rest else none
  | _ => none

/-- The number that a text without its sign gives. -/
def magnitude? (text : List Char) : Option Nat :=
  (based? 'x' 16 text).orElse fun _ => (based? 'o' 8 text).orElse fun _ =>
    (based? 'b' 2 text).orElse fun _ => if hasLeadingZero text then none else digits? 10 text

/-- The number a plain text means, if it means one. -/
def natural? (text : List Char) : Option Nat :=
  let unsigned := dropSign '+' text
  if isSigned unsigned then none else magnitude? unsigned

/-- The negative number that a text means, without its sign. -/
def negated? : List Char → Option Nat
  | '-' :: rest => if isSigned rest then none else magnitude? rest
  | _ => none

/-- Whether a text means an integer of 128 bits. -/
def isInteger (text : List Char) : Bool :=
  (natural? text).any (· < Nat.pow 2 128) || (negated? text).any (· ≤ Nat.pow 2 127)

/-- A decimal number without a sign: its digits, and the power of ten behind them. -/
structure Decimal where
  digits : List Char
  exponent : Int

/-- The power of ten that a text behind the digits of a number gives. -/
def exponent? : List Char → Option Int
  | [] => some 0
  | c :: rest =>
    if c = 'e' ∨ c = 'E' then
      match rest with
      | '-' :: rest => (digits? 10 rest).map fun value => -(value : Int)
      | '+' :: rest => (digits? 10 rest).map Int.ofNat
      | rest => (digits? 10 rest).map Int.ofNat
    else none

/-- Read a decimal number: digits with at most one point, then a power of ten. -/
def decimal? (text : List Char) : Option Decimal :=
  let whole := text.takeWhile Char.isDigit
  let rest := text.dropWhile Char.isDigit
  let (part, rest) := match rest with
    | '.' :: rest => (rest.takeWhile Char.isDigit, rest.dropWhile Char.isDigit)
    | rest => ([], rest)
  if whole.isEmpty && part.isEmpty then none
  else (exponent? rest).map fun exponent => ⟨whole ++ part, exponent - (part.length : Int)⟩

/-- Whether a decimal number rounds to a finite number of double precision. The greatest
of these is `2 ^ 1024 - 2 ^ 971`, and the bound lies half a step above it. -/
def Decimal.isFinite (decimal : Decimal) : Bool :=
  let significant := decimal.digits.dropWhile (· == '0')
  let magnitude := (significant.length : Int) + decimal.exponent
  let value := (digits? 10 significant).getD 0
  let bound := Nat.pow 2 1024 - Nat.pow 2 970
  if significant.isEmpty || magnitude < 309 then true
  else if 309 < magnitude then false
  else if 0 ≤ decimal.exponent then decide (value * Nat.pow 10 decimal.exponent.toNat < bound)
  else decide (value < bound * Nat.pow 10 (-decimal.exponent).toNat)

/-- The names of numbers that have no digits. -/
def isNamedNumber (text : List Char) : Bool :=
  let unsigned := String.ofList (dropSign '+' text)
  [".inf", ".Inf", ".INF"].contains unsigned ||
    ["-.inf", "-.Inf", "-.INF", ".nan", ".NaN", ".NAN"].contains (String.ofList text)

/-- Whether a text means a finite decimal number or a number with a name. -/
def isDecimal (text : List Char) : Bool :=
  let unsigned := dropSign '+' text
  if unsigned.length < text.length && isSigned unsigned then false
  else isNamedNumber text || (decimal? (dropSign '-' unsigned)).any Decimal.isFinite

/-- Whether a text without quotes would mean something else than itself. -/
def isAmbiguous (text : String) : Bool :=
  text.isEmpty || isNull text || isTruthValue text || isInteger text.toList ||
    hasLeadingZero text.toList || isDecimal text.toList

end ExtensionLoader.Yaml
