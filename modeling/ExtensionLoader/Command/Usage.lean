import ExtensionLoader.OrderedMap
import ExtensionLoader.Yaml.Scalar.Meaning

/-! # Command lines

A command line is read level by level: the options before the name of a command, and then
the options and words of the command. An option is settled, which checks its value, only
when the next one comes or the level ends; the level of a command ends before the one
around it. Of two faults the one that is met first in this order is reported, but an
argument that is not known is reported before what is still to be settled.
-/

namespace ExtensionLoader.Command

/-- Why a command line does not start a command. -/
inductive UsageFault
  | unknownArgument
  | unknownCommand
  /-- A value is missing, or is none of the possible ones. -/
  | badChoice
  /-- A value cannot be read. -/
  | badValue
  /-- An option is given twice. -/
  | repeatedOption
  | missingArgument
  | needlessValue
  | missingCommand
  | help
  | version
  /-- There is nothing to go by. -/
  | nothingGiven
deriving DecidableEq

/-- What an option or a word may be given. -/
inductive ValueKind
  | text
  /-- A path, which cannot be empty. -/
  | path
  /-- A number below 256, which may have a sign. -/
  | level
  /-- A number of 64 bits. -/
  | count
  /-- One of some words. -/
  | choice (words : List String)

/-- The number below 256 that a word is; behind a minus only zero is one. -/
def level? (value : String) : Option Nat :=
  match value.toList with
  | '-' :: digits => (Yaml.digits? 10 digits).filter (· == 0)
  | chars => (Yaml.digits? 10 (Yaml.dropSign '+' chars)).filter (· < 256)

/-- The number of 64 bits that a word is. -/
def count? (value : String) : Option Nat :=
  (Yaml.digits? 10 (Yaml.dropSign '+' value.toList)).filter (· < UInt64.size)

/-- What is wrong with a value, if anything is. -/
def ValueKind.fault? (kind : ValueKind) (value : String) : Option UsageFault :=
  match kind with
  | text => none
  | path => if value.isEmpty then some .badChoice else none
  | level => if (level? value).isSome then none else some .badValue
  | count => if (count? value).isSome then none else some .badValue
  | choice words => if words.contains value then none else some .badChoice

/-- What an option does when it is given. -/
inductive OptionEffect
  /-- It is on or off. -/
  | flag
  | value (kind : ValueKind)
  | help
  | version

/-- An option of a level. -/
structure OptionRule where
  name : String
  letter : Option Char := none
  effect : OptionEffect

/-- What may stand in a level. -/
structure LevelRule where
  options : List OptionRule
  word : Option (String × ValueKind) := none
  commands : List String := []

/-- An option or a word that is not settled yet. -/
structure Pending where
  name : String
  kind : ValueKind
  value : Option String

/-- What has been given in a level. -/
structure Given where
  settled : OrderedMap String String := .empty
  pending : Option Pending := none
  wordGiven : Bool := false

namespace Given

/-- Note what an option was given. -/
def note (given : Given) (name value : String) : Except UsageFault Given :=
  if given.settled.contains name then .error .repeatedOption
  else .ok { given with settled := given.settled.insert name value, pending := none }

/-- Note the value of the pending option, which has to be one it may be given. -/
def settle (given : Given) : Except UsageFault Given :=
  match given.pending with
  | none => .ok given
  | some ⟨_, _, none⟩ => .error .badChoice
  | some ⟨name, kind, some value⟩ => do
    let noted ← given.note name value
    match kind.fault? value with
    | some fault => throw fault
    | none => return noted

/-- Whether a value is still to come. -/
def isWaiting (given : Given) : Bool := given.pending.any fun pending => pending.value.isNone

/-- Give the pending option its value. -/
def provide (given : Given) (value : String) : Given :=
  { given with pending := given.pending.map fun pending => { pending with value := some value } }

/-- Give an option, with a value if one is attached to it. An attached value is settled
at once. -/
def option (given : Given) (rule : OptionRule) (attached : Option String) :
    Except UsageFault Given := do
  match rule.effect with
  | .value kind =>
    let given := { ← given.settle with pending := some ⟨rule.name, kind, attached⟩ }
    if attached.isSome then given.settle else return given
  | effect =>
    if attached.isSome then throw .needlessValue
    else
      let given ← given.settle
      match effect with
      | .help => throw .help
      | .version => throw .version
      | _ => given.note rule.name ""

/-- Give options by their letters. The rest of the letters is the value of the first
option that takes one. -/
def letters (level : LevelRule) : Given → List Char → Except UsageFault Given
  | given, [] => .ok given
  | given, letter :: rest =>
    match level.options.find? fun rule => rule.letter == some letter with
    | none => .error .unknownArgument
    | some rule =>
      match rule.effect with
      | .value _ =>
        let attached := match rest with
          | [] => none
          | '=' :: value => some (String.ofList value)
          | value => some (String.ofList value)
        given.option rule attached
      | _ => do letters level (← given.option rule none) rest

/-- Give an option by its name, with a value behind an equals sign. -/
def named (level : LevelRule) (given : Given) (argument : List Char) :
    Except UsageFault Given :=
  let name := String.ofList (argument.takeWhile (· ≠ '='))
  let attached := match argument.dropWhile (· ≠ '=') with
    | [] => none
    | _ :: value => some (String.ofList value)
  match level.options.find? fun rule => rule.name == name with
  | none => .error .unknownArgument
  | some rule => given.option rule attached

/-- Give a word. `literal` tells that it stands behind the mark that ends the options. -/
def word (level : LevelRule) (literal : Bool) (given : Given) (argument : String) :
    Except UsageFault Given := do
  match level.word, given.wordGiven with
  | some (name, kind), false =>
    return { ← given.settle with
      pending := some ⟨name, kind, some argument⟩, wordGiven := true }
  | _, _ =>
    if level.commands.isEmpty || (literal && level.commands.contains argument) then
      throw .unknownArgument
    else throw .unknownCommand

end Given

/-- The command that ends a level, and the arguments behind it. -/
abbrev NextCommand := Option (String × List String)

/-- Read the arguments of a level up to the name of a command. -/
def readLevel (level : LevelRule) :
    Given → (literal : Bool) → List String → Except UsageFault (Given × NextCommand)
  | given, _, [] => .ok (given, none)
  | given, true, argument :: rest => do
    readLevel level (← given.word level true argument) true rest
  | given, false, argument :: rest => do
    if !given.isWaiting && level.commands.contains argument then
      return (given, some (argument, rest))
    else
      match argument.toList with
      | ['-', '-'] => readLevel level given true rest
      | '-' :: '-' :: name => readLevel level (← given.named level name) false rest
      | '-' :: letter :: letters =>
        readLevel level (← given.letters level (letter :: letters)) false rest
      | _ =>
        if given.isWaiting then readLevel level (given.provide argument) false rest
        else readLevel level (← given.word level false argument) false rest

end ExtensionLoader.Command
