import ExtensionLoader.Command.Usage
import ExtensionLoader.Path

/-! # Invocations

The commands of the program with what they are given, and the rules of the levels of a
command line from which they are read.
-/

namespace ExtensionLoader.Command

/-- The shells that completions can be made for. -/
inductive ShellKind
  | bash
  | elvish
  | fish
  | powershell
  | zsh
deriving DecidableEq

/-- The shells there are completions for, in the order they are listed. -/
def ShellKind.all : List ShellKind := [bash, elvish, fish, powershell, zsh]

/-- The word a shell is chosen by. -/
def ShellKind.word : ShellKind → String
  | bash => "bash"
  | elvish => "elvish"
  | fish => "fish"
  | powershell => "powershell"
  | zsh => "zsh"

/-- The shell a word chooses. -/
def ShellKind.ofWord? (word : String) : Option ShellKind := all.find? fun kind => kind.word == word

/-- Where the inputs of a command come from. -/
structure InputOptions where
  /-- The manifest to read in place of the one in the working directory. -/
  manifest : Option Path := none
  enumSpec : Option String := none
  functionSpec : Option String := none
  typeMap : Option String := none
  maxLineWidth : Option Nat := none
deriving DecidableEq

/-- What the program is asked to do. -/
inductive Request
  | generate (inputs : InputOptions) (apis : Option String) (output : Option Path) (crlf : Bool)
  | init (directory : Path) (force : Bool)
  | list (inputs : InputOptions) (json : Bool)
  /-- Print what makes a shell complete the names of commands. -/
  | completions (shell : ShellKind)
deriving DecidableEq

/-- A request, and how much is said about it. -/
structure Invocation where
  request : Request
  debug : Nat := 0
deriving DecidableEq

/-- The option that every level has for the amount of detail. -/
def debugRule : OptionRule := ⟨"debug", some 'd', .value .level⟩

/-- The option that every level has for help. -/
def helpRule : OptionRule := ⟨"help", some 'h', .help⟩

/-- The names of the commands. -/
def commandNames : List String := ["generate", "init", "list", "completions"]

/-- The level before the name of a command. -/
def topLevel : LevelRule where
  options := [debugRule, helpRule, ⟨"version", some 'V', .version⟩]
  commands := commandNames ++ ["help"]

/-- The options common to the commands that read the inputs: where these are, and how wide their
lines may be. -/
def inputRules : List OptionRule :=
  [⟨"manifest", none, .value .path⟩, ⟨"enum-spec", none, .value .text⟩,
    ⟨"func-spec", none, .value .text⟩, ⟨"type-map", none, .value .text⟩,
    ⟨"max-line-width", none, .value .count⟩]

/-- What may be given behind the command `name`. -/
def commandLevel (name : String) : LevelRule :=
  match name with
  | "generate" =>
    { options := inputRules ++
        [⟨"api", none, .value .text⟩, ⟨"output", some 'o', .value .path⟩, ⟨"crlf", none, .flag⟩,
          debugRule, helpRule] }
  | "init" =>
    { options := [⟨"force", none, .flag⟩, debugRule, helpRule], word := some ("path", .path) }
  | "list" => { options := inputRules ++ [⟨"json", none, .flag⟩, debugRule, helpRule] }
  | _ =>
    { options := [debugRule, helpRule]
      word := some ("shell", .choice (ShellKind.all.map ShellKind.word)) }

/-- The options for inputs that were given. -/
def inputOptions (settled : OrderedMap String String) : InputOptions where
  manifest := settled.get? "manifest"
  enumSpec := settled.get? "enum-spec"
  functionSpec := settled.get? "func-spec"
  typeMap := settled.get? "type-map"
  maxLineWidth := (settled.get? "max-line-width").bind count?

/-- The request a command makes with the options it was given. -/
def requestOf (name : String) (settled : OrderedMap String String) : Except UsageFault Request :=
  match name with
  | "generate" =>
    .ok (.generate (inputOptions settled) (settled.get? "api") (settled.get? "output")
      (settled.contains "crlf"))
  | "init" => .ok (.init ((settled.get? "path").getD ".") (settled.contains "force"))
  | "list" => .ok (.list (inputOptions settled) (settled.contains "json"))
  | _ =>
    match (settled.get? "shell").bind ShellKind.ofWord? with
    | some shell => .ok (.completions shell)
    | none => .error .missingArgument

/-- What the command for help answers: help for one command or for all. -/
def helpFault : List String → UsageFault
  | [] => .help
  | [name] => if topLevel.commands.contains name then .help else .unknownCommand
  | _ => .unknownCommand

/-- The amount of detail that was asked for, the nearest to the command first. -/
def debugLevel (inner outer : OrderedMap String String) : Nat :=
  (((inner.get? "debug").orElse fun _ => outer.get? "debug").bind level?).getD 0

/-- The invocation that the arguments of a command line ask for. -/
def Invocation.parse (arguments : List String) : Except UsageFault Invocation := do
  let (outer, next) ← readLevel topLevel {} false arguments
  match next with
  | none =>
    let outer ← outer.settle
    throw (if outer.settled.isEmpty then .nothingGiven else .missingCommand)
  | some ("help", names) => throw (helpFault names)
  | some (name, rest) =>
    let (inner, _) ← readLevel (commandLevel name) {} false rest
    let inner ← inner.settle
    let request ← requestOf name inner.settled
    let outer ← outer.settle
    return { request, debug := debugLevel inner.settled outer.settled }

end ExtensionLoader.Command
