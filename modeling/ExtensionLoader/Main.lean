import ExtensionLoader.Command.Execute

/-! # The program

The command line on the real file system. All decisions are made elsewhere; this module
reads arguments, reaches files and prints lines.
-/

namespace ExtensionLoader.Program

/-- The number that the system gives for an error, if it gives one. -/
def systemCode? : IO.Error → Option UInt32
  | .alreadyExists _ code _ | .otherError code _ | .resourceBusy code _
  | .resourceVanished code _ | .unsupportedOperation code _ | .hardwareFault code _
  | .unsatisfiedConstraints code _ | .illegalOperation code _ | .protocolError code _
  | .timeExpired code _ | .interrupted _ code _ | .noFileOrDirectory _ code _
  | .invalidArgument _ code _ | .permissionDenied _ code _ | .resourceExhausted _ code _
  | .inappropriateType _ code _ | .noSuchThing _ code _ => some code
  | .unexpectedEof | .userError _ => none

/-- What an error of the operating system says about a file. -/
def faultOf (error : IO.Error) : FileFault :=
  match systemCode? error with
  | some 2 => .notFound
  | some 13 => .permissionDenied
  | some 17 => .alreadyExists
  | some 20 => .notDirectory
  | some 21 => .isDirectory
  | some 36 => .nameTooLong
  | some 40 => .tooManyLinks
  | some code => .system code.toNat
  | none => .system 5

/-- Do something, and turn an error into a fault of a file. -/
def guarded {α : Type} (action : IO α) : IO (Except FileFault α) := do
  try return .ok (← action) catch error => return .error (faultOf error)

/-- The kind of what the operating system finds at a path. -/
def kindOf : IO.FS.FileType → FileKind
  | .dir => .directory
  | .file => .file
  | _ => .other

/-- What stands at the end of a path. -/
def inspect (path : Path) : IO (Option FileInfo) := do
  if path.isEmpty then return none
  else
    let joined := (← IO.currentDir) / path
    try
      let place ← IO.FS.realPath joined
      let kind := kindOf (← place.metadata).type
      let isLink := (← joined.symlinkMetadata).type matches .symlink
      return some ⟨kind, isLink, place.toString⟩
    catch _ => return none

/-- The names inside a directory, in byte order. -/
def names (path : Path) : IO (List String) := do
  try
    let found ← ((← IO.currentDir) / path).readDir
    return (found.toList.map fun entry => entry.fileName).mergeSort
      fun first second => decide (first ≤ second)
  catch _ => return []

/-- The file system the program runs on. -/
def files : FileSystem IO where
  read path := guarded do return (← IO.FS.readBinFile path).data.toList
  write path bytes := guarded (IO.FS.writeBinFile path ⟨bytes.toArray⟩)
  makeDirectory path := guarded (IO.FS.createDir path)
  inspect := inspect
  names := names

/-- The process's own streams, file system and working directory. -/
def terminal : Terminal IO where
  files := files
  yaml := Yaml.library
  home := do return (← IO.currentDir).toString
  note := IO.eprintln
  print := IO.println

/-- What is shown to a user who asks for help. -/
def usageText : String :=
  "Usage: " ++ Command.programName ++ " [--debug LEVEL] COMMAND\nCommands: " ++
    Command.spacedWords

/-- What is shown for a command line that starts no command, and the exit code. -/
def usageAnswer : Command.UsageFault → String × UInt32
  | .help => (usageText, 0)
  | .version => (Command.programName ++ " " ++ Command.programVersion, 0)
  | .unknownArgument => ("unknown argument\n" ++ usageText, 2)
  | .unknownCommand => ("unknown command\n" ++ usageText, 2)
  | .badChoice => ("a value is missing or is not a possible one\n" ++ usageText, 2)
  | .badValue => ("a value cannot be read\n" ++ usageText, 2)
  | .repeatedOption => ("an option is given twice\n" ++ usageText, 2)
  | .missingArgument => ("an argument is missing\n" ++ usageText, 2)
  | .needlessValue => ("an option takes no value\n" ++ usageText, 2)
  | .missingCommand => ("a command is missing\n" ++ usageText, 2)
  | .nothingGiven => (usageText, 2)

/-- Read the arguments, run the command they ask for and give the exit code. -/
def run (arguments : List String) : IO UInt32 := do
  match Command.Invocation.parse arguments with
  | .error fault =>
    let (answer, code) := usageAnswer fault
    if code = 0 then IO.println answer else IO.eprintln answer
    return code
  | .ok invocation =>
    match ← invocation.execute terminal with
    | .ok () => return 0
    | .error fault =>
      IO.eprintln (fault.area.code ++ ": " ++ fault.message)
      match fault.help with
      | some help => IO.eprintln ("help: " ++ help)
      | none => pure ()
      return 1

end ExtensionLoader.Program

/-- The entry point. -/
def main (arguments : List String) : IO UInt32 := ExtensionLoader.Program.run arguments
