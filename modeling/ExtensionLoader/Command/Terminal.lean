import ExtensionLoader.Diagnostic
import ExtensionLoader.Log
import ExtensionLoader.Storage.FileTree
import ExtensionLoader.Yaml.Library.Standard

/-! # Terminals

A command works on a file system and tells what it does on two channels: lines about its
progress, and lines that are its result. `Session` is a terminal whose files and lines
are kept in memory.
-/

namespace ExtensionLoader

/-- What a command works with. -/
structure Terminal (m : Type → Type) where
  files : FileSystem m
  /-- What reads and writes manifests. -/
  yaml : Yaml.Library
  /-- The working directory, as it is left out of paths that are shown. -/
  home : m Path
  note : String → m Unit
  print : String → m Unit

namespace Terminal

variable {m : Type → Type} [Monad m]

/-- The width of the column of verbs. -/
def verbWidth : Nat := 12

/-- A line about progress: a verb in its column, and what it is about. -/
def statusLine (verb message : String) : String :=
  Text.padLeft verbWidth verb ++ " " ++ message

/-- Print a line of progress: a verb and what it is done to. -/
def status (terminal : Terminal m) (verb message : String) : m Unit :=
  terminal.note (statusLine verb message)

/-- Write several lines about progress. -/
def notes (terminal : Terminal m) : List String → m Unit
  | [] => pure ()
  | line :: rest => do
    terminal.note line
    notes terminal rest

/-- The lines that show a finding. -/
def findingLines (finding : Diagnostic) : List String :=
  s!"  {finding.severity.word}[{finding.code}]: {finding.message}" ::
    (finding.help.map fun help => s!"    help: {help}").toList

/-- Print the findings one after the other. -/
def showFindings (terminal : Terminal m) (found : Diagnostics) : m Unit :=
  terminal.notes (found.flatMap findingLines)

/-- The listener that an amount of detail gives: none, one for steps, or one for all. -/
def listener? : Nat → Option LogLevel
  | 0 => none
  | 1 => some .debug
  | _ => some .trace

/-- Write a message of a run if it is listened to. -/
def hear (terminal : Terminal m) (debug : Nat) (message : LogMessage) : m Unit :=
  if (listener? debug).any message.heardAt then terminal.note message.line else pure ()

end Terminal

/-- Files in memory, and the lines that were written. -/
structure Session where
  tree : FileTree := {}
  noted : List String := []
  printed : List String := []

namespace Session

/-- Work on the files of a session. -/
def onFiles {α : Type} (action : StateM FileTree α) : StateM Session α := fun session =>
  let (result, tree) := action session.tree
  (result, { session with tree })

/-- The files of a session. -/
def files : FileSystem (StateM Session) where
  read path := onFiles (FileTree.fileSystem.read path)
  write path contents := onFiles (FileTree.fileSystem.write path contents)
  makeDirectory path := onFiles (FileTree.fileSystem.makeDirectory path)
  inspect path := onFiles (FileTree.fileSystem.inspect path)
  names path := onFiles (FileTree.fileSystem.names path)

/-- A terminal whose state is a session, for running commands without a machine. -/
def terminal : Terminal (StateM Session) where
  files := files
  yaml := Yaml.library
  home := do return FileTree.pathOf (← get).tree.home
  note line := modify fun session => { session with noted := session.noted ++ [line] }
  print line := modify fun session => { session with printed := session.printed ++ [line] }

end Session

end ExtensionLoader
