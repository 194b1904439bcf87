import ExtensionLoader.Command.Invocation

/-! # Completing the names of commands

The line that makes a shell complete the first word behind the name of the program.
-/

namespace ExtensionLoader.Command

/-- The name of the program. -/
def programName : String := "glex"

/-- The words that can stand first. -/
def firstWords : List String := commandNames ++ ["help"]

/-- The version the program reports. -/
def programVersion : String := "0.3.0"

/-- The first words with spaces between them. -/
def spacedWords : String := String.intercalate " " firstWords

/-- The line that a shell reads. -/
def completionLine : ShellKind → String
  | .bash => "complete -W \"" ++ spacedWords ++ "\" " ++ programName
  | .elvish =>
    "set edit:completion:arg-completer[" ++ programName ++ "] = \x7b|@a| put " ++ spacedWords ++
      " \x7d"
  | .fish => "complete -c " ++ programName ++ " -f -a \"" ++ spacedWords ++ "\""
  | .powershell =>
    "Register-ArgumentCompleter -Native -CommandName " ++ programName ++ " -ScriptBlock \x7b '" ++
      String.intercalate "', '" firstWords ++ "' \x7d"
  | .zsh => "compdef '_arguments 1:command:(" ++ spacedWords ++ ")' " ++ programName

end ExtensionLoader.Command
