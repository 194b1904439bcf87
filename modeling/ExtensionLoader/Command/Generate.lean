import ExtensionLoader.Command.Inputs
import ExtensionLoader.Run.Generate
import ExtensionLoader.Storage.Directory

/-! # The command that generates the sources -/

namespace ExtensionLoader.Command

/-- The lines about what a run did. -/
def reportLines (report : Report) (debug : Nat) : List String :=
  report.generated.map (fun file => Terminal.statusLine "Generated" file.fileName) ++
    report.empty.map (fun scope =>
      Terminal.statusLine "Skipped" (scope ++ " (nothing to generate)")) ++
    report.failures.map (fun (scope, fault) =>
      Terminal.statusLine "Failed" (scope ++ ": " ++ fault.message)) ++
    match report.diagnostics.summary with
    | none => []
    | some summary =>
      if debug = 0 then [Terminal.statusLine "Warning" (summary ++ " (use --debug 1 to show)")]
      else report.diagnostics.flatMap Terminal.findingLines

variable {m : Type → Type} [Monad m]

/-- The settings of a run: those of its inputs, with options in place of some of them. -/
def generateSettings (terminal : Terminal m) (inputs : InputOptions) (apis : Option String)
    (output : Option Path) (crlf : Bool) : m (Except Fault Settings) := do
  match ← inputs.settings terminal with
  | .error fault => return .error fault
  | .ok settings =>
    let settings := { settings with
      output := output.getD settings.output
      lineEnding := if crlf then .crlf else settings.lineEnding }
    match apis with
    | none => return .ok settings
    | some argument =>
      match ← Selection.parse (Directories.read {} terminal.files) argument with
      | .error fault => return .error fault
      | .ok apis => return .ok { settings with apis }

/-- Generate with the settings given, then show the findings and what was written. -/
def runGenerate (terminal : Terminal m) (settings : Settings) (debug : Nat) :
    m (Except Fault Unit) := do
  let sources := settings.sources
  terminal.status "Reading"
    (String.intercalate ", " [sources.enumSpec, sources.functionSpec, sources.typeMap])
  let directories : Directories := ⟨".", settings.output, settings.lineEnding⟩
  let workspace := directories.workspace terminal.files (terminal.hear debug)
  match ← Run.generate workspace sources settings.apis settings.maxLineWidth with
  | .error fault => return .error fault
  | .ok report =>
    terminal.notes (reportLines report debug)
    match report.fault? with
    | some fault => return .error fault
    | none =>
      terminal.status "Finished"
        (Text.counted report.generated.length "file" "files" ++ " in " ++
          Path.shownFrom (← terminal.home) settings.output)
      return .ok ()

/-- The command `generate`: settings from the manifest and the options, and a run with them. -/
def generate (terminal : Terminal m) (inputs : InputOptions) (apis : Option String)
    (output : Option Path) (crlf : Bool) (debug : Nat) : m (Except Fault Unit) := do
  match ← generateSettings terminal inputs apis output crlf with
  | .error fault => return .error fault
  | .ok settings => runGenerate terminal settings debug

end ExtensionLoader.Command
