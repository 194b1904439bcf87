import ExtensionLoader.Command.Inputs
import ExtensionLoader.Run.Summary
import ExtensionLoader.Storage.Directory

/-! # The command that lists the APIs -/

namespace ExtensionLoader.Command

/-- The line about an API. -/
def summaryLine (summary : ApiSummary) : String :=
  Terminal.statusLine summary.api
    (Text.counted summary.enums "enum" "enums" ++ ", " ++
      Text.counted summary.functions "function" "functions")

variable {m : Type → Type} [Monad m]

/-- Print the summaries, as a table or as a JSON document. -/
def showSummaries (terminal : Terminal m) (summaries : List ApiSummary) (json : Bool) : m Unit :=
  if json then terminal.print (Json.list (summaries.map ApiSummary.json)).document
  else
    terminal.notes (summaries.map summaryLine ++
      [Terminal.statusLine "Found" (Text.counted summaries.length "API" "APIs")])

/-- The command `list`: read the inputs and print an entry for each API. -/
def list (terminal : Terminal m) (inputs : InputOptions) (json : Bool) (debug : Nat) :
    m (Except Fault Unit) := do
  match ← inputs.settings terminal with
  | .error fault => return .error fault
  | .ok settings =>
    let workspace := Directories.workspace {} terminal.files (terminal.hear debug)
    match ← (Tables.load workspace settings.sources settings.maxLineWidth).run.run [] with
    | (.error fault, _) => return .error fault
    | (.ok tables, found) =>
      showSummaries terminal tables.summary json
      if debug ≠ 0 then terminal.showFindings found
      return .ok ()

end ExtensionLoader.Command
