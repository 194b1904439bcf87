import ExtensionLoader.Artifact.OfScope
import ExtensionLoader.Run.Report
import ExtensionLoader.Run.Tables

/-! # Generating the sources

The tables are loaded first. The shared header is stored unless it is there already;
then the files of each scope are stored in order. A file that cannot be stored ends its
scope and no other one.
-/

namespace ExtensionLoader.Run

variable {m : Type → Type} [Monad m]

/-- Store files in order, up to the first one that cannot be stored. -/
def storeAll (workspace : Workspace m) (scope : Scope) : List Artifact → m (Except Fault Unit)
  | [] => pure (.ok ())
  | artifact :: rest => do
    match ← workspace.write artifact.fileName artifact.contents with
    | .error fault => pure (.error fault)
    | .ok () =>
      workspace.say (.debug s!"Wrote {artifact.fileName} for {scope.words}")
      storeAll workspace scope rest

/-- How a report lists a file of the scope. -/
def record (scope : Scope) (artifact : Artifact) : GeneratedFile :=
  ⟨scope.api?, artifact.fileName, artifact.kind⟩

/-- Render the files of a scope and write them one after the other. -/
def generateScope (workspace : Workspace m) (tables : Tables) (scope : Scope) : m Outcome := do
  let artifacts := Artifact.ofScope tables.enums tables.functions scope
  match ← storeAll workspace scope artifacts with
  | .error fault =>
    workspace.say (.debug s!"Generating {scope.words} failed: {fault.message}")
    pure (.failed fault)
  | .ok () =>
    if artifacts.isEmpty then
      workspace.say (.info s!"Nothing to generate for {scope.words}")
      pure .empty
    else pure (.generated (artifacts.map (record scope)))

/-- Generate scopes in order; a scope that fails stops no other. -/
def generateScopes (workspace : Workspace m) (tables : Tables) :
    List Scope → m (List (Scope × Outcome))
  | [] => pure []
  | scope :: rest => do
    let outcome ← generateScope workspace tables scope
    let later ← generateScopes workspace tables rest
    pure ((scope, outcome) :: later)

/-- Store the shared header, unless a file of its name is there already. -/
def storeGlobals (workspace : Workspace m) : m (Except Fault (List GeneratedFile)) := do
  if ← workspace.present Globals.file then
    workspace.say (.debug s!"{Globals.file} already present, leaving it alone")
    pure (.ok [])
  else
    match ← workspace.write Globals.file Globals.contents with
    | .error fault => pure (.error fault)
    | .ok () => pure (.ok [⟨none, Globals.file, .globals⟩])

/-- A whole run. It ends early only if an input cannot be read or the shared header
cannot be stored. -/
def generate (workspace : Workspace m) (sources : Sources) (apis : Selection)
    (limit : Option Nat) : m (Except Fault Report) := do
  match ← StateT.run (ExceptT.run (Tables.load workspace sources limit)) [] with
  | (.error fault, _) => pure (.error fault)
  | (.ok tables, found) =>
    match ← storeGlobals workspace with
    | .error fault => pure (.error fault)
    | .ok shared =>
      let outcomes ← generateScopes workspace tables apis.scopes
      pure (.ok (Report.ofOutcomes shared outcomes found))

end ExtensionLoader.Run
