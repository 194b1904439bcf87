import ExtensionLoader.Artifact.Kind
import ExtensionLoader.Diagnostic
import ExtensionLoader.Fault
import ExtensionLoader.Scope

/-! # Reports

A report tells what a run did. Each scope that the run covers has one outcome, and the
report lists the scopes by outcome: the files of those that were generated, those that
had nothing to generate, and those that failed.
-/

namespace ExtensionLoader

/-- A file that was written: its API, its name and its kind. -/
structure GeneratedFile where
  /-- The API of the file; none for files of all APIs. -/
  api : Option String
  fileName : String
  kind : ArtifactKind
deriving DecidableEq

/-- What became of one scope. -/
inductive Outcome
  | generated (files : List GeneratedFile)
  /-- There was nothing to generate. -/
  | empty
  /-- One of its files could not be stored. -/
  | failed (fault : Fault)
deriving DecidableEq

namespace Outcome

/-- The files an outcome lists. -/
def files : Outcome → List GeneratedFile
  | generated files => files
  | _ => []

/-- The fault an outcome is. -/
def fault? : Outcome → Option Fault
  | failed fault => some fault
  | _ => none

/-- Whether there was nothing to generate. -/
def isEmpty : Outcome → Bool
  | empty => true
  | _ => false

end Outcome

/-- What a run did. -/
structure Report where
  generated : List GeneratedFile
  /-- The scopes without anything to generate. -/
  empty : List String
  /-- The scopes that failed, each with its fault. -/
  failures : List (String × Fault)
  diagnostics : Diagnostics
deriving DecidableEq

namespace Report

/-- The report on a run that stored the given files for all scopes and came to one
outcome for each scope. -/
def ofOutcomes (shared : List GeneratedFile) (outcomes : List (Scope × Outcome))
    (diagnostics : Diagnostics) : Report where
  generated := shared ++ outcomes.flatMap fun (_, outcome) => outcome.files
  empty := (outcomes.filter fun (_, outcome) => outcome.isEmpty).map fun (scope, _) => scope.words
  failures := outcomes.filterMap fun (scope, outcome) =>
    outcome.fault?.map fun fault => (scope.words, fault)
  diagnostics := diagnostics

/-- Whether no scope failed. -/
def isSuccess (report : Report) : Bool := report.failures.isEmpty

/-- The fault of the whole run, if any scope failed. -/
def fault? (report : Report) : Option Fault :=
  match report.failures with
  | [] => none
  | (scope, first) :: rest => some (.failedScopes (scope :: rest.map Prod.fst) first)

end Report

end ExtensionLoader
