import ExtensionLoader.Text.Column

/-! # Diagnostics

Questionable input never stops a run: it is recorded as a diagnostic, and the run
goes on. A warning marks input that can be worked around, an error a reference that
is not followed. Diagnostics are kept in the order in which they were found.
-/

namespace ExtensionLoader

/-- How grave a finding is. -/
inductive Severity
  | warning
  | error
deriving DecidableEq

/-- The word a finding's severity is shown with. -/
def Severity.word : Severity → String
  | warning => "warning"
  | error => "error"

/-- A finding about the inputs: how grave it is, its code, what is wrong and what to do about it. -/
structure Diagnostic where
  severity : Severity
  /-- A code such as `glex::resolve::chained`. -/
  code : String
  message : String
  /-- What to do about it. -/
  help : Option String := none
deriving DecidableEq

/-- A warning without help. -/
def Diagnostic.warning (code message : String) : Diagnostic := ⟨.warning, code, message, none⟩

/-- An error without help. -/
def Diagnostic.error (code message : String) : Diagnostic := ⟨.error, code, message, none⟩

/-- The same finding with a help text in place of any other. -/
def Diagnostic.withHelp (finding : Diagnostic) (help : String) : Diagnostic :=
  { finding with help := some help }

/-- The findings of a run, in the order they were made. -/
abbrev Diagnostics := List Diagnostic

namespace Diagnostics

/-- How many findings have the severity `severity`. -/
def count (found : Diagnostics) (severity : Severity) : Nat :=
  found.countP fun finding => finding.severity = severity

/-- The findings with the code `code`, in order. -/
def withCode (found : Diagnostics) (code : String) : Diagnostics :=
  found.filter fun finding => finding.code = code

/-- The counts of errors and warnings, such as `2 errors, 1 warning`, without those
that are zero; nothing when nothing was found. -/
def summary (found : Diagnostics) : Option String :=
  let part (severity : Severity) (one many : String) : List String :=
    if found.count severity = 0 then [] else [Text.counted (found.count severity) one many]
  match part .error "error" "errors" ++ part .warning "warning" "warnings" with
  | [] => none
  | parts => some (String.intercalate ", " parts)

end Diagnostics

end ExtensionLoader
