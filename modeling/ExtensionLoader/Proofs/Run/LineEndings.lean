import ExtensionLoader.Proofs.Enumerant.Resolution
import ExtensionLoader.Proofs.Run.Tables
import ExtensionLoader.Proofs.Spec.Congruence
import ExtensionLoader.Proofs.Text.LineEnding

/-! # Line endings of the inputs

What is loaded depends on the lines of the inputs alone. An input that is stored under another line
ending has the same lines, so it gives the same tables and the same findings
(`Tables.load_of_stored_inputs`).
-/

namespace ExtensionLoader

/-- Each of three texts as it is stored under a line ending of its own. -/
def SourceTexts.stored (texts : SourceTexts) (enumSpec functionSpec typeMap : LineEnding) :
    SourceTexts :=
  ⟨enumSpec.apply texts.enumSpec, functionSpec.apply texts.functionSpec,
    typeMap.apply texts.typeMap⟩

namespace Tables

open Workspace

section Stored

variable (texts : SourceTexts) (enumSpec functionSpec typeMap : LineEnding)

/-- The tables of three texts do not depend on how their lines end. -/
theorem ofTexts_stored (found : Diagnostics) :
    ofTexts (texts.stored enumSpec functionSpec typeMap) found = ofTexts texts found := by
  have enums := EnumTable.parse_congr
    (Spec.cleanedLines_congr (enumSpec.lines_apply texts.enumSpec))
  have types := TypeMap.parse_congr
    (Spec.cleanedLines_congr (typeMap.lines_apply texts.typeMap))
  have functionLines := functionSpec.lines_apply texts.functionSpec
  have functions := FunctionTable.parse_congr (Spec.cleanedLines_congr functionLines)
    (FunctionTable.dialectOf_congr functionLines)
  rw [ofTexts, ofTexts, SourceTexts.stored, enums, types, functions]

/-- Line endings change none of an input's warnings. -/
theorem inputWarnings_apply (ending : LineEnding) (limit : Option Nat) (name text : String) :
    inputWarnings limit name (ending.apply text) = inputWarnings limit name text := by
  cases limit with
  | none => rfl
  | some width => exact Spec.widthWarnings_congr (ending.lines_apply text) name width

theorem allInputWarnings_stored (sources : Sources) (limit : Option Nat) :
    allInputWarnings sources limit (texts.stored enumSpec functionSpec typeMap) =
      allInputWarnings sources limit texts := by
  simp only [allInputWarnings, SourceTexts.stored, inputWarnings_apply]

end Stored

/-- What three texts add to the findings: the warnings about their lines, and the references that
are not settled. -/
def findingsOf (sources : Sources) (limit : Option Nat) (texts : SourceTexts) : Diagnostics :=
  allInputWarnings sources limit texts ++
    ((EnumTable.parse texts.enumSpec).unsettled
      (EnumTable.parse texts.enumSpec).borrowings).map EnumTable.findingOf

/-- The tables do not depend on earlier findings, which stay before those that are added. -/
theorem ofTexts_eq (sources : Sources) (limit : Option Nat) (texts : SourceTexts)
    (found : Diagnostics) :
    ofTexts texts (found ++ allInputWarnings sources limit texts) =
      ((ofTexts texts []).1, found ++ findingsOf sources limit texts) := by
  unfold ofTexts findingsOf
  dsimp only
  rw [EnumTable.resolve_fst, EnumTable.resolve_fst, EnumTable.resolve_snd, List.append_assoc]

/-- **Line endings make no difference to what is loaded.** Take any three inputs, and the same
inputs with any of them stored under another line ending, read in workspaces of any kind. Under the
same limit for the width of lines, or none, they give the same tables, and both add the same
findings to those made before. -/
theorem load_of_stored_inputs {σ τ : Type} {workspace : Workspace (StateM σ)}
    {other : Workspace (StateM τ)} (steady : workspace.Steady) (steadyToo : other.Steady)
    {state : σ} {later : τ} {sources : Sources} {texts : SourceTexts}
    (enumSpec functionSpec typeMap : LineEnding)
    (readable : Readable workspace state sources texts)
    (readableToo : Readable other later sources (texts.stored enumSpec functionSpec typeMap))
    (limit : Option Nat) :
    ∃ tables added, ∀ found,
      runOn (load workspace sources limit) found state = ((.ok tables, found ++ added), state) ∧
      runOn (load other sources limit) found later = ((.ok tables, found ++ added), later) := by
  refine ⟨(ofTexts texts []).1, findingsOf sources limit texts, fun found => ⟨?_, ?_⟩⟩
  · rw [runOn_load_of_readable steady limit readable, ofTexts_eq]
  · rw [runOn_load_of_readable steadyToo limit readableToo, allInputWarnings_stored,
      ofTexts_stored, ofTexts_eq]

/-- Inputs with breaks of several kinds: a return that ends no line stands before a line break, a
wide line holds a letter beyond ASCII, and the last line has no break. -/
def mixedTexts : SourceTexts where
  enumSpec := "A enum:\r\n\tX = 1\r\r\n\tuse B Y # é\n\tuse A"
  functionSpec := "# wgl\nCopy(a)\r\n\tcategory ARB\n\treturn Flag\r"
  typeMap := "Flag, *, *, GLboolean\n"

/-- A store that holds the three texts. -/
def storeOf (texts : SourceTexts) : MemoryStore where
  resources := .ofList [("enumext.spec", texts.enumSpec), ("gl.spec", texts.functionSpec),
    ("gl.tm", texts.typeMap)]

theorem readable_storeOf (texts : SourceTexts) :
    Readable (storeOf texts).workspace ({} : MemoryStore) ⟨"enumext.spec", "gl.spec", "gl.tm"⟩
      texts :=
  readable_of_held (storeOf texts) {} texts rfl rfl rfl

/-- Two of the three texts are stored anew, and both of them change. -/
theorem load_of_mixed_inputs :
    let sources : Sources := ⟨"enumext.spec", "gl.spec", "gl.tm"⟩
    let stored := mixedTexts.stored .crlf .crlf .lf
    (stored.enumSpec ≠ mixedTexts.enumSpec ∧ stored.functionSpec ≠ mixedTexts.functionSpec) ∧
    ∃ tables added, ∀ found,
      runOn (load (storeOf mixedTexts).workspace sources (some 11)) found ({} : MemoryStore) =
        ((.ok tables, found ++ added), {}) ∧
      runOn (load (storeOf stored).workspace sources (some 11)) found ({} : MemoryStore) =
        ((.ok tables, found ++ added), {}) := by
  intro sources stored
  refine ⟨⟨by decide +kernel, by decide +kernel⟩, ?_⟩
  exact load_of_stored_inputs (storeOf mixedTexts).steady_workspace
    (storeOf stored).steady_workspace .crlf .crlf .lf (readable_storeOf mixedTexts)
    (readable_storeOf stored) (some 11)

end Tables

end ExtensionLoader
