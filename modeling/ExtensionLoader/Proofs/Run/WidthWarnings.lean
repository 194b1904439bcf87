import ExtensionLoader.Proofs.Run.LineEndings
import ExtensionLoader.Proofs.Spec.Width

/-! # What a limit for the width of lines adds

A limit for the width of lines changes no table and no other finding. It only adds the warnings
about the wide lines of the inputs, input by input in the order in which they are read
(`Tables.Warned`), before what is reported about the enumerants, and before the fault of an input
that cannot be read (`Tables.load_adds_width_warnings`).
-/

namespace ExtensionLoader.Tables

open Workspace

/-- The warnings about some inputs in turn. Those about one input tell its wide lines, each one once
and in order. -/
inductive Warned (limit : Nat) : List (String × String) → Diagnostics → Prop
  | nothing : Warned limit [] []
  | input {name text : String} {wide : List (Nat × Nat)} {later : List (String × String)}
    {others : Diagnostics} (lists : Spec.ListsWide limit text.toList wide)
    (warned : Warned limit later others) :
    Warned limit ((name, text) :: later) (Spec.warningsOf name limit wide ++ others)

/-- An input warns of each of its wide lines. -/
theorem warned_inputWarnings (limit : Nat) (inputs : List (String × String)) :
    Warned limit inputs
      (inputs.flatMap fun (name, text) => inputWarnings (some limit) name text) := by
  induction inputs with
  | nil => exact .nothing
  | cons first later ih =>
    obtain ⟨name, text⟩ := first
    have own : inputWarnings (some limit) name text =
        Spec.warningsOf name limit (Spec.wideLines limit text) :=
      Spec.widthWarnings_eq name text limit
    rw [List.flatMap_cons]
    dsimp only
    rw [own]
    exact .input (Spec.listsWide_wideLines limit text) ih

/-- The three inputs in the order in which they are read, each with its text. -/
def inputsOf (sources : Sources) (texts : SourceTexts) : List (String × String) :=
  [(sources.typeMap, texts.typeMap), (sources.functionSpec, texts.functionSpec),
    (sources.enumSpec, texts.enumSpec)]

theorem warned_allInputWarnings (limit : Nat) (sources : Sources) (texts : SourceTexts) :
    Warned limit (inputsOf sources texts) (allInputWarnings sources (some limit) texts) := by
  have warned := warned_inputWarnings limit (inputsOf sources texts)
  rw [inputsOf, List.flatMap_cons, List.flatMap_cons, List.flatMap_singleton,
    ← List.append_assoc] at warned
  rw [inputsOf, allInputWarnings]
  exact warned

/-- Without a limit nothing is said about the lines of an input. -/
theorem flatMap_inputWarnings_none (inputs : List (String × String)) :
    (inputs.flatMap fun (name, text) => inputWarnings none name text) = [] :=
  List.flatMap_eq_nil_iff.2 fun _ _ => rfl

/-- A limit adds its warnings before the other findings. -/
theorem findingsOf_some (sources : Sources) (limit : Nat) (texts : SourceTexts) :
    findingsOf sources (some limit) texts =
      allInputWarnings sources (some limit) texts ++ findingsOf sources none texts := by
  have silent : allInputWarnings sources none texts = [] := rfl
  rw [findingsOf, findingsOf, silent, List.nil_append]

/-- **A limit for the width of lines only adds warnings.** Take any steady workspace, any limit and
any findings made before. If the three inputs can be read, loading gives the same tables with the
limit as without it. It adds the warnings about the wide lines of the type map, then of the
function spec and then of the enumerant spec, and behind them what it adds without the limit, which
is what resolving the enumerants reports. If an input cannot be read, loading fails in the same way
with and without the limit, and it adds the warnings about the inputs before that one; without the
limit it adds nothing. One of the two is the case. -/
theorem load_adds_width_warnings {σ : Type} {workspace : Workspace (StateM σ)}
    (steady : workspace.Steady) (state : σ) (sources : Sources) (limit : Nat) :
    (∀ texts, Readable workspace state sources texts →
      ∃ tables warnings unsettled, Warned limit (inputsOf sources texts) warnings ∧ ∀ found,
        runOn (load workspace sources none) found state =
          ((.ok tables, found ++ unsettled), state) ∧
        runOn (load workspace sources (some limit)) found state =
          ((.ok tables, found ++ warnings ++ unsettled), state) ∧
        ((EnumTable.parse texts.enumSpec).resolve found).2 = found ++ unsettled) ∧
    (∀ fault read, ReadBefore workspace state sources fault read →
      ∃ warnings, Warned limit read warnings ∧ ∀ found,
        runOn (load workspace sources none) found state = ((.error fault, found), state) ∧
        runOn (load workspace sources (some limit)) found state =
          ((.error fault, found ++ warnings), state)) ∧
    ((∃ texts, Readable workspace state sources texts) ∨
      ∃ fault read, ReadBefore workspace state sources fault read) := by
  refine ⟨fun texts readable => ?_, fun fault read stops => ?_, ?_⟩
  · refine ⟨(ofTexts texts []).1, allInputWarnings sources (some limit) texts,
      findingsOf sources none texts, warned_allInputWarnings limit sources texts, fun found => ?_⟩
    refine ⟨?_, ?_, ?_⟩
    · rw [runOn_load_of_readable steady none readable, ofTexts_eq]
    · rw [runOn_load_of_readable steady (some limit) readable, ofTexts_eq, findingsOf_some,
        List.append_assoc]
    · have silent : allInputWarnings sources none texts = [] := rfl
      rw [EnumTable.resolve_snd, findingsOf, silent, List.nil_append]
  · refine ⟨_, warned_inputWarnings limit read, fun found => ⟨?_, ?_⟩⟩
    · rw [runOn_load_of_readBefore steady none stops, flatMap_inputWarnings_none, List.append_nil]
    · exact runOn_load_of_readBefore steady (some limit) stops found
  · apply (readable_or_firstUnreadable workspace state sources).imp_right
    rintro ⟨fault, first⟩
    exact ⟨fault, first.readBefore⟩

/-- The inputs `mixedTexts` without the enumerant spec. -/
def storeWithoutEnums : MemoryStore where
  resources := .ofList [("gl.spec", mixedTexts.functionSpec), ("gl.tm", mixedTexts.typeMap)]

/-- All three inputs are there, and then the last one is missing. A limit of 11 characters is
passed by a comment with a letter beyond ASCII, and by lines of the other two inputs. -/
theorem load_adds_width_warnings_of_mixed_inputs :
    let sources : Sources := ⟨"enumext.spec", "gl.spec", "gl.tm"⟩
    let read := [("gl.tm", mixedTexts.typeMap), ("gl.spec", mixedTexts.functionSpec)]
    let missing : Fault := .unreadableResource "enumext.spec" .noResource
    let early : Diagnostics :=
      [⟨.warning, "glex::parse::line-width",
          "gl.tm:1: line is 21 characters wide (maximum 11)", none⟩,
        ⟨.warning, "glex::parse::line-width",
          "gl.spec:3: line is 13 characters wide (maximum 11)", none⟩,
        ⟨.warning, "glex::parse::line-width",
          "gl.spec:4: line is 12 characters wide (maximum 11)", none⟩]
    let late : Diagnostics :=
      [⟨.warning, "glex::parse::line-width",
          "enumext.spec:3: line is 12 characters wide (maximum 11)", none⟩]
    (∃ tables unsettled, Warned 11 (inputsOf sources mixedTexts) (early ++ late) ∧ ∀ found,
      runOn (load (storeOf mixedTexts).workspace sources none) found ({} : MemoryStore) =
        ((.ok tables, found ++ unsettled), {}) ∧
      runOn (load (storeOf mixedTexts).workspace sources (some 11)) found ({} : MemoryStore) =
        ((.ok tables, found ++ (early ++ late) ++ unsettled), {}) ∧
      ((EnumTable.parse mixedTexts.enumSpec).resolve found).2 = found ++ unsettled) ∧
    Warned 11 read early ∧ ∀ found,
      runOn (load storeWithoutEnums.workspace sources none) found ({} : MemoryStore) =
        ((.error missing, found), {}) ∧
      runOn (load storeWithoutEnums.workspace sources (some 11)) found ({} : MemoryStore) =
        ((.error missing, found ++ early), {}) := by
  intro sources read missing early late
  obtain ⟨readable, -, -⟩ := load_adds_width_warnings (storeOf mixedTexts).steady_workspace
    ({} : MemoryStore) sources 11
  obtain ⟨-, unreadable, -⟩ := load_adds_width_warnings storeWithoutEnums.steady_workspace
    ({} : MemoryStore) sources 11
  constructor
  · obtain ⟨tables, warnings, unsettled, warned, runs⟩ :=
      readable mixedTexts (readable_storeOf mixedTexts)
    let dangling : Diagnostic := ⟨.warning, "glex::resolve::unresolved",
      "GL_Y in A: no value found via B", some "Defaulting to NULL"⟩
    have plain : (runOn (load (storeOf mixedTexts).workspace sources none) []
        ({} : MemoryStore)).1.2 = [dangling] := by decide +kernel
    have limited : (runOn (load (storeOf mixedTexts).workspace sources (some 11)) []
        ({} : MemoryStore)).1.2 = early ++ late ++ [dangling] := by decide +kernel
    rw [(runs []).1] at plain
    rw [(runs []).2.1] at limited
    obtain rfl : unsettled = [dangling] := plain
    obtain rfl : warnings = early ++ late := List.append_cancel_right limited
    exact ⟨tables, [dangling], warned, runs⟩
  · obtain ⟨warnings, warned, runs⟩ := unreadable _ read (.enumSpec rfl rfl rfl)
    have limited : (runOn (load storeWithoutEnums.workspace sources (some 11)) []
        ({} : MemoryStore)).1.2 = early := by decide +kernel
    rw [(runs []).2] at limited
    obtain rfl : warnings = early := limited
    exact ⟨warned, runs⟩

example : Spec.wideLines 11 mixedTexts.functionSpec = [(3, 13), (4, 12)] := by decide +kernel

end ExtensionLoader.Tables
