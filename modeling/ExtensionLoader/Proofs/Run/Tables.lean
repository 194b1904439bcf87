import ExtensionLoader.Proofs.MemoryStore
import ExtensionLoader.Run.Tables

/-! # Loading tables

Loading never changes a steady workspace. If all three inputs can be read, loading gives the tables
of their texts; otherwise it fails with the fault of the first one that cannot be read.
-/

namespace ExtensionLoader.Tables

open Workspace

variable {σ : Type} {workspace : Workspace (StateM σ)} {state : σ}

/-- A step of loading, run on findings made before and on a state. -/
abbrev runOn {α : Type} (step : ExceptT Fault (StateT Diagnostics (StateM σ)) α)
    (found : Diagnostics) (state : σ) : (Except Fault α × Diagnostics) × σ :=
  (StateT.run (ExceptT.run step) found).run state

/-- A step that succeeds hands its result, findings and state on. -/
theorem runOn_bind_of_ok {α β : Type}
    {first : ExceptT Fault (StateT Diagnostics (StateM σ)) α}
    {next : α → ExceptT Fault (StateT Diagnostics (StateM σ)) β}
    {found after : Diagnostics} {value : α}
    (succeeds : runOn first found state = ((.ok value, after), state)) :
    runOn (first >>= next) found state = runOn (next value) after state := by
  unfold runOn at succeeds ⊢
  rw [ExceptT.run_bind, StateT.run_bind, run_bind, succeeds]

/-- A step that fails ends what follows it. -/
theorem runOn_bind_of_error {α β : Type}
    {first : ExceptT Fault (StateT Diagnostics (StateM σ)) α}
    (next : α → ExceptT Fault (StateT Diagnostics (StateM σ)) β)
    {found after : Diagnostics} {fault : Fault}
    (fails : runOn first found state = ((.error fault, after), state)) :
    runOn (first >>= next) found state = ((.error fault, after), state) := by
  unfold runOn at fails ⊢
  rw [ExceptT.run_bind, StateT.run_bind, run_bind, fails]
  rfl

theorem runOn_lift {α : Type} (step : StateT Diagnostics (StateM σ) α)
    (found : Diagnostics) (state : σ) :
    runOn (ExceptT.lift step) found state =
      ((.ok ((step.run found).run state).1.1, ((step.run found).run state).1.2),
        ((step.run found).run state).2) := rfl

/-- The warnings about the lines of an input, if their width is limited. -/
def inputWarnings (limit : Option Nat) (name text : String) : Diagnostics :=
  match limit with
  | some width => Spec.widthWarnings name text width
  | none => []

/-- The warnings about the lines of all three inputs, in the order in which they are read. -/
def allInputWarnings (sources : Sources) (limit : Option Nat) (texts : SourceTexts) :
    Diagnostics :=
  inputWarnings limit sources.typeMap texts.typeMap ++
    inputWarnings limit sources.functionSpec texts.functionSpec ++
    inputWarnings limit sources.enumSpec texts.enumSpec

/-- The three inputs can be read, with these texts. -/
structure Readable (workspace : Workspace (StateM σ)) (state : σ) (sources : Sources)
    (texts : SourceTexts) : Prop where
  typeMap : workspace.readAt state sources.typeMap = .ok texts.typeMap
  functionSpec : workspace.readAt state sources.functionSpec = .ok texts.functionSpec
  enumSpec : workspace.readAt state sources.enumSpec = .ok texts.enumSpec

/-- The fault of the first of the three inputs that cannot be read. -/
inductive FirstUnreadable (workspace : Workspace (StateM σ)) (state : σ) (sources : Sources) :
    Fault → Prop
  | typeMap {fault : Fault} (unreadable : workspace.readAt state sources.typeMap = .error fault) :
    FirstUnreadable workspace state sources fault
  | functionSpec {typeMap : String} {fault : Fault}
    (before : workspace.readAt state sources.typeMap = .ok typeMap)
    (unreadable : workspace.readAt state sources.functionSpec = .error fault) :
    FirstUnreadable workspace state sources fault
  | enumSpec {typeMap functionSpec : String} {fault : Fault}
    (before : workspace.readAt state sources.typeMap = .ok typeMap)
    (next : workspace.readAt state sources.functionSpec = .ok functionSpec)
    (unreadable : workspace.readAt state sources.enumSpec = .error fault) :
    FirstUnreadable workspace state sources fault

/-- The fault of the first of the three inputs that cannot be read, and the inputs before it, each
with its text. -/
inductive ReadBefore (workspace : Workspace (StateM σ)) (state : σ) (sources : Sources) :
    Fault → List (String × String) → Prop
  | typeMap {fault : Fault} (unreadable : workspace.readAt state sources.typeMap = .error fault) :
    ReadBefore workspace state sources fault []
  | functionSpec {typeMap : String} {fault : Fault}
    (before : workspace.readAt state sources.typeMap = .ok typeMap)
    (unreadable : workspace.readAt state sources.functionSpec = .error fault) :
    ReadBefore workspace state sources fault [(sources.typeMap, typeMap)]
  | enumSpec {typeMap functionSpec : String} {fault : Fault}
    (before : workspace.readAt state sources.typeMap = .ok typeMap)
    (next : workspace.readAt state sources.functionSpec = .ok functionSpec)
    (unreadable : workspace.readAt state sources.enumSpec = .error fault) :
    ReadBefore workspace state sources fault
      [(sources.typeMap, typeMap), (sources.functionSpec, functionSpec)]

theorem FirstUnreadable.readBefore {sources : Sources} {fault : Fault}
    (first : FirstUnreadable workspace state sources fault) :
    ∃ read, ReadBefore workspace state sources fault read := by
  cases first with
  | typeMap unreadable => exact ⟨_, .typeMap unreadable⟩
  | functionSpec before unreadable => exact ⟨_, .functionSpec before unreadable⟩
  | enumSpec before next unreadable => exact ⟨_, .enumSpec before next unreadable⟩

/-- Either all inputs can be read or there is a first that cannot. -/
theorem readable_or_firstUnreadable (workspace : Workspace (StateM σ)) (state : σ)
    (sources : Sources) : (∃ texts, Readable workspace state sources texts) ∨
      ∃ fault, FirstUnreadable workspace state sources fault := by
  cases typeMap : workspace.readAt state sources.typeMap with
  | error fault => exact .inr ⟨fault, .typeMap typeMap⟩
  | ok typeText =>
    cases functionSpec : workspace.readAt state sources.functionSpec with
    | error fault => exact .inr ⟨fault, .functionSpec typeMap functionSpec⟩
    | ok functionText =>
      cases enumSpec : workspace.readAt state sources.enumSpec with
      | error fault => exact .inr ⟨fault, .enumSpec typeMap functionSpec enumSpec⟩
      | ok enumText => exact .inl ⟨⟨enumText, functionText, typeText⟩,
          typeMap, functionSpec, enumSpec⟩

section

variable (steady : workspace.Steady)
include steady

theorem runOn_say (messages : List LogMessage) (found : Diagnostics) (state : σ) :
    runOn (ExceptT.lift (StateT.lift (workspace.sayAll messages))) found state =
      ((.ok (), found), state) := by
  rw [runOn_lift, StateT.run_lift, run_bind, steady.run_sayAll]
  rfl

/-- An input that can be read gives its text and its warnings. -/
theorem runOn_readInput_of_ok {name text : String} (limit : Option Nat)
    (read : workspace.readAt state name = .ok text) (found : Diagnostics) :
    runOn (readInput workspace limit name) found state =
      ((.ok text, found ++ inputWarnings limit name text), state) := by
  have given : runOn (ExceptT.mk (StateT.lift (workspace.read name))) found state =
      ((.ok text, found), state) := by
    unfold runOn
    rw [ExceptT.run_mk, StateT.run_lift, run_bind, steady.run_read, read]
    rfl
  have said := runOn_say steady
    ((inputWarnings limit name text).map fun warning => .debug warning.message) found state
  unfold readInput
  rw [runOn_bind_of_ok given]
  dsimp only
  change runOn (ExceptT.lift (StateT.lift (workspace.sayAll
      ((inputWarnings limit name text).map fun warning => .debug warning.message))) >>= _) _ _ = _
  rw [runOn_bind_of_ok said]
  rfl

/-- An input that cannot be read ends the loading. -/
theorem runOn_readInput_of_error {name : String} {fault : Fault} (limit : Option Nat)
    (unreadable : workspace.readAt state name = .error fault) (found : Diagnostics) :
    runOn (readInput workspace limit name) found state = ((.error fault, found), state) := by
  have given : runOn (ExceptT.mk (StateT.lift (workspace.read name))) found state =
      ((.error fault, found), state) := by
    unfold runOn
    rw [ExceptT.run_mk, StateT.run_lift, run_bind, steady.run_read, unreadable]
    rfl
  exact runOn_bind_of_error _ given

/-- Readable inputs load as the tables of their texts. -/
theorem runOn_load_of_readable {sources : Sources} {texts : SourceTexts} (limit : Option Nat)
    (readable : Readable workspace state sources texts) (found : Diagnostics) :
    runOn (load workspace sources limit) found state =
      ((.ok (ofTexts texts (found ++ allInputWarnings sources limit texts)).1,
        (ofTexts texts (found ++ allInputWarnings sources limit texts)).2), state) := by
  unfold load
  rw [runOn_bind_of_ok (runOn_readInput_of_ok steady limit readable.typeMap found),
    runOn_bind_of_ok (runOn_readInput_of_ok steady limit readable.functionSpec _),
    runOn_bind_of_ok (runOn_readInput_of_ok steady limit readable.enumSpec _)]
  dsimp only
  rw [runOn_bind_of_ok (runOn_say steady (remarks sources texts) _ state)]
  simp only [allInputWarnings, ← List.append_assoc]
  rfl

/-- Loading that fails adds the warnings about the inputs that were read before. -/
theorem runOn_load_of_readBefore {sources : Sources} {fault : Fault}
    {read : List (String × String)} (limit : Option Nat)
    (stops : ReadBefore workspace state sources fault read) (found : Diagnostics) :
    runOn (load workspace sources limit) found state =
      ((.error fault, found ++ read.flatMap fun (name, text) => inputWarnings limit name text),
        state) := by
  unfold load
  cases stops with
  | typeMap unreadable =>
    rw [List.flatMap_nil, List.append_nil]
    exact runOn_bind_of_error _ (runOn_readInput_of_error steady limit unreadable found)
  | functionSpec before unreadable =>
    rw [runOn_bind_of_ok (runOn_readInput_of_ok steady limit before found), List.flatMap_singleton]
    exact runOn_bind_of_error _ (runOn_readInput_of_error steady limit unreadable _)
  | enumSpec before next unreadable =>
    rw [runOn_bind_of_ok (runOn_readInput_of_ok steady limit before found),
      runOn_bind_of_ok (runOn_readInput_of_ok steady limit next _), List.flatMap_cons,
      List.flatMap_singleton, ← List.append_assoc]
    exact runOn_bind_of_error _ (runOn_readInput_of_error steady limit unreadable _)

theorem runOn_load_of_unreadable {sources : Sources} {fault : Fault} (limit : Option Nat)
    (first : FirstUnreadable workspace state sources fault) (found : Diagnostics) :
    ∃ after, runOn (load workspace sources limit) found state = ((.error fault, after), state) := by
  obtain ⟨read, stops⟩ := first.readBefore
  exact ⟨_, runOn_load_of_readBefore steady limit stops found⟩

end

section

open MemoryStore

variable (inputs store : MemoryStore)

/-- Held inputs can be read. -/
theorem readable_of_held {sources : Sources} (texts : SourceTexts)
    (typeMap : inputs.resources.get? sources.typeMap = some texts.typeMap)
    (functionSpec : inputs.resources.get? sources.functionSpec = some texts.functionSpec)
    (enumSpec : inputs.resources.get? sources.enumSpec = some texts.enumSpec) :
    Readable inputs.workspace store sources texts where
  typeMap := (readAt_eq_ok_iff inputs store).2 typeMap
  functionSpec := (readAt_eq_ok_iff inputs store).2 functionSpec
  enumSpec := (readAt_eq_ok_iff inputs store).2 enumSpec

/-- Held inputs load as the tables of their texts. -/
theorem runOn_load_of_held {sources : Sources} (texts : SourceTexts) (limit : Option Nat)
    (typeMap : inputs.resources.get? sources.typeMap = some texts.typeMap)
    (functionSpec : inputs.resources.get? sources.functionSpec = some texts.functionSpec)
    (enumSpec : inputs.resources.get? sources.enumSpec = some texts.enumSpec)
    (found : Diagnostics) :
    runOn (load inputs.workspace sources limit) found store =
      ((.ok (ofTexts texts (found ++ allInputWarnings sources limit texts)).1,
        (ofTexts texts (found ++ allInputWarnings sources limit texts)).2), store) :=
  runOn_load_of_readable (steady_workspace inputs) limit
    (readable_of_held inputs store texts typeMap functionSpec enumSpec) found

end

end ExtensionLoader.Tables
