import ExtensionLoader.Proofs.Artifact.Names
import ExtensionLoader.Proofs.Run.Generate

/-! # Several runs on one store

Runs with the same inputs store their files one after the other (`Run.run_generateEach`). What
they leave behind depends on the scopes that they cover alone, and not on their order, on the
way the scopes are spread over the runs or on how often a scope is covered
(`Run.runs_of_same_scopes_agree`): each scope has file names of its own, a store refuses the
same of them every time, and only the first run can store the shared header.
-/

namespace ExtensionLoader.Run

open MemoryStore Workspace

/-- One run after the other, with the same inputs. -/
def generateEach {m : Type → Type} [Monad m] (workspace : Workspace m) (sources : Sources)
    (limit : Option Nat) : List Selection → m (List (Except Fault Report))
  | [] => pure []
  | apis :: rest => do
    let result ← generate workspace sources apis limit
    let later ← generateEach workspace sources limit rest
    pure (result :: later)

/-- The scopes that some runs cover, in order. -/
def covered (selections : List Selection) : List Scope := selections.flatMap Selection.scopes

/-- The inputs of a run are held, with these texts. -/
structure Held (inputs : MemoryStore) (sources : Sources) (texts : SourceTexts) : Prop where
  typeMap : inputs.resources.get? sources.typeMap = some texts.typeMap
  functionSpec : inputs.resources.get? sources.functionSpec = some texts.functionSpec
  enumSpec : inputs.resources.get? sources.enumSpec = some texts.enumSpec

/-- The shared header is there already, or it can be stored. -/
def Storable (store : MemoryStore) : Prop :=
  store.artifacts.contains Globals.file = true ∨ Globals.file ∉ store.denied

/-- The tables that all runs on some texts generate from. -/
abbrev tablesOf (sources : Sources) (limit : Option Nat) (texts : SourceTexts) : Tables :=
  (Tables.ofTexts texts (Tables.allInputWarnings sources limit texts)).1

variable {inputs store : MemoryStore} {sources : Sources} {limit : Option Nat}
  {texts : SourceTexts}

theorem held_of_readable (readable : Tables.Readable inputs.workspace store sources texts) :
    Held inputs sources texts :=
  ⟨(readAt_eq_ok_iff inputs store).1 readable.typeMap,
    (readAt_eq_ok_iff inputs store).1 readable.functionSpec,
    (readAt_eq_ok_iff inputs store).1 readable.enumSpec⟩

/-- A run comes to an end only if it can read its inputs and store the shared header. -/
theorem held_and_storable_of_isOk {apis : Selection}
    (ends : ((generate inputs.workspace sources apis limit).run store).1.isOk = true) :
    (∃ texts, Held inputs sources texts) ∧ Storable store := by
  rcases firstFault_or_ready inputs.workspace store sources with
    ⟨fault, first⟩ | ⟨⟨texts, readable⟩, ready⟩
  · rw [run_generate_of_firstFault (steady_workspace inputs) apis limit first] at ends
    cases ends
  · exact ⟨⟨texts, held_of_readable readable⟩, ready.imp id (writeAt_eq_ok_iff inputs store).1⟩

theorem run_generate_of_held (held : Held inputs sources texts) (storable : Storable store)
    (limit : Option Nat) (apis : Selection) :
    ((generate inputs.workspace sources apis limit).run store).2 =
      store.stored (writtenFiles store (tablesOf sources limit texts).files apis.scopes) :=
  congrArg Prod.snd (run_generate inputs store texts apis limit held.typeMap held.functionSpec
    held.enumSpec storable rfl)

/-- Behind a run the shared header is there. -/
theorem present_stored (store : MemoryStore) (files : Scope → List Artifact) (scopes : List Scope) :
    (store.stored (writtenFiles store files scopes)).artifacts.contains Globals.file = true := by
  have found := artifact?_stored store (writtenFiles store files scopes) Globals.file
  rw [MemoryStore.artifact?, MemoryStore.artifact?] at found
  rw [OrderedMap.contains, found, Option.isSome_or]
  cases present : store.artifacts.contains Globals.file with
  | true =>
    rw [OrderedMap.contains] at present
    rw [present, Bool.or_true]
  | false =>
    have shared : sharedFiles store = [⟨.globals, Globals.file, Globals.contents⟩] := by
      rw [sharedFiles_eq, present, if_neg Bool.false_ne_true]
    rw [writtenFiles, shared, List.singleton_append, List.filter_cons_of_pos (by simp),
      List.getLast?_cons]
    rfl

theorem run_generateEach_cons (apis : Selection) (rest : List Selection) :
    (generateEach inputs.workspace sources limit (apis :: rest)).run store =
      (((generate inputs.workspace sources apis limit).run store).1 ::
        ((generateEach inputs.workspace sources limit rest).run
          ((generate inputs.workspace sources apis limit).run store).2).1,
        ((generateEach inputs.workspace sources limit rest).run
          ((generate inputs.workspace sources apis limit).run store).2).2) := rfl

/-- Where the shared header is there, runs store the files of their scopes alone. -/
theorem run_generateEach_of_present (held : Held inputs sources texts)
    (present : store.artifacts.contains Globals.file = true) (selections : List Selection) :
    ((generateEach inputs.workspace sources limit selections).run store).2 =
      store.stored ((covered selections).flatMap fun scope =>
        admitted store.denied ((tablesOf sources limit texts).files scope)) := by
  -- The header stays there, so each later run finds it there as well.
  induction selections generalizing store with
  | nil => rfl
  | cons apis rest ih =>
    have shared : sharedFiles store = [] := if_pos present
    have first := run_generate_of_held held (.inl present) limit apis
    have later := present_stored store (tablesOf sources limit texts).files apis.scopes
    rw [run_generateEach_cons, first, ih later, denied_stored, ← stored_append, writtenFiles,
      shared, List.nil_append, ← List.flatMap_append]
    rfl

/-- **Runs one after the other.** Runs that all come to an end leave the shared header behind,
and of each scope that any of them covers the files before the first refused one. -/
theorem run_generateEach (held : Held inputs sources texts) (storable : Storable store)
    {selections : List Selection} (nonempty : selections ≠ []) :
    ((generateEach inputs.workspace sources limit selections).run store).2 =
      store.stored (writtenFiles store (tablesOf sources limit texts).files
        (covered selections)) := by
  obtain ⟨apis, rest, rfl⟩ := List.exists_cons_of_ne_nil nonempty
  have first := run_generate_of_held held storable limit apis
  have present := present_stored store (tablesOf sources limit texts).files apis.scopes
  rw [run_generateEach_cons, first, run_generateEach_of_present held present, denied_stored,
    ← stored_append, writtenFiles, List.append_assoc, ← List.flatMap_append]
  rfl

theorem mem_ofScope_of_written {denied : List String} {tables : Tables} {scopes : List Scope}
    {artifact : Artifact}
    (member : artifact ∈ scopes.flatMap fun scope => admitted denied (tables.files scope)) :
    ∃ scope, artifact ∈ Artifact.ofScope tables.enums tables.functions scope := by
  obtain ⟨scope, _, own⟩ := List.mem_flatMap.1 member
  exact ⟨scope, List.takeWhile_subset _ own⟩

/-- Which scopes are covered decides about all files; their order and their number do not
matter. -/
theorem artifact?_writtenFiles_congr (tables : Tables) {first second : List Scope}
    (same : ∀ scope, scope ∈ first ↔ scope ∈ second) (name : String) :
    (store.stored (writtenFiles store tables.files first)).artifact? name =
      (store.stored (writtenFiles store tables.files second)).artifact? name := by
  -- Names tell the files of scopes only: the shared header has the name of the header of an
  -- API `globals`, but it is stored before all of them.
  rw [writtenFiles, writtenFiles, stored_append, stored_append]
  refine artifact?_stored_congr _ ?_ (fun artifact => ?_) name
  · intro artifact member other memberAgain sameName
    obtain ⟨scope, own⟩ := mem_ofScope_of_written member
    obtain ⟨otherScope, ownAgain⟩ := mem_ofScope_of_written memberAgain
    exact Artifact.eq_of_fileName own ownAgain sameName
  · simp only [List.mem_flatMap, same]

/-- **Runs that cover the same scopes leave the same files behind**, whatever the order and the
number of the runs and of the scopes. -/
theorem runs_of_same_scopes_agree (inputs store : MemoryStore) (sources : Sources)
    (limit : Option Nat) {first second : List Selection} (nonempty : first ≠ [])
    (nonemptyAgain : second ≠ [])
    (ends : ∀ result ∈ ((generateEach inputs.workspace sources limit first).run store).1,
      result.isOk = true)
    (same : ∀ scope, scope ∈ covered first ↔ scope ∈ covered second) :
    let left := ((generateEach inputs.workspace sources limit first).run store).2
    let right := ((generateEach inputs.workspace sources limit second).run store).2
    (∀ name, left.artifact? name = right.artifact? name) ∧
      left.sortedArtifacts = right.sortedArtifacts := by
  intro left right
  obtain ⟨⟨texts, held⟩, storable⟩ : (∃ texts, Held inputs sources texts) ∧ Storable store := by
    obtain ⟨apis, rest, rfl⟩ := List.exists_cons_of_ne_nil nonempty
    rw [run_generateEach_cons] at ends
    exact held_and_storable_of_isOk (ends _ List.mem_cons_self)
  have files (name : String) : left.artifact? name = right.artifact? name := by
    dsimp only [left, right]
    rw [run_generateEach held storable nonempty, run_generateEach held storable nonemptyAgain]
    exact artifact?_writtenFiles_congr (tablesOf sources limit texts) same name
  exact ⟨files, sortedArtifacts_eq files⟩

/-- Inputs with an API whose header has the name of the shared one. -/
def namesake : MemoryStore where
  resources := .ofList [("enumext.spec", "A enum:\n\tX = 1\nglobals enum:\n\tY = 2\n"),
    ("gl.spec", ""), ("gl.tm", "")]

/-- Runs that cover the same scopes agree, with an API that shares the shared header's file. -/
theorem runs_on_namesake_agree :
    let first := [Selection.only ["globals", "A"], .all]
    let second := [Selection.all, .only [], .only ["A", "A"], .only ["globals"]]
    let sources : Sources := ⟨"enumext.spec", "gl.spec", "gl.tm"⟩
    (∀ result ∈ ((generateEach namesake.workspace sources none first).run refusingHeader).1,
      result.isOk = true) ∧
    (∀ scope, scope ∈ covered first ↔ scope ∈ covered second) ∧
    ((generateEach namesake.workspace sources none first).run refusingHeader).2.sortedArtifacts =
      ((generateEach namesake.workspace sources none second).run
        refusingHeader).2.sortedArtifacts := by
  intro first second sources
  have ends : ∀ result ∈
      ((generateEach namesake.workspace sources none first).run refusingHeader).1,
      result.isOk = true := by decide
  have same : ∀ scope, scope ∈ covered first ↔ scope ∈ covered second := by
    intro scope
    simp only [covered, first, second, Selection.scopes, List.flatMap_cons, List.flatMap_nil,
      List.map_cons, List.map_nil, List.mem_append, List.mem_cons, List.not_mem_nil]
    grind
  exact ⟨ends, same, (runs_of_same_scopes_agree namesake refusingHeader sources none
    (List.cons_ne_nil _ _) (List.cons_ne_nil _ _) ends same).2⟩

end ExtensionLoader.Run
