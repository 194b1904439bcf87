import ExtensionLoader.Proofs.Run.Fatal

/-! # What a run leaves behind

A run on a store in memory that can read its inputs and store the shared header comes to
its end. The store then holds the shared header and, of each scope, the files before the
first one that it refuses; no other file changes. The report accounts for every scope
once (`Run.Accounts`): as empty, as failed with the fault of that first file, or as
generated with all of its files.
-/

namespace ExtensionLoader

/-- The files of a scope, in the order in which they are stored. -/
def Tables.files (tables : Tables) (scope : Scope) : List Artifact :=
  Artifact.ofScope tables.enums tables.functions scope

namespace Run

open MemoryStore Workspace

variable (inputs store : MemoryStore)

/-- Storing files stops at the first one that the store refuses. -/
theorem run_storeAll (scope : Scope) (artifacts : List Artifact) :
    (storeAll inputs.workspace scope artifacts).run store =
      (match refused? store.denied artifacts with
        | some artifact => .error (.deniedWrite artifact.fileName)
        | none => .ok (),
        store.stored (admitted store.denied artifacts)) := by
  induction artifacts generalizing store with
  | nil => rfl
  | cons artifact rest ih =>
    rw [storeAll, run_bind]
    by_cases denied : artifact.fileName ∈ store.denied
    · have stops : refused? store.denied (artifact :: rest) = some artifact := by
        simp [refused?, denied]
      have nothing : admitted store.denied (artifact :: rest) = [] := by
        simp [admitted, denied]
      rw [run_write_of_denied inputs store artifact denied, stops, nothing]
      rfl
    · have continues : refused? store.denied (artifact :: rest) = refused? store.denied rest := by
        simp [refused?, denied]
      have first : admitted store.denied (artifact :: rest) =
          [artifact] ++ admitted store.denied rest := by
        simp [admitted, denied]
      have later := ih (store.stored [artifact])
      rw [denied_stored, ← stored_append] at later
      rw [run_write_of_admitted inputs store artifact denied, continues, first, ← later]
      rfl

/-- What becomes of a scope with some files. -/
def outcomeOf (denied : List String) (scope : Scope) (files : List Artifact) : Outcome :=
  match refused? denied files with
  | some artifact => .failed (.deniedWrite artifact.fileName)
  | none => if files.isEmpty then .empty else .generated (files.map (record scope))

/-- Generating a scope stores its files up to the first that is refused. -/
theorem run_generateScope (tables : Tables) (scope : Scope) :
    (generateScope inputs.workspace tables scope).run store =
      (outcomeOf store.denied scope (tables.files scope),
        store.stored (admitted store.denied (tables.files scope))) := by
  unfold generateScope outcomeOf Tables.files
  rw [run_bind, run_storeAll]
  cases refusal : refused? store.denied
      (Artifact.ofScope tables.enums tables.functions scope) with
  | some artifact => rfl
  | none =>
    by_cases nothing : (Artifact.ofScope tables.enums tables.functions scope).isEmpty = true
    · simp only [nothing, ↓reduceIte]
      rfl
    · simp only [nothing, Bool.false_eq_true, ↓reduceIte]
      rfl

/-- The scopes are generated one after the other, and none of them keeps a later one from
being generated. -/
theorem run_generateScopes (tables : Tables) (scopes : List Scope) :
    (generateScopes inputs.workspace tables scopes).run store =
      (scopes.map fun scope => (scope, outcomeOf store.denied scope (tables.files scope)),
        store.stored (scopes.flatMap fun scope => admitted store.denied (tables.files scope))) := by
  induction scopes generalizing store with
  | nil => rfl
  | cons scope rest ih =>
    have later := ih (store.stored (admitted store.denied (tables.files scope)))
    rw [denied_stored, ← stored_append] at later
    rw [generateScopes, run_bind, run_generateScope, run_bind, later]
    rfl

/-- The shared header as a file, unless the store has a file of its name. -/
def sharedFiles : List Artifact :=
  if store.artifacts.contains "GLEX_globals.h" then []
  else [⟨.globals, "GLEX_globals.h", Globals.contents⟩]

/-- The name of the shared header is the one that a run looks for. -/
theorem sharedFiles_eq : sharedFiles store =
    if store.artifacts.contains Globals.file then []
    else [⟨.globals, Globals.file, Globals.contents⟩] := rfl

/-- Storing the shared header writes it where it is missing. -/
theorem run_storeGlobals
    (storable : store.artifacts.contains Globals.file = true ∨ Globals.file ∉ store.denied) :
    (storeGlobals inputs.workspace).run store =
      (.ok ((sharedFiles store).map fun artifact => ⟨none, artifact.fileName, artifact.kind⟩),
        store.stored (sharedFiles store)) := by
  unfold storeGlobals
  rw [sharedFiles_eq, run_bind, run_present]
  cases present : store.artifacts.contains Globals.file with
  | true => rfl
  | false =>
    have admitted : Globals.file ∉ store.denied := by simpa [present] using storable
    have written := run_write_of_admitted inputs store
      ⟨.globals, Globals.file, Globals.contents⟩ admitted
    dsimp only at written
    simp only [Bool.false_eq_true, ↓reduceIte]
    rw [run_bind, written]
    rfl

/-- Everything that a run stores, in order. -/
def writtenFiles (files : Scope → List Artifact) (scopes : List Scope) : List Artifact :=
  sharedFiles store ++ scopes.flatMap fun scope => admitted store.denied (files scope)

/-- What a run of readable inputs reports and stores. -/
theorem run_generate {sources : Sources} (texts : SourceTexts) (apis : Selection)
    (limit : Option Nat)
    (typeMap : inputs.resources.get? sources.typeMap = some texts.typeMap)
    (functionSpec : inputs.resources.get? sources.functionSpec = some texts.functionSpec)
    (enumSpec : inputs.resources.get? sources.enumSpec = some texts.enumSpec)
    (storable : store.artifacts.contains Globals.file = true ∨ Globals.file ∉ store.denied)
    {tables : Tables} {found : Diagnostics}
    (loaded : Tables.ofTexts texts (Tables.allInputWarnings sources limit texts) =
      (tables, found)) :
    (generate inputs.workspace sources apis limit).run store =
      (.ok (Report.ofOutcomes
        ((sharedFiles store).map fun artifact => ⟨none, artifact.fileName, artifact.kind⟩)
        (apis.scopes.map fun scope =>
          (scope, outcomeOf store.denied scope (tables.files scope))) found),
        store.stored (writtenFiles store tables.files apis.scopes)) := by
  have readable := Tables.readable_of_held inputs store texts typeMap functionSpec enumSpec
  have scopes := run_generateScopes inputs (store.stored (sharedFiles store)) tables apis.scopes
  rw [denied_stored, ← stored_append] at scopes
  rw [run_generate_of_readable (steady_workspace inputs) apis limit readable,
    run_storeGlobals inputs store storable]
  dsimp only
  rw [loaded, scopes]
  rfl

/-- A scope that a run covers, as its report speaks of it. -/
structure Covered where
  scope : Scope
  /-- The API that the files of the scope are reported for. -/
  api : Option String
  /-- What the scope is called where it has no files or fails. -/
  title : String
deriving DecidableEq

/-- What a selection covers, in order: everything at once, or each named API on its own, as
often as it is named. -/
def coverage : Selection → List Covered
  | .all => [⟨.all, none, "all APIs"⟩]
  | .only names => names.map fun name => ⟨.api name, some name, name⟩

theorem map_scope_coverage (apis : Selection) :
    (coverage apis).map Covered.scope = apis.scopes := by
  cases apis with
  | all => rfl
  | only names =>
    rw [coverage, List.map_map]
    rfl

/-- Messages and records name a covered scope as the report is said to do. -/
theorem words_of_mem_coverage {apis : Selection} {entry : Covered}
    (member : entry ∈ coverage apis) :
    entry.scope.words = entry.title ∧ entry.scope.api? = entry.api := by
  cases apis with
  | all =>
    obtain rfl := List.mem_singleton.1 member
    exact ⟨rfl, rfl⟩
  | only names =>
    obtain ⟨name, -, rfl⟩ := List.mem_map.1 member
    exact ⟨rfl, rfl⟩

/-- A scope has files and none of them is refused. -/
def isComplete (denied : List String) (files : List Artifact) : Bool :=
  !files.isEmpty && (refused? denied files).isNone

/-- How a report accounts for what a run covers, given the files of each scope. -/
structure Accounts (denied : List String) (files : Scope → List Artifact)
    (entries : List Covered) (shared : List Artifact) (found : Diagnostics)
    (report : Report) : Prop where
  /-- The scopes without any file. -/
  empty : report.empty =
    (entries.filter fun entry => (files entry.scope).isEmpty).map Covered.title
  /-- The scopes with a refused file, each with the fault of its first one. -/
  failures : report.failures = entries.filterMap fun entry =>
    (refused? denied (files entry.scope)).map fun artifact =>
      (entry.title, .deniedWrite artifact.fileName)
  /-- The shared header if it was stored, and all files of all other scopes. -/
  generated : report.generated =
    (shared.map fun artifact => ⟨none, artifact.fileName, artifact.kind⟩) ++
      (entries.filter fun entry => isComplete denied (files entry.scope)).flatMap fun entry =>
        (files entry.scope).map fun artifact =>
          ⟨entry.api, artifact.fileName, artifact.kind⟩
  /-- No scope is left out and none is counted twice. -/
  once : report.empty.length + report.failures.length +
    (entries.filter fun entry => isComplete denied (files entry.scope)).length = entries.length
  diagnostics : report.diagnostics = found
  /-- The run as a whole fails exactly if a scope has a refused file. -/
  fails : report.fault?.isSome = true ↔
    ∃ entry ∈ entries, ∃ artifact ∈ files entry.scope, artifact.fileName ∈ denied
  /-- The fault of the whole run names the failed scopes and gives the first fault. -/
  fault : report.fault? = report.failures.head?.map fun first =>
    .failedScopes (report.failures.map Prod.fst) first.2

variable (denied : List String) (scope : Scope) (files : List Artifact)

theorem isEmpty_outcomeOf : (outcomeOf denied scope files).isEmpty = files.isEmpty := by
  unfold outcomeOf
  cases files with
  | nil => rfl
  | cons artifact rest => cases refused? denied (artifact :: rest) <;> rfl

theorem fault?_outcomeOf : (outcomeOf denied scope files).fault? =
    (refused? denied files).map fun artifact => .deniedWrite artifact.fileName := by
  unfold outcomeOf
  cases refused? denied files with
  | some artifact => rfl
  | none => cases files <;> rfl

theorem files_outcomeOf : (outcomeOf denied scope files).files =
    if isComplete denied files then files.map (record scope) else [] := by
  unfold outcomeOf isComplete
  cases refused? denied files with
  | some artifact => simp [Outcome.files]
  | none => cases files <;> rfl

/-- Each scope is of exactly one of three kinds. -/
theorem kinds_of_scope : (if files.isEmpty then 1 else 0) +
    (if (refused? denied files).isSome then 1 else 0) +
    (if isComplete denied files then 1 else 0) = 1 := by
  unfold isComplete
  cases files with
  | nil => rfl
  | cons artifact rest => cases refused? denied (artifact :: rest) <;> rfl

/-- The report that accounts for the outcomes of the scopes. -/
def reportOf (denied : List String) (files : Scope → List Artifact) (scopes : List Scope)
    (shared : List Artifact) (found : Diagnostics) : Report :=
  Report.ofOutcomes (shared.map fun artifact => ⟨none, artifact.fileName, artifact.kind⟩)
    (scopes.map fun scope => (scope, outcomeOf denied scope (files scope))) found

section Reports

variable (denied : List String) (files : Scope → List Artifact) (scopes : List Scope)
  (shared : List Artifact) (found : Diagnostics)

theorem empty_reportOf : (reportOf denied files scopes shared found).empty =
    (scopes.filter fun scope => (files scope).isEmpty).map Scope.words := by
  simp [reportOf, Report.ofOutcomes, List.filter_map, Function.comp_def, isEmpty_outcomeOf]

theorem failures_reportOf : (reportOf denied files scopes shared found).failures =
    scopes.filterMap fun scope => (refused? denied (files scope)).map fun artifact =>
      (scope.words, .deniedWrite artifact.fileName) := by
  simp [reportOf, Report.ofOutcomes, List.filterMap_map, Function.comp_def, fault?_outcomeOf]

/-- The shared header and the files of complete scopes are reported as generated. -/
theorem generated_reportOf : (reportOf denied files scopes shared found).generated =
    (shared.map fun artifact => ⟨none, artifact.fileName, artifact.kind⟩) ++
      (scopes.filter fun scope => isComplete denied (files scope)).flatMap fun scope =>
        (files scope).map (record scope) := by
  simp only [reportOf, Report.ofOutcomes, List.flatMap_map, files_outcomeOf]
  congr 1
  induction scopes with
  | nil => rfl
  | cons scope rest ih =>
    rw [List.flatMap_cons, ih]
    by_cases complete : isComplete denied (files scope) = true <;> simp [complete]

/-- Every scope is reported once. -/
theorem once_reportOf :
    (reportOf denied files scopes shared found).empty.length +
      (reportOf denied files scopes shared found).failures.length +
      (scopes.filter fun scope => isComplete denied (files scope)).length = scopes.length := by
  rw [empty_reportOf, failures_reportOf, List.length_map, List.length_filterMap_eq_countP,
    ← List.countP_eq_length_filter, ← List.countP_eq_length_filter]
  induction scopes with
  | nil => rfl
  | cons scope rest ih =>
    have kinds := kinds_of_scope denied (files scope)
    simp only [List.countP_cons, Option.isSome_map, List.length_cons] at ih ⊢
    omega

/-- The run as a whole has the fault that names the failed scopes and explains the first. -/
theorem fault?_eq_map (report : Report) :
    report.fault? = report.failures.head?.map fun first =>
      .failedScopes (report.failures.map Prod.fst) first.2 := by
  unfold Report.fault?
  cases report.failures <;> rfl

theorem isSome_fault?_iff (report : Report) :
    report.fault?.isSome = true ↔ report.failures ≠ [] := by
  unfold Report.fault?
  cases report.failures <;> simp

/-- A run fails exactly when a file of a scope is denied. -/
theorem fails_reportOf : (reportOf denied files scopes shared found).fault?.isSome = true ↔
    ∃ scope ∈ scopes, ∃ artifact ∈ files scope, artifact.fileName ∈ denied := by
  rw [isSome_fault?_iff, failures_reportOf]
  constructor
  · intro failed
    obtain ⟨failure, member⟩ := List.exists_mem_of_ne_nil _ failed
    obtain ⟨scope, covered, made⟩ := List.mem_filterMap.1 member
    obtain ⟨artifact, refused, _⟩ := Option.map_eq_some_iff.1 made
    unfold refused? at refused
    have denies := List.find?_some refused
    exact ⟨scope, covered, artifact, List.mem_of_find?_eq_some refused, by simpa using denies⟩
  · rintro ⟨scope, covered, artifact, member, refused⟩ none
    have admissible := List.filterMap_eq_nil_iff.1 none scope covered
    rw [Option.map_eq_none_iff, refused?_eq_none_iff] at admissible
    exact admissible artifact member refused

end Reports

/-- The report on the scopes of a selection accounts for what the selection covers. -/
theorem accounts_reportOf (denied : List String) (files : Scope → List Artifact)
    (apis : Selection) (shared : List Artifact) (found : Diagnostics) :
    Accounts denied files (coverage apis) shared found
      (reportOf denied files apis.scopes shared found) where
  empty := by
    rw [empty_reportOf, ← map_scope_coverage, List.filter_map, List.map_map]
    exact List.map_congr_left fun entry kept =>
      (words_of_mem_coverage (List.mem_of_mem_filter kept)).1
  failures := by
    rw [failures_reportOf, ← map_scope_coverage, List.filterMap_map]
    refine List.filterMap_congr fun entry member => ?_
    rw [Function.comp_apply, (words_of_mem_coverage member).1]
  generated := by
    rw [generated_reportOf, ← map_scope_coverage, List.filter_map, List.flatMap_map]
    congr 1
    refine List.flatMap_congr fun entry kept => ?_
    have api := (words_of_mem_coverage (List.mem_of_mem_filter kept)).2
    exact List.map_congr_left fun artifact _ => by rw [record, api]
  once := by
    have counted := once_reportOf denied files ((coverage apis).map Covered.scope) shared found
    rw [List.filter_map, List.length_map, List.length_map, map_scope_coverage] at counted
    exact counted
  diagnostics := rfl
  fails := by
    simp only [fails_reportOf, ← map_scope_coverage, List.mem_map, exists_exists_and_eq_and]
  fault := fault?_eq_map _

/-- Files of other names than those that a run stores stay as they are. -/
theorem artifact?_stored_of_not_written (artifacts : List Artifact) (name : String)
    (unwritten : ∀ artifact ∈ artifacts, artifact.fileName ≠ name) :
    (store.stored artifacts).artifact? name = store.artifact? name := by
  have none : (artifacts.filter fun artifact => artifact.fileName = name) = [] := by
    rw [List.filter_eq_nil_iff]
    exact fun artifact member same => unwritten artifact member (of_decide_eq_true same)
  rw [artifact?_stored, none]
  rfl

/-- **Every scope is accounted for.** A run whose inputs are held and whose shared header is
there or can be stored comes to its end. It stores the shared header unless it is there, and
of each scope in turn the files before the first refused one; it changes no other file, and
its report accounts for each scope once. -/
theorem generate_accounts_for_every_scope (sources : Sources) (apis : Selection)
    (limit : Option Nat)
    (typeMap : (inputs.resources.get? sources.typeMap).isSome = true)
    (functionSpec : (inputs.resources.get? sources.functionSpec).isSome = true)
    (enumSpec : (inputs.resources.get? sources.enumSpec).isSome = true)
    (storable : store.artifacts.contains "GLEX_globals.h" = true ∨
      "GLEX_globals.h" ∉ store.denied) :
    ∃ tables found report,
      (StateT.run (ExceptT.run (Tables.load inputs.workspace sources limit)) []).run store =
        ((.ok tables, found), store) ∧
      (generate inputs.workspace sources apis limit).run store =
        (.ok report, store.stored
          (writtenFiles store tables.files ((coverage apis).map Covered.scope))) ∧
      (∀ name, (∀ artifact ∈ writtenFiles store tables.files ((coverage apis).map Covered.scope),
          artifact.fileName ≠ name) →
        (store.stored (writtenFiles store tables.files
          ((coverage apis).map Covered.scope))).artifact? name = store.artifact? name) ∧
      Accounts store.denied tables.files (coverage apis) (sharedFiles store) found report := by
  obtain ⟨typeText, typeMap⟩ := Option.isSome_iff_exists.1 typeMap
  obtain ⟨functionText, functionSpec⟩ := Option.isSome_iff_exists.1 functionSpec
  obtain ⟨enumText, enumSpec⟩ := Option.isSome_iff_exists.1 enumSpec
  let texts : SourceTexts := ⟨enumText, functionText, typeText⟩
  let loaded := Tables.ofTexts texts (Tables.allInputWarnings sources limit texts)
  have load := Tables.runOn_load_of_held inputs store texts limit typeMap functionSpec enumSpec []
  have same : loaded = (loaded.1, loaded.2) := rfl
  have run := run_generate inputs store texts apis limit typeMap functionSpec enumSpec storable
    same
  rw [← map_scope_coverage] at run
  refine ⟨loaded.1, loaded.2, _, ?_, run, artifact?_stored_of_not_written store _, ?_⟩
  · rw [List.nil_append] at load
    exact load
  · rw [map_scope_coverage]
    exact accounts_reportOf store.denied loaded.1.files apis (sharedFiles store) loaded.2

/-- A store that refuses the header of one API. -/
def refusingHeader : MemoryStore where
  denied := ["GLEX_A.h"]

/-- One API fails, one is generated and one has nothing, named in this order. -/
theorem generate_accounts_for_refused_header :
    let sources : Sources := ⟨"enumext.spec", "gl.spec", "gl.tm"⟩
    let entries : List Covered :=
      [⟨.api "A", some "A", "A"⟩, ⟨.api "B", some "B", "B"⟩, ⟨.api "C", some "C", "C"⟩]
    ((twoConstants.resources.get? sources.typeMap).isSome = true ∧
      (twoConstants.resources.get? sources.functionSpec).isSome = true ∧
      (twoConstants.resources.get? sources.enumSpec).isSome = true ∧
      "GLEX_globals.h" ∉ refusingHeader.denied) ∧
    ∃ tables found report,
      (StateT.run (ExceptT.run (Tables.load twoConstants.workspace sources none)) []).run
        refusingHeader = ((.ok tables, found), refusingHeader) ∧
      (generate twoConstants.workspace sources (.only ["A", "B", "C"]) none).run refusingHeader =
        (.ok report, refusingHeader.stored (writtenFiles refusingHeader tables.files
          (entries.map Covered.scope))) ∧
      (∀ name, (∀ artifact ∈ writtenFiles refusingHeader tables.files
          (entries.map Covered.scope), artifact.fileName ≠ name) →
        (refusingHeader.stored (writtenFiles refusingHeader tables.files
          (entries.map Covered.scope))).artifact? name = refusingHeader.artifact? name) ∧
      Accounts refusingHeader.denied tables.files entries (sharedFiles refusingHeader) found
        report ∧
      report.generated =
        [⟨none, "GLEX_globals.h", .globals⟩, ⟨some "B", "GLEX_B.h", .header⟩] ∧
      report.empty = ["C"] ∧ report.failures = [("A", .deniedWrite "GLEX_A.h")] := by
  intro sources entries
  refine ⟨⟨by decide, by decide, by decide, by decide⟩, ?_⟩
  obtain ⟨tables, found, report, load, run, kept, accounts⟩ :=
    generate_accounts_for_every_scope twoConstants refusingHeader sources
      (.only ["A", "B", "C"]) none (by decide) (by decide) (by decide) (.inr (by decide))
  have made : ((generate twoConstants.workspace sources (.only ["A", "B", "C"]) none).run
      refusingHeader).1 = .ok
        ⟨[⟨none, "GLEX_globals.h", .globals⟩, ⟨some "B", "GLEX_B.h", .header⟩], ["C"],
          [("A", .deniedWrite "GLEX_A.h")], []⟩ := by decide
  rw [run] at made
  cases Except.ok.inj made
  exact ⟨tables, found, _, load, run, kept, accounts, rfl, rfl, rfl⟩

end Run

end ExtensionLoader
