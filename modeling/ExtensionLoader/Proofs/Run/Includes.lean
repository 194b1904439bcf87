import ExtensionLoader.Proofs.Artifact.Coherence
import ExtensionLoader.Proofs.Run.Generate
import Mathlib.Logic.Function.Basic

/-! # What generated files find

Tables are only loaded from texts, so the files of every scope fit together. A run that comes to its
end without a failure stores the files of each scope as a whole, and the shared header is there as
well. Hence each name that a generated file includes in quotes is that of a file that is there
(`Run.generated_files_find_what_they_include`). Where files are kept and how does not matter, as
long as a stored file can be found again (`Workspace.Stores`).
-/

namespace ExtensionLoader

open Workspace

variable {σ : Type} {workspace : Workspace (StateM σ)}

namespace Tables

/-- A step that succeeds is made of two that do. -/
theorem runOn_bind_eq_ok {α β : Type}
    {first : ExceptT Fault (StateT Diagnostics (StateM σ)) α}
    {next : α → ExceptT Fault (StateT Diagnostics (StateM σ)) β}
    {found last : Diagnostics} {state after : σ} {result : β}
    (succeeds : runOn (first >>= next) found state = ((.ok result, last), after)) :
    ∃ value between middle, runOn first found state = ((.ok value, between), middle) ∧
      runOn (next value) between middle = ((.ok result, last), after) := by
  rcases given : runOn first found state with ⟨⟨fault | value, between⟩, middle⟩
  · unfold runOn at given succeeds
    rw [ExceptT.run_bind, StateT.run_bind, run_bind, given] at succeeds
    cases succeeds
  · refine ⟨value, between, middle, rfl, ?_⟩
    unfold runOn at given succeeds
    rwa [ExceptT.run_bind, StateT.run_bind, run_bind, given] at succeeds

/-- Tables are loaded from three texts, in whatever workspace. -/
theorem exists_texts_of_load {sources : Sources} {limit : Option Nat} {found last : Diagnostics}
    {state after : σ} {tables : Tables}
    (loaded : runOn (load workspace sources limit) found state = ((.ok tables, last), after)) :
    ∃ texts before, tables = (ofTexts texts before).1 := by
  unfold load at loaded
  obtain ⟨typeMap, _, _, -, loaded⟩ := runOn_bind_eq_ok loaded
  obtain ⟨functionSpec, _, _, -, loaded⟩ := runOn_bind_eq_ok loaded
  obtain ⟨enumSpec, _, _, -, loaded⟩ := runOn_bind_eq_ok loaded
  obtain ⟨_, before, _, -, loaded⟩ := runOn_bind_eq_ok loaded
  cases loaded
  exact ⟨⟨enumSpec, functionSpec, typeMap⟩, before, rfl⟩

theorem coherent_ofTexts (texts : SourceTexts) (before : Diagnostics) (scope : Scope) :
    Artifact.Coherent (ofTexts texts before).1.enums (ofTexts texts before).1.functions scope :=
  Artifact.coherent_of_wellFormed
    (FunctionTable.wellFormed_parse texts.functionSpec (TypeMap.givesFields_parse texts.typeMap))
    (EnumTable.ofWords_resolve texts.enumSpec before) scope

/-- The files of a scope fit together, whatever tables are loaded. -/
theorem coherent_of_load {sources : Sources} {limit : Option Nat} {found last : Diagnostics}
    {state after : σ} {tables : Tables}
    (loaded : runOn (load workspace sources limit) found state = ((.ok tables, last), after))
    (scope : Scope) : Artifact.Coherent tables.enums tables.functions scope := by
  obtain ⟨texts, before, rfl⟩ := exists_texts_of_load loaded
  exact coherent_ofTexts texts before scope

end Tables

/-- What a workspace keeps, seen through the texts of its files: a file that is written is there
with its text, and neither saying nor asking changes anything. -/
structure Workspace.Stores (workspace : Workspace (StateM σ)) (held : σ → String → Option String) :
    Prop where
  say : ∀ message state, held ((workspace.say message).run state).2 = held state
  present : ∀ name state, held ((workspace.present name).run state).2 = held state
  presentAt : ∀ name state, workspace.presentAt state name = (held state name).isSome
  write : ∀ name contents state, workspace.writeAt state name contents = .ok () →
    held ((workspace.write name contents).run state).2 =
      Function.update (held state) name (some contents)

/-- The workspace in memory stores what is written. -/
theorem MemoryStore.stores_workspace (inputs : MemoryStore) :
    inputs.workspace.Stores MemoryStore.artifact? where
  say _ _ := rfl
  present _ _ := rfl
  presentAt _ _ := rfl
  write name contents store written := by
    have admitted := (writeAt_eq_ok_iff inputs store).1 written
    have stored := run_write_of_admitted inputs store ⟨.header, name, contents⟩ admitted
    funext other
    rw [stored, artifact?_stored, Function.update_apply]
    by_cases same : name = other
    · simp [same]
    · simp [same, Ne.symm same]

namespace Artifact

/-- The texts of files after some files have been stored. -/
def overlay (held : String → Option String) (artifacts : List Artifact) : String → Option String :=
  artifacts.foldl
    (fun held artifact => Function.update held artifact.fileName (some artifact.contents)) held

variable (held : String → Option String)

theorem overlay_append (first second : List Artifact) :
    overlay held (first ++ second) = overlay (overlay held first) second := List.foldl_append

theorem overlay_append_singleton (front : List Artifact) (last : Artifact) (name : String) :
    overlay held (front ++ [last]) name =
      if name = last.fileName then some last.contents else overlay held front name := by
  rw [overlay_append]
  exact Function.update_apply (overlay held front) last.fileName (some last.contents) name

/-- A name holds the text of a stored file of that name, or what it held before. -/
theorem overlay_cases (artifacts : List Artifact) (name : String) :
    (∃ artifact ∈ artifacts, artifact.fileName = name ∧
      overlay held artifacts name = some artifact.contents) ∨
    overlay held artifacts name = held name ∧ ∀ artifact ∈ artifacts, artifact.fileName ≠ name := by
  -- The last file of a name counts, so the induction takes files from the end.
  induction artifacts using List.reverseRecOn with
  | nil => exact .inr ⟨rfl, List.forall_mem_nil _⟩
  | append_singleton front last ih =>
    rw [overlay_append_singleton]
    by_cases same : name = last.fileName
    · rw [if_pos same]
      exact .inl ⟨last, by simp, same.symm, rfl⟩
    · rw [if_neg same]
      rcases ih with ⟨artifact, member, named, text⟩ | ⟨text, others⟩
      · exact .inl ⟨artifact, List.mem_append_left _ member, named, text⟩
      · refine .inr ⟨text, List.forall_mem_append.2 ⟨others, ?_⟩⟩
        exact List.forall_mem_singleton.2 (Ne.symm same)

theorem exists_of_mem_overlay {artifacts : List Artifact} {artifact : Artifact}
    (member : artifact ∈ artifacts) : ∃ other ∈ artifacts,
      overlay held artifacts artifact.fileName = some other.contents := by
  rcases overlay_cases held artifacts artifact.fileName with ⟨other, listed, -, text⟩ | ⟨-, others⟩
  · exact ⟨other, listed, text⟩
  · exact absurd rfl (others artifact member)

theorem isSome_overlay {artifacts : List Artifact} {name : String}
    (there : (held name).isSome = true) : (overlay held artifacts name).isSome = true := by
  rcases overlay_cases held artifacts name with ⟨other, -, -, text⟩ | ⟨text, -⟩
  · rw [text]
    rfl
  · rwa [text]

end Artifact

namespace Run

variable {held : σ → String → Option String} {state : σ}

/-- A run that comes to its end has loaded tables, seen to the shared header, and gone through all
scopes. -/
theorem generate_eq_ok {sources : Sources} {apis : Selection} {limit : Option Nat}
    {report : Report} {after : σ}
    (ends : (generate workspace sources apis limit).run state = (.ok report, after)) :
    ∃ tables found middle shared next,
      Tables.runOn (Tables.load workspace sources limit) [] state = ((.ok tables, found), middle) ∧
      (storeGlobals workspace).run middle = (.ok shared, next) ∧
      report = Report.ofOutcomes shared
        ((generateScopes workspace tables apis.scopes).run next).1 found ∧
      after = ((generateScopes workspace tables apis.scopes).run next).2 := by
  unfold generate at ends
  rw [run_bind] at ends
  rcases loaded : Tables.runOn (Tables.load workspace sources limit) [] state with
    ⟨⟨fault | tables, found⟩, middle⟩
  · unfold Tables.runOn at loaded
    rw [loaded] at ends
    cases ends
  · unfold Tables.runOn at loaded
    rw [loaded] at ends
    dsimp only at ends
    rw [run_bind] at ends
    rcases stored : (storeGlobals workspace).run middle with ⟨fault | shared, next⟩
    · rw [stored] at ends
      cases ends
    · rw [stored] at ends
      cases ends
      exact ⟨tables, found, middle, shared, next, rfl, stored, rfl, rfl⟩

section Stores

variable (stores : workspace.Stores held)
include stores

/-- Files that are all stored are all there. -/
theorem held_storeAll (state : σ) (scope : Scope) {artifacts : List Artifact}
    (complete : ((storeAll workspace scope artifacts).run state).1 = .ok ()) :
    held ((storeAll workspace scope artifacts).run state).2 =
      Artifact.overlay (held state) artifacts := by
  induction artifacts generalizing state with
  | nil => rfl
  | cons artifact rest ih =>
    have kept := stores.write artifact.fileName artifact.contents state
    rw [storeAll, run_bind] at complete ⊢
    rw [writeAt] at kept
    generalize (workspace.write artifact.fileName artifact.contents).run state = result
      at kept complete ⊢
    rcases result with ⟨fault | ⟨⟩, next⟩
    · cases complete
    · dsimp only at complete kept ⊢
      rw [run_bind] at complete ⊢
      rw [ih _ complete, stores.say, kept rfl]
      rfl

/-- A scope that does not fail has all of its files stored, and its outcome lists them. -/
theorem held_generateScope (state : σ) {tables : Tables} {scope : Scope}
    (complete : ((generateScope workspace tables scope).run state).1.fault? = none) :
    held ((generateScope workspace tables scope).run state).2 =
        Artifact.overlay (held state) (tables.files scope) ∧
      ((generateScope workspace tables scope).run state).1.files =
        (tables.files scope).map (record scope) := by
  have stored (complete : ((storeAll workspace scope (tables.files scope)).run state).1 = .ok ()) :=
    held_storeAll stores state scope complete
  unfold generateScope at complete ⊢
  dsimp only [Tables.files] at stored complete ⊢
  rw [run_bind] at complete ⊢
  generalize (storeAll workspace scope _).run state = result at stored complete ⊢
  rcases result with ⟨fault | ⟨⟩, next⟩
  · cases complete
  · have kept := stored rfl
    dsimp only
    split
    · rename_i nothing
      refine ⟨?_, ?_⟩
      · rw [run_bind]
        exact (stores.say _ _).trans kept
      · rw [List.isEmpty_iff.1 nothing]
        rfl
    · exact ⟨kept, rfl⟩

/-- Scopes without a fault leave all their files behind. -/
theorem held_generateScopes (state : σ) {tables : Tables} {scopes : List Scope}
    (complete : ∀ entry ∈ ((generateScopes workspace tables scopes).run state).1,
      entry.2.fault? = none) :
    held ((generateScopes workspace tables scopes).run state).2 =
        Artifact.overlay (held state) (scopes.flatMap tables.files) ∧
      (((generateScopes workspace tables scopes).run state).1.flatMap fun entry => entry.2.files) =
        scopes.flatMap fun scope => (tables.files scope).map (record scope) := by
  induction scopes generalizing state with
  | nil => exact ⟨rfl, rfl⟩
  | cons scope rest ih =>
    rw [generateScopes, run_bind, run_bind] at complete ⊢
    obtain ⟨first, later⟩ := List.forall_mem_cons.1 complete
    obtain ⟨kept, listed⟩ := held_generateScope stores state first
    obtain ⟨keptLater, listedLater⟩ := ih _ later
    constructor
    · rw [List.flatMap_cons, Artifact.overlay_append, ← kept]
      exact keptLater
    · rw [List.flatMap_cons, ← listed, ← listedLater]
      rfl

/-- The shared header is there afterwards; it is stored only if it was not there before. -/
theorem held_storeGlobals (state : σ) {shared : List GeneratedFile}
    (complete : ((storeGlobals workspace).run state).1 = .ok shared) :
    ∃ made, (∀ artifact ∈ made, artifact = ⟨.globals, Globals.file, Globals.contents⟩) ∧
      held ((storeGlobals workspace).run state).2 = Artifact.overlay (held state) made ∧
      shared = made.map (fun artifact => ⟨none, artifact.fileName, artifact.kind⟩) ∧
      (held ((storeGlobals workspace).run state).2 Globals.file).isSome = true := by
  have asked := stores.present Globals.file state
  have known := stores.presentAt Globals.file state
  rw [presentAt] at known
  unfold storeGlobals at complete ⊢
  rw [run_bind] at complete ⊢
  generalize (workspace.present Globals.file).run state = result at asked known complete ⊢
  obtain ⟨there, next⟩ := result
  dsimp only at asked known complete ⊢
  cases there with
  | true =>
    simp only [↓reduceIte] at complete ⊢
    rw [run_bind] at complete ⊢
    cases complete
    have unchanged := (stores.say (.debug s!"{Globals.file} already present, leaving it alone")
      next).trans asked
    refine ⟨[], List.forall_mem_nil _, unchanged, rfl, ?_⟩
    exact (congrArg Option.isSome (congrFun unchanged Globals.file)).trans known.symm
  | false =>
    have kept := stores.write Globals.file Globals.contents next
    simp only [Bool.false_eq_true, ↓reduceIte] at complete ⊢
    rw [run_bind] at complete ⊢
    rw [writeAt] at kept
    generalize (workspace.write Globals.file Globals.contents).run next = written
      at kept complete ⊢
    rcases written with ⟨fault | ⟨⟩, last⟩
    · cases complete
    · cases complete
      have stored := kept rfl
      rw [asked] at stored
      refine ⟨[⟨.globals, Globals.file, Globals.contents⟩], List.forall_mem_singleton.2 rfl, stored,
        rfl, ?_⟩
      change (held last Globals.file).isSome = true
      rw [stored, Function.update_self]
      rfl

/-- A run without failures stores the files of all its scopes, and its report lists them. -/
theorem held_generate {sources : Sources} {apis : Selection} {limit : Option Nat}
    {report : Report} {after : σ}
    (ends : (generate workspace sources apis limit).run state = (.ok report, after))
    (succeeds : report.failures = []) :
    ∃ tables found middle made base,
      Tables.runOn (Tables.load workspace sources limit) [] state = ((.ok tables, found), middle) ∧
      (∀ artifact ∈ made, artifact = ⟨.globals, Globals.file, Globals.contents⟩) ∧
      held after = Artifact.overlay base (made ++ apis.scopes.flatMap tables.files) ∧
      report.generated.map GeneratedFile.fileName =
        (made ++ apis.scopes.flatMap tables.files).map Artifact.fileName ∧
      (held after Globals.file).isSome = true := by
  obtain ⟨tables, found, middle, shared, next, loaded, sharedStored, rfl, rfl⟩ :=
    generate_eq_ok ends
  obtain ⟨made, isShared, kept, named, there⟩ :=
    held_storeGlobals stores middle (congrArg Prod.fst sharedStored)
  rw [sharedStored] at kept there
  have complete : ∀ entry ∈ ((generateScopes workspace tables apis.scopes).run next).1,
      entry.2.fault? = none := by
    intro entry member
    have none := List.filterMap_eq_nil_iff.1 succeeds entry member
    exact Option.map_eq_none_iff.1 none
  obtain ⟨stored, listed⟩ := held_generateScopes stores next complete
  refine ⟨tables, found, middle, made, held middle, loaded, isShared, ?held, ?generated, ?shared⟩
  case held =>
    rw [Artifact.overlay_append, ← kept]
    exact stored
  case generated =>
    rw [Report.ofOutcomes, named]
    dsimp only
    rw [listed, List.map_append, List.map_append, List.map_map, List.map_flatMap, List.map_flatMap]
    simp only [List.map_map]
    rfl
  case shared =>
    rw [stored]
    exact Artifact.isSome_overlay _ there

end Stores

/-- **Generated files find what they include.** The files of a scope fit together, whatever tables
are loaded: what there is of them follows from what the scope has, only a header beside a function
table declares the loader, and they include by quoted names nothing but the shared header and each
other. Behind a run that comes to its end without a failure each file that it generated has a text,
and each name that this text includes in quotes is that of a file that is there. -/
theorem generated_files_find_what_they_include (workspace : Workspace (StateM σ))
    (sources : Sources) (limit : Option Nat) (state : σ) :
    (∀ found tables last after,
      Tables.runOn (Tables.load workspace sources limit) found state =
        ((.ok tables, last), after) →
      ∀ scope, Artifact.Coherent tables.enums tables.functions scope) ∧
    ∀ held, workspace.Stores held → ∀ apis report after,
      (generate workspace sources apis limit).run state = (.ok report, after) →
      report.failures = [] → ∀ file ∈ report.generated,
        ∃ text, held after file.fileName = some text ∧
          ∀ name ∈ quotedIncludes text, workspace.presentAt after name = true := by
  refine ⟨fun _ _ _ _ loaded scope => Tables.coherent_of_load loaded scope, ?_⟩
  intro held stores apis report after ends succeeds file member
  obtain ⟨tables, found, middle, made, base, loaded, isShared, kept, named, shared⟩ :=
    held_generate stores ends succeeds
  obtain ⟨artifact, listed, same⟩ : ∃ artifact ∈ made ++ apis.scopes.flatMap tables.files,
      artifact.fileName = file.fileName := by
    rw [← List.mem_map, ← named]
    exact List.mem_map_of_mem member
  obtain ⟨other, stored, text⟩ := Artifact.exists_of_mem_overlay base listed
  refine ⟨other.contents, by rw [kept, ← same, text], ?_⟩
  intro name includes
  rw [stores.presentAt]
  rcases List.mem_append.1 stored with isMade | ofScopes
  · rw [isShared other isMade, quotedIncludes_globals] at includes
    cases includes
  · obtain ⟨scope, covered, own⟩ := List.mem_flatMap.1 ofScopes
    rcases (Tables.coherent_of_load loaded scope).includes other own name includes with
      rfl | ⟨target, beside, rfl⟩
    · exact shared
    · have among : target ∈ made ++ apis.scopes.flatMap tables.files :=
        List.mem_append_right _ (List.mem_flatMap.2 ⟨scope, covered, beside⟩)
      obtain ⟨found, -, there⟩ := Artifact.exists_of_mem_overlay base among
      rw [kept, there]
      rfl

/-- Inputs with a function and an enumerant of one API, and an enumerant of another one. -/
def oneFunction : MemoryStore where
  resources := .ofList [("enumext.spec", "A enum:\n\tX = 1\nB enum:\n\tY = 2\n"),
    ("gl.spec", "Copy()\n\tcategory A\n\treturn void\n"), ("gl.tm", "")]

/-- The result of a run that covers both APIs. -/
def oneFunctionRun : Except Fault Report × MemoryStore :=
  (generate oneFunction.workspace ⟨"enumext.spec", "gl.spec", "gl.tm"⟩ (.only ["A", "B"]) none).run
    {}

/-- The files of a single function find what they include. -/
theorem generated_files_of_one_function_find_what_they_include :
    oneFunction.workspace.Stores MemoryStore.artifact? ∧
    (∃ tables last after,
      Tables.runOn (Tables.load oneFunction.workspace ⟨"enumext.spec", "gl.spec", "gl.tm"⟩ none) []
        ({} : MemoryStore) = ((.ok tables, last), after) ∧
      Artifact.Coherent tables.enums tables.functions (.api "A")) ∧
    ∃ report after, oneFunctionRun = (.ok report, after) ∧ report.failures = [] ∧
      report.generated.map GeneratedFile.fileName =
        ["GLEX_globals.h", "GLEX_A_funcs.inl", "GLEX_A.h", "GLEX_A.c", "GLEX_B.h"] ∧
      ∀ file ∈ report.generated, ∃ text, after.artifact? file.fileName = some text ∧
        ∀ name ∈ quotedIncludes text, oneFunction.workspace.presentAt after name = true := by
  obtain ⟨coherent, finds⟩ := generated_files_find_what_they_include oneFunction.workspace
    ⟨"enumext.spec", "gl.spec", "gl.tm"⟩ none {}
  have stores := MemoryStore.stores_workspace oneFunction
  refine ⟨stores, ?loaded, ?generated⟩
  case loaded =>
    have loaded := @Tables.runOn_load_of_held oneFunction {} ⟨"enumext.spec", "gl.spec", "gl.tm"⟩
      ⟨"A enum:\n\tX = 1\nB enum:\n\tY = 2\n", "Copy()\n\tcategory A\n\treturn void\n", ""⟩ none
      rfl rfl rfl []
    exact ⟨_, _, _, loaded, coherent _ _ _ _ loaded (.api "A")⟩
  case generated =>
    have known : oneFunctionRun.1.toOption.map (fun report =>
        (report.failures, report.generated.map GeneratedFile.fileName)) = some ([],
          ["GLEX_globals.h", "GLEX_A_funcs.inl", "GLEX_A.h", "GLEX_A.c", "GLEX_B.h"]) := by
      decide +kernel
    rcases run : oneFunctionRun with ⟨fault | report, after⟩
    · rw [run] at known
      cases known
    · rw [run] at known
      obtain ⟨succeeds, named⟩ := Prod.mk.inj (Option.some.inj known)
      exact ⟨report, after, rfl, succeeds, named,
        finds MemoryStore.artifact? stores (.only ["A", "B"]) report after run succeeds⟩

end Run

end ExtensionLoader
