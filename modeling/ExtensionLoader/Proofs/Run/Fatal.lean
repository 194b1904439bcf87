import ExtensionLoader.Proofs.Run.Tables
import ExtensionLoader.Run.Generate

/-! # Runs that end early

A run first reads its three inputs and then stores the shared header, unless that is there. The
first of these steps that fails ends the run with its fault (`Run.FirstFault`), before anything is
stored. Nothing else ends a run early: it does not fail because some other file cannot be stored
(`Run.generate_fails_iff_first_fault`).
-/

namespace ExtensionLoader.Run

open Workspace Tables

variable {σ : Type}

/-- The fault of the first step that ends a run. -/
inductive FirstFault (workspace : Workspace (StateM σ)) (state : σ) (sources : Sources) :
    Fault → Prop
  | unreadable {fault : Fault} (first : FirstUnreadable workspace state sources fault) :
    FirstFault workspace state sources fault
  | refused {texts : SourceTexts} {fault : Fault}
    (readable : Readable workspace state sources texts)
    (absent : workspace.presentAt state Globals.file = false)
    (refused : workspace.writeAt state Globals.file Globals.contents = .error fault) :
    FirstFault workspace state sources fault

/-- The shared header is there, or it can be stored. -/
def HeaderReady (workspace : Workspace (StateM σ)) (state : σ) : Prop :=
  workspace.presentAt state Globals.file = true ∨
    workspace.writeAt state Globals.file Globals.contents = .ok ()

variable {workspace : Workspace (StateM σ)} {state : σ} {sources : Sources}

/-- A run either meets a first fault or has all it needs. -/
theorem firstFault_or_ready (workspace : Workspace (StateM σ)) (state : σ) (sources : Sources) :
    (∃ fault, FirstFault workspace state sources fault) ∨
      (∃ texts, Readable workspace state sources texts) ∧ HeaderReady workspace state := by
  rcases readable_or_firstUnreadable workspace state sources with
    ⟨texts, readable⟩ | ⟨fault, first⟩
  · cases present : workspace.presentAt state Globals.file with
    | true => exact .inr ⟨⟨texts, readable⟩, .inl present⟩
    | false =>
      cases written : workspace.writeAt state Globals.file Globals.contents with
      | error fault => exact .inl ⟨fault, .refused readable present written⟩
      | ok => exact .inr ⟨⟨texts, readable⟩, .inr written⟩
  · exact .inl ⟨fault, .unreadable first⟩

/-- An input cannot be read if and only if one of the three is the first that cannot be read. -/
theorem firstUnreadable_iff (workspace : Workspace (StateM σ)) (state : σ) (sources : Sources) :
    (∃ fault, FirstUnreadable workspace state sources fault) ↔
      ∃ name ∈ [sources.typeMap, sources.functionSpec, sources.enumSpec],
        ∃ fault, workspace.readAt state name = .error fault := by
  constructor
  · rintro ⟨fault, first⟩
    cases first with
    | typeMap unreadable => exact ⟨_, by simp, fault, unreadable⟩
    | functionSpec _ unreadable => exact ⟨_, by simp, fault, unreadable⟩
    | enumSpec _ _ unreadable => exact ⟨_, by simp, fault, unreadable⟩
  · rintro ⟨name, member, fault, unreadable⟩
    rcases readable_or_firstUnreadable workspace state sources with ⟨texts, readable⟩ | first
    · simp only [List.mem_cons, List.not_mem_nil, or_false] at member
      rcases member with rfl | rfl | rfl
      · cases unreadable.symm.trans readable.typeMap
      · cases unreadable.symm.trans readable.functionSpec
      · cases unreadable.symm.trans readable.enumSpec
    · exact first

/-- What ends a run early, without the order of the steps. -/
theorem exists_firstFault_iff : (∃ fault, FirstFault workspace state sources fault) ↔
    (∃ name ∈ [sources.typeMap, sources.functionSpec, sources.enumSpec],
      ∃ fault, workspace.readAt state name = .error fault) ∨
    (workspace.presentAt state Globals.file = false ∧
      ∃ fault, workspace.writeAt state Globals.file Globals.contents = .error fault) := by
  rw [← firstUnreadable_iff]
  constructor
  · rintro ⟨fault, first | ⟨readable, absent, refused⟩⟩
    · exact .inl ⟨fault, first⟩
    · exact .inr ⟨absent, fault, refused⟩
  · rintro (⟨fault, first⟩ | ⟨absent, fault, refused⟩)
    · exact ⟨fault, .unreadable first⟩
    · rcases readable_or_firstUnreadable workspace state sources with
        ⟨texts, readable⟩ | ⟨other, first⟩
      · exact ⟨fault, .refused readable absent refused⟩
      · exact ⟨other, .unreadable first⟩

section

variable (steady : workspace.Steady)
include steady

theorem run_storeGlobals_of_refused {fault : Fault}
    (absent : workspace.presentAt state Globals.file = false)
    (refused : workspace.writeAt state Globals.file Globals.contents = .error fault) :
    (storeGlobals workspace).run state = (.error fault, state) := by
  unfold storeGlobals
  rw [run_bind, steady.run_present, absent]
  simp only [Bool.false_eq_true, ↓reduceIte]
  rw [run_bind, steady.run_write_of_error state refused]
  rfl

/-- Where the shared header is there or can be written, storing it succeeds. -/
theorem run_storeGlobals_of_ready (ready : HeaderReady workspace state) :
    ∃ shared, ((storeGlobals workspace).run state).1 = .ok shared := by
  unfold storeGlobals
  rw [run_bind, steady.run_present]
  cases present : workspace.presentAt state Globals.file with
  | true => exact ⟨[], rfl⟩
  | false =>
    have written : workspace.writeAt state Globals.file Globals.contents = .ok () :=
      ready.resolve_left (by simp [present])
    unfold writeAt at written
    simp only [Bool.false_eq_true, ↓reduceIte]
    rw [run_bind, written]
    exact ⟨_, rfl⟩

/-- A run that has read its inputs stores the shared header and then goes on to its scopes. -/
theorem run_generate_of_readable {texts : SourceTexts} (apis : Selection) (limit : Option Nat)
    (readable : Readable workspace state sources texts) :
    (generate workspace sources apis limit).run state =
      match (storeGlobals workspace).run state with
      | (.error fault, after) => (.error fault, after)
      | (.ok shared, after) =>
        let loaded := ofTexts texts (allInputWarnings sources limit texts)
        let (outcomes, last) := (generateScopes workspace loaded.1 apis.scopes).run after
        (.ok (Report.ofOutcomes shared outcomes loaded.2), last) := by
  have loaded := runOn_load_of_readable steady limit readable []
  rw [runOn, List.nil_append] at loaded
  unfold generate
  rw [run_bind, loaded]
  dsimp only
  rw [run_bind]
  cases (storeGlobals workspace).run state with
  | mk result after => cases result <;> rfl

theorem run_generate_of_unreadable {fault : Fault} (apis : Selection) (limit : Option Nat)
    (first : FirstUnreadable workspace state sources fault) :
    (generate workspace sources apis limit).run state = (.error fault, state) := by
  obtain ⟨found, failed⟩ := runOn_load_of_unreadable steady limit first []
  rw [runOn] at failed
  unfold generate
  rw [run_bind, failed]
  rfl

/-- A step that ends the run comes before anything is stored. -/
theorem run_generate_of_firstFault {fault : Fault} (apis : Selection) (limit : Option Nat)
    (first : FirstFault workspace state sources fault) :
    (generate workspace sources apis limit).run state = (.error fault, state) := by
  cases first with
  | unreadable first => exact run_generate_of_unreadable steady apis limit first
  | refused readable absent refused =>
    rw [run_generate_of_readable steady apis limit readable,
      run_storeGlobals_of_refused steady absent refused]

theorem run_generate_of_ready {texts : SourceTexts} (apis : Selection) (limit : Option Nat)
    (readable : Readable workspace state sources texts) (ready : HeaderReady workspace state) :
    ∃ report, ((generate workspace sources apis limit).run state).1 = .ok report := by
  obtain ⟨shared, stored⟩ := run_storeGlobals_of_ready steady ready
  rw [run_generate_of_readable steady apis limit readable]
  cases globals : (storeGlobals workspace).run state with
  | mk result after =>
    rw [globals] at stored
    cases stored
    exact ⟨_, rfl⟩

/-- A run fails with exactly its first fault. -/
theorem run_generate_eq_error_iff (apis : Selection) (limit : Option Nat) (fault : Fault) :
    ((generate workspace sources apis limit).run state).1 = .error fault ↔
      FirstFault workspace state sources fault := by
  constructor
  · intro failed
    rcases firstFault_or_ready workspace state sources with
      ⟨other, first⟩ | ⟨⟨texts, readable⟩, ready⟩
    · rw [run_generate_of_firstFault steady apis limit first] at failed
      cases failed
      exact first
    · obtain ⟨report, succeeds⟩ := run_generate_of_ready steady apis limit readable ready
      cases succeeds.symm.trans failed
  · intro first
    rw [run_generate_of_firstFault steady apis limit first]

end

/-- **Runs that end early.** A run in a steady workspace fails if and only if an input cannot be
read, or the shared header is not there and cannot be stored. It then fails with the fault of the
first of these steps and leaves everything as it was. How the workspace takes other files does not
matter. -/
theorem generate_fails_iff_first_fault (steady : workspace.Steady) (sources : Sources)
    (apis : Selection) (limit : Option Nat) (state : σ) :
    ((∃ fault, ((generate workspace sources apis limit).run state).1 = .error fault) ↔
      (∃ name ∈ [sources.typeMap, sources.functionSpec, sources.enumSpec],
        ∃ fault, workspace.readAt state name = .error fault) ∨
      (workspace.presentAt state Globals.file = false ∧
        ∃ fault, workspace.writeAt state Globals.file Globals.contents = .error fault)) ∧
    (∀ fault, ((generate workspace sources apis limit).run state).1 = .error fault ↔
      FirstFault workspace state sources fault) ∧
    (∀ fault, ((generate workspace sources apis limit).run state).1 = .error fault →
      ((generate workspace sources apis limit).run state).2 = state) ∧
    ∀ other : Workspace (StateM σ), other.Steady →
      (∀ name, other.readAt state name = workspace.readAt state name) →
      other.presentAt state Globals.file = workspace.presentAt state Globals.file →
      other.writeAt state Globals.file Globals.contents =
        workspace.writeAt state Globals.file Globals.contents →
      ((∃ fault, ((generate other sources apis limit).run state).1 = .error fault) ↔
        ∃ fault, ((generate workspace sources apis limit).run state).1 = .error fault) := by
  refine ⟨?_, run_generate_eq_error_iff steady apis limit, ?_, ?_⟩
  · simp only [run_generate_eq_error_iff steady]
    exact exists_firstFault_iff
  · intro fault failed
    have first := (run_generate_eq_error_iff steady apis limit fault).1 failed
    rw [run_generate_of_firstFault steady apis limit first]
  · intro other steadyToo reads present written
    simp only [run_generate_eq_error_iff steady, run_generate_eq_error_iff steadyToo,
      exists_firstFault_iff, reads, present, written]

/-- A store with two APIs of one constant each. -/
def twoConstants : MemoryStore where
  resources := .ofList [("enumext.spec", "A enum:\n\tX = 1\nB enum:\n\tY = 2\n"),
    ("gl.spec", ""), ("gl.tm", "")]

/-- A store with an older header that refuses the shared one. -/
def refusingShared : MemoryStore where
  artifacts := .ofList [("GLEX_A.h", "// older")]
  denied := ["GLEX_globals.h"]

/-- The refused shared header ends the run, whatever follows it. -/
theorem generate_fails_at_refused_shared_header :
    let sources : Sources := ⟨"enumext.spec", "gl.spec", "gl.tm"⟩
    twoConstants.workspace.Steady ∧
      ((generate twoConstants.workspace sources (.only ["A", "B"]) none).run refusingShared).1 =
        .error (.deniedWrite "GLEX_globals.h") ∧
      ((generate twoConstants.workspace sources (.only ["A", "B"]) none).run refusingShared).2 =
        refusingShared := by
  intro sources
  have steady := MemoryStore.steady_workspace twoConstants
  obtain ⟨_, first, unchanged, _⟩ :=
    generate_fails_iff_first_fault steady sources (.only ["A", "B"]) none refusingShared
  have readable : Readable twoConstants.workspace refusingShared sources
      ⟨"A enum:\n\tX = 1\nB enum:\n\tY = 2\n", "", ""⟩ := ⟨rfl, rfl, rfl⟩
  have fails := (first (.deniedWrite "GLEX_globals.h")).2 (.refused readable rfl rfl)
  exact ⟨steady, fails, unchanged _ fails⟩

end ExtensionLoader.Run
