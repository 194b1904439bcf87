import ExtensionLoader.Proofs.Run.Course
import ExtensionLoader.Proofs.Run.Sequence

/-! # The shared header

A run stores the shared header only where there is none. The header of an API called `globals`
has the same name, though, and it is stored over the shared one like any other file. As long as
nothing is generated for such an API (`Job.Spares`), the shared header is written once: whatever
the runs are and whatever they read, no file that they store changes it, and where it was missing
it has its own text from the first run on that comes to its end
(`Run.shared_header_is_written_once`).
-/

namespace ExtensionLoader.Run

open MemoryStore Workspace

/-- A run that stores its files in memory. -/
structure Job where
  inputs : MemoryStore
  sources : Sources
  apis : Selection
  limit : Option Nat

/-- Nothing is generated for an API called `globals`, should the run cover it. -/
def Job.Spares (job : Job) : Prop :=
  .api "globals" ∈ job.apis.scopes → ∀ texts, Held job.inputs job.sources texts →
    (tablesOf job.sources job.limit texts).files (.api "globals") = []

/-- Runs one after the other, each in a workspace for its own inputs. -/
def runEach {m : Type → Type} [Monad m] (workspaceOf : MemoryStore → Workspace m) :
    List Job → m (List (Except Fault Report))
  | [] => pure []
  | job :: rest => do
    let result ← generate (workspaceOf job.inputs) job.sources job.apis job.limit
    let later ← runEach workspaceOf rest
    pure (result :: later)

/-- The results of some runs, and the store behind them. -/
def runJobs (store : MemoryStore) (jobs : List Job) : List (Except Fault Report) × MemoryStore :=
  (runEach MemoryStore.workspace jobs).run store

/-- The states of a store in the course of some runs, the first one first. -/
def passed (store : MemoryStore) (jobs : List Job) : List MemoryStore :=
  ((runEach (fun inputs => inputs.workspace.watched) jobs).run ⟨[], store⟩).2.states

theorem runJobs_cons (store : MemoryStore) (job : Job) (rest : List Job) :
    runJobs store (job :: rest) =
      let first := (generate job.inputs.workspace job.sources job.apis job.limit).run store
      (first.1 :: (runJobs first.2 rest).1, (runJobs first.2 rest).2) := rfl

/-- Watched jobs end where the jobs do. -/
theorem runEach_watched (jobs : List Job) (course : Course MemoryStore) :
    runJobs course.now jobs =
      (((runEach (fun inputs => inputs.workspace.watched) jobs).run course).1,
        ((runEach (fun inputs => inputs.workspace.watched) jobs).run course).2.now) := by
  induction jobs generalizing course with
  | nil => rfl
  | cons job rest ih =>
    rw [runJobs_cons, generate_watched (steady_workspace job.inputs) _ _ _ course]
    dsimp only
    rw [ih, runEach, run_bind, run_bind]
    rfl

/-- The store behind some runs is the last one that they pass. -/
theorem getLast?_passed (store : MemoryStore) (jobs : List Job) :
    (passed store jobs).getLast? = some (runJobs store jobs).2 := by
  rw [passed, Course.states, List.getLast?_concat, runEach_watched jobs ⟨[], store⟩]

/-- The states passed begin with the first. -/
theorem passed_eq_cons (store : MemoryStore) (jobs : List Job) :
    ∃ later, passed store jobs = store :: later := by
  suffices grows : ∀ course : Course MemoryStore, course.states <+:
      ((runEach (fun inputs => inputs.workspace.watched) jobs).run course).2.states by
    obtain ⟨later, passed⟩ := grows ⟨[], store⟩
    exact ⟨later, passed.symm⟩
  induction jobs with
  | nil => exact fun course => List.prefix_rfl
  | cons job rest ih =>
    intro course
    have first := states_generate_watched (steady_workspace job.inputs) job.sources job.apis
      job.limit course
    exact first.trans (ih _)

/-- Only the header of an API called `globals` has the name of the shared one. -/
theorem eq_globals_of_fileName {tables : Tables} {scope : Scope} {artifact : Artifact}
    (member : artifact ∈ tables.files scope) (named : artifact.fileName = Globals.file) :
    scope = .api "globals" ∧ artifact.kind = .header := by
  obtain ⟨own, held⟩ := Artifact.named_of_mem_ofScope member
  have kind : artifact.kind ≠ .globals := by
    intro shared
    rw [shared] at held
    cases held
  have shared : (Scope.api "globals").fileName .header = Globals.file := rfl
  apply Scope.fileName_injective kind (by decide)
  rw [← own, named, shared]

/-- The shared header is as it was, or it was missing and has been stored. -/
def HeaderKept (before after : MemoryStore) : Prop :=
  after.artifact? Globals.file = before.artifact? Globals.file ∨
    before.artifact? Globals.file = none ∧ after.artifact? Globals.file = some Globals.contents

theorem HeaderKept.refl (store : MemoryStore) : HeaderKept store store := .inl rfl

theorem HeaderKept.trans {a b c : MemoryStore} (first : HeaderKept a b) (second : HeaderKept b c) :
    HeaderKept a c := by
  rcases second with same | ⟨absent, stored⟩
  · rcases first with before | ⟨absent, stored⟩
    · exact .inl (same.trans before)
    · exact .inr ⟨absent, same.trans stored⟩
  · rcases first with before | ⟨_, already⟩
    · exact .inr ⟨before.symm.trans absent, stored⟩
    · cases absent.symm.trans already

theorem headerKept_stored {store : MemoryStore} {artifact : Artifact}
    (step : artifact.fileName ≠ Globals.file ∨
      store.artifact? Globals.file = none ∧ artifact.contents = Globals.contents) :
    HeaderKept store (store.stored [artifact]) := by
  unfold HeaderKept
  rw [artifact?_stored]
  by_cases named : artifact.fileName = Globals.file
  · obtain ⟨absent, contents⟩ := step.resolve_left (not_not.2 named)
    simp [named, absent, contents]
  · simp [named]

/-- A write of such a file keeps the header. -/
theorem headerKept_write (inputs : MemoryStore) {store : MemoryStore} (artifact : Artifact)
    (step : artifact.fileName ≠ Globals.file ∨
      store.artifact? Globals.file = none ∧ artifact.contents = Globals.contents) :
    HeaderKept store
      ((inputs.workspace.write artifact.fileName artifact.contents).run store).2 := by
  by_cases denied : artifact.fileName ∈ store.denied
  · rw [run_write_of_denied inputs store artifact denied]
    exact .refl store
  · rw [run_write_of_admitted inputs store artifact denied]
    exact headerKept_stored step

theorem fileName_ne_of_spares {job : Job} (spares : job.Spares) {texts : SourceTexts}
    (held : Held job.inputs job.sources texts) {scope : Scope} (covered : scope ∈ job.apis.scopes)
    {artifact : Artifact}
    (member : artifact ∈ (tablesOf job.sources job.limit texts).files scope) :
    artifact.fileName ≠ Globals.file := by
  intro named
  obtain ⟨rfl, _⟩ := eq_globals_of_fileName member named
  rw [spares covered texts held] at member
  cases member

/-- A sparing run keeps the header from each state it passes to every later one. -/
theorem pairwise_generate {job : Job} (spares : job.Spares) {course : Course MemoryStore}
    (pairwise : course.states.Pairwise HeaderKept) :
    ((generate job.inputs.workspace.watched job.sources job.apis job.limit).run
      course).2.states.Pairwise HeaderKept := by
  have steady := steady_workspace job.inputs
  have trans (a b c : MemoryStore) : HeaderKept a b → HeaderKept b c → HeaderKept a c := .trans
  refine generate_keeps (P := fun course => course.states.Pairwise HeaderKept) steady.watched
    ?shared ?scopes pairwise
  case shared =>
    intro course pairwise absent
    apply pairwise_watched_write trans steady pairwise
    have missing : course.now.artifact? Globals.file = none :=
      Option.isNone_iff_eq_none.1 (Option.isSome_eq_false_iff.1 absent)
    exact headerKept_write job.inputs ⟨.globals, Globals.file, Globals.contents⟩
      (.inr ⟨missing, rfl⟩)
  case scopes =>
    intro texts readable scope covered artifact member next pairwise
    apply pairwise_watched_write trans steady pairwise
    have plain : Tables.Readable job.inputs.workspace course.now job.sources texts :=
      ⟨readable.typeMap, readable.functionSpec, readable.enumSpec⟩
    have other := fileName_ne_of_spares spares (held_of_readable plain) covered member
    exact headerKept_write job.inputs artifact (.inl other)

variable (store : MemoryStore) {jobs : List Job}

/-- Sparing jobs keep the header from each state they pass to every later one. -/
theorem pairwise_passed (spared : ∀ job ∈ jobs, job.Spares) :
    (passed store jobs).Pairwise HeaderKept := by
  suffices further : ∀ course : Course MemoryStore, course.states.Pairwise HeaderKept →
      ((runEach (fun inputs => inputs.workspace.watched) jobs).run
        course).2.states.Pairwise HeaderKept from
    further ⟨[], store⟩ (List.pairwise_singleton _ store)
  induction jobs with
  | nil => exact fun course pairwise => pairwise
  | cons job rest ih =>
    intro course pairwise
    have first := pairwise_generate (spared job List.mem_cons_self) pairwise
    exact ih (fun other member => spared other (List.mem_cons_of_mem _ member)) _ first

/-- From the store that some runs began with, the shared header is kept all along. -/
theorem headerKept_of_mem_passed (spared : ∀ job ∈ jobs, job.Spares) {state : MemoryStore}
    (member : state ∈ passed store jobs) : HeaderKept store state := by
  obtain ⟨later, passed⟩ := passed_eq_cons store jobs
  have pairwise := pairwise_passed store spared
  rw [passed] at member pairwise
  rcases List.mem_cons.1 member with rfl | after
  · exact .refl state
  · exact List.rel_of_pairwise_cons pairwise after

theorem headerKept_runJobs (spared : ∀ job ∈ jobs, job.Spares) :
    HeaderKept store (runJobs store jobs).2 :=
  headerKept_of_mem_passed store spared (List.mem_of_getLast? (getLast?_passed store jobs))

/-- Behind a run that comes to its end the shared header is there, and it stays there. -/
theorem present_of_isOk (spared : ∀ job ∈ jobs, job.Spares)
    (ends : ∃ result ∈ (runJobs store jobs).1, result.isOk = true) :
    (runJobs store jobs).2.artifact? Globals.file ≠ none := by
  induction jobs generalizing store with
  | nil =>
    obtain ⟨result, member, _⟩ := ends
    cases member
  | cons job rest ih =>
    have sparedToo (other : Job) (member : other ∈ rest) : other.Spares :=
      spared other (List.mem_cons_of_mem _ member)
    rw [runJobs_cons] at ends ⊢
    obtain ⟨result, member, isOk⟩ := ends
    rcases List.mem_cons.1 member with rfl | later
    · obtain ⟨⟨texts, held⟩, storable⟩ := held_and_storable_of_isOk isOk
      have present := present_stored store (tablesOf job.sources job.limit texts).files
        job.apis.scopes
      rw [← run_generate_of_held held storable job.limit job.apis] at present
      rcases headerKept_runJobs _ sparedToo with same | ⟨_, stored⟩
      · rw [same]
        exact Option.isSome_iff_ne_none.1 present
      · rw [stored]
        exact Option.some_ne_none _
    · exact ih _ sparedToo ⟨result, later, isOk⟩

/-- **The shared header is written once**, as long as nothing is generated for an API called
`globals`. Whatever some runs on one store are, once the header is there, no file that they store
changes it; and where it was missing, it holds its own text from the first run on that comes to its
end. -/
theorem shared_header_is_written_once (store : MemoryStore) (jobs : List Job)
    (spared : ∀ job ∈ jobs, job.Spares) :
    (passed store jobs).Pairwise (fun earlier later => ∀ text,
      earlier.artifact? Globals.file = some text → later.artifact? Globals.file = some text) ∧
    (store.artifact? Globals.file = none → ∀ earlier later, jobs = earlier ++ later →
      (∃ result ∈ (runJobs store earlier).1, result.isOk = true) →
      ∀ state ∈ passed (runJobs store earlier).2 later,
        state.artifact? Globals.file = some Globals.contents) := by
  constructor
  · apply (pairwise_passed store spared).imp
    intro earlier later kept text there
    rcases kept with same | ⟨absent, _⟩
    · exact same.trans there
    · cases absent.symm.trans there
  · rintro absent earlier later rfl ends state member
    have sparedFirst (job : Job) (member : job ∈ earlier) : job.Spares :=
      spared job (List.mem_append_left _ member)
    have sparedThen (job : Job) (member : job ∈ later) : job.Spares :=
      spared job (List.mem_append_right _ member)
    have present := present_of_isOk store sparedFirst ends
    have stored : (runJobs store earlier).2.artifact? Globals.file = some Globals.contents := by
      rcases headerKept_runJobs store sparedFirst with same | ⟨_, stored⟩
      · exact absurd (same.trans absent) present
      · exact stored
    rcases headerKept_of_mem_passed _ sparedThen member with same | ⟨missing, _⟩
    · exact same.trans stored
    · exact absurd missing present

/-- The job of generating `apis` from the store's inputs. -/
def jobOn (inputs : MemoryStore) (apis : Selection) : Job :=
  ⟨inputs, ⟨"enumext.spec", "gl.spec", "gl.tm"⟩, apis, none⟩

/-- An API called `globals` may be covered as long as it has nothing to generate. -/
theorem spares_jobOn_twoConstants (apis : Selection) : (jobOn twoConstants apis).Spares := by
  rintro - ⟨enumText, functionText, typeText⟩ ⟨typeMap, functionSpec, enumSpec⟩
  cases Option.some.inj typeMap
  cases Option.some.inj functionSpec
  cases Option.some.inj enumSpec
  have nothing : ((tablesOf ⟨"enumext.spec", "gl.spec", "gl.tm"⟩ none
      ⟨"A enum:\n\tX = 1\nB enum:\n\tY = 2\n", "", ""⟩).files
        (.api "globals")).isEmpty = true := by decide
  exact List.isEmpty_iff.1 nothing

/-- The first of two sparing runs writes the header, the second leaves it. -/
theorem shared_header_is_written_by_first_run :
    let first := jobOn twoConstants .all
    let second := jobOn twoConstants (.only ["A", "globals"])
    (∀ job ∈ [first, second], job.Spares) ∧
    (∃ result ∈ (runJobs {} [first]).1, result.isOk = true) ∧
    (passed {} [first, second]).Pairwise (fun earlier later => ∀ text,
      earlier.artifact? Globals.file = some text → later.artifact? Globals.file = some text) ∧
    ∀ state ∈ passed (runJobs {} [first]).2 [second],
      state.artifact? Globals.file = some Globals.contents := by
  intro first second
  have spared (job : Job) (member : job ∈ [first, second]) : job.Spares := by
    rcases List.mem_pair.1 member with rfl | rfl
    · exact spares_jobOn_twoConstants .all
    · exact spares_jobOn_twoConstants (.only ["A", "globals"])
  have ends : ∃ result ∈ (runJobs {} [first]).1, result.isOk = true := by decide
  obtain ⟨kept, stored⟩ := shared_header_is_written_once {} [first, second] spared
  exact ⟨spared, ends, kept, stored rfl [first] [second] rfl ends⟩

/-- A store with a shared header that somebody has edited. -/
def edited : MemoryStore where
  artifacts := .ofList [("GLEX_globals.h", "// local edits")]

/-- The header of an API called `globals` is stored over the shared one. -/
theorem namesake_overwrites_shared_header :
    let job := jobOn namesake (.only ["globals"])
    (edited.artifact? "GLEX_globals.h" = some "// local edits" ∧
      ¬ ∀ state ∈ passed edited [job],
        state.artifact? "GLEX_globals.h" = some "// local edits") ∧
    (∃ result ∈ (runJobs {} [job]).1, result.isOk = true) ∧
      ¬ ∀ state ∈ passed (runJobs {} [job]).2 [],
        state.artifact? "GLEX_globals.h" = some Globals.contents := by
  intro job
  refine ⟨⟨rfl, ?_⟩, by decide, ?_⟩
  · intro kept
    have last := kept _ (List.mem_of_getLast? (getLast?_passed edited [job]))
    revert last
    decide
  · intro stored
    have last := stored _ (List.mem_of_getLast? (getLast?_passed (runJobs {} [job]).2 []))
    revert last
    decide

end ExtensionLoader.Run
