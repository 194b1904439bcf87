import ExtensionLoader.Proofs.Run.Generate

/-! # The course of a run

A workspace can be watched: each state that a stored file leaves behind is then remembered, in
order (`Workspace.watched`). A run cannot tell whether it is watched (`Run.generate_watched`). What
each file that it stores keeps true, the whole run keeps true (`Run.generate_keeps`).
-/

namespace ExtensionLoader

/-- A state and the states before it, the first one first. -/
structure Course (σ : Type) where
  past : List σ
  now : σ

namespace Course

variable {σ : Type}

/-- The states of a course, the one it is in last. -/
def states (course : Course σ) : List σ := course.past ++ [course.now]

/-- The course that goes on to another state. -/
def advance (course : Course σ) (next : σ) : Course σ := ⟨course.states, next⟩

/-- A step that is not remembered. -/
def still {α : Type} (step : StateM σ α) : StateM (Course σ) α := fun course =>
  ((step.run course.now).1, { course with now := (step.run course.now).2 })

/-- A transitive relation goes on to hold along a course if it holds of its last step. -/
theorem pairwise_advance {R : σ → σ → Prop} (trans : ∀ a b c, R a b → R b c → R a c)
    {course : Course σ} {next : σ} (pairwise : course.states.Pairwise R)
    (step : R course.now next) : (course.advance next).states.Pairwise R := by
  apply List.pairwise_append.2
  refine ⟨pairwise, List.pairwise_singleton R next, ?_⟩
  intro earlier member last isLast
  rw [List.mem_singleton.1 isLast]
  rcases List.mem_append.1 member with before | now
  · exact trans _ _ _ ((List.pairwise_append.1 pairwise).2.2 _ before _ List.mem_cons_self) step
  · rwa [List.mem_singleton.1 now]

end Course

namespace Workspace

variable {σ τ : Type}

/-- The same workspace, which also remembers the states that stored files leave behind. -/
def watched (workspace : Workspace (StateM σ)) : Workspace (StateM (Course σ)) where
  read name := Course.still (workspace.read name)
  present name := Course.still (workspace.present name)
  say message := Course.still (workspace.say message)
  write name contents := fun course =>
    match (workspace.write name contents).run course.now with
    | (.ok (), next) => (.ok (), course.advance next)
    | (.error fault, next) => (.error fault, { course with now := next })

/-- Workspaces that cannot be told apart from within, seen through a view of the states of one. -/
structure SeenAs (view : σ → τ) (first : Workspace (StateM σ)) (second : Workspace (StateM τ)) :
    Prop where
  read : ∀ name state, first.readAt state name = second.readAt (view state) name
  present : ∀ name state, first.presentAt state name = second.presentAt (view state) name
  write : ∀ name contents state, (second.write name contents).run (view state) =
    (((first.write name contents).run state).1, view ((first.write name contents).run state).2)

section Watched

variable (workspace : Workspace (StateM σ))

theorem run_watched_write (name contents : String) (course : Course σ) :
    (workspace.watched.write name contents).run course =
      match (workspace.write name contents).run course.now with
      | (.ok (), next) => (.ok (), course.advance next)
      | (.error fault, next) => (.error fault, { course with now := next }) := rfl

theorem seenAs_watched : SeenAs Course.now workspace.watched workspace where
  read _ _ := rfl
  present _ _ := rfl
  write name contents course := by
    rcases written : (workspace.write name contents).run course.now with ⟨fault | ⟨⟩, next⟩
    · rw [run_watched_write, written]
    · rw [run_watched_write, written]
      rfl

variable {workspace}

/-- A watched workspace is as steady as the workspace. -/
theorem Steady.watched (steady : workspace.Steady) : workspace.watched.Steady where
  read name course :=
    congrArg (fun now => { course with now := now }) (steady.read name course.now)
  present name course :=
    congrArg (fun now => { course with now := now }) (steady.present name course.now)
  say message course :=
    congrArg (fun now => { course with now := now }) (steady.say message course.now)
  refused name contents course fault refused := by
    rcases written : (workspace.write name contents).run course.now with ⟨other | ⟨⟩, next⟩
    · rw [run_watched_write, written]
      have unchanged := steady.refused name contents course.now other (congrArg Prod.fst written)
      rw [written] at unchanged
      exact congrArg (fun now => { course with now := now }) unchanged
    · rw [writeAt, run_watched_write, written] at refused
      cases refused

/-- A file that is stored takes the course one state further; a refused one leaves it alone. -/
theorem watched_write_cases (steady : workspace.Steady) (name contents : String)
    (course : Course σ) :
    ((workspace.watched.write name contents).run course).2 = course ∨
      ((workspace.watched.write name contents).run course).2 =
        course.advance ((workspace.write name contents).run course.now).2 := by
  rcases written : (workspace.write name contents).run course.now with ⟨fault | ⟨⟩, next⟩
  · have refused : workspace.watched.writeAt course name contents = .error fault := by
      rw [writeAt, run_watched_write, written]
    exact .inl (steady.watched.refused name contents course fault refused)
  · rw [run_watched_write, written]
    exact .inr rfl

theorem pairwise_watched_write {R : σ → σ → Prop} (trans : ∀ a b c, R a b → R b c → R a c)
    (steady : workspace.Steady) {name contents : String} {course : Course σ}
    (pairwise : course.states.Pairwise R)
    (step : R course.now ((workspace.write name contents).run course.now).2) :
    ((workspace.watched.write name contents).run course).2.states.Pairwise R := by
  rcases watched_write_cases steady name contents course with same | further
  · rwa [same]
  · rw [further]
    exact Course.pairwise_advance trans pairwise step

end Watched

end Workspace

namespace Run

open Workspace Tables

variable {σ τ : Type}

section SeenAs

variable {view : σ → τ} {first : Workspace (StateM σ)} {second : Workspace (StateM τ)}
variable (alike : SeenAs view first second) (steady : first.Steady) (steadyToo : second.Steady)
include alike steady steadyToo

/-- Storing a scope's files looks the same in a view. -/
theorem storeAll_seenAs (scope : Scope) (artifacts : List Artifact) (state : σ) :
    (storeAll second scope artifacts).run (view state) =
      (((storeAll first scope artifacts).run state).1,
        view ((storeAll first scope artifacts).run state).2) := by
  induction artifacts generalizing state with
  | nil => rfl
  | cons artifact rest ih =>
    rw [storeAll, run_bind, alike.write, storeAll, run_bind]
    rcases (first.write artifact.fileName artifact.contents).run state with ⟨fault | ⟨⟩, next⟩
    · rfl
    · dsimp only
      rw [run_bind, steadyToo.say, run_bind, steady.say]
      exact ih next

/-- Generating a scope looks the same in a view. -/
theorem generateScope_seenAs (tables : Tables) (scope : Scope) (state : σ) :
    (generateScope second tables scope).run (view state) =
      (((generateScope first tables scope).run state).1,
        view ((generateScope first tables scope).run state).2) := by
  unfold generateScope
  dsimp only
  rw [run_bind, run_bind, storeAll_seenAs alike steady steadyToo]
  rcases (storeAll first scope _).run state with ⟨fault | ⟨⟩, next⟩
  · dsimp only
    rw [run_bind, steadyToo.say, run_bind, steady.say]
    rfl
  · dsimp only
    split
    · rw [run_bind, steadyToo.say, run_bind, steady.say]
      rfl
    · rfl

theorem generateScopes_seenAs (tables : Tables) (scopes : List Scope) (state : σ) :
    (generateScopes second tables scopes).run (view state) =
      (((generateScopes first tables scopes).run state).1,
        view ((generateScopes first tables scopes).run state).2) := by
  induction scopes generalizing state with
  | nil => rfl
  | cons scope rest ih =>
    rw [generateScopes, run_bind, generateScope_seenAs alike steady steadyToo, run_bind, ih]
    rfl

/-- Storing the shared header looks the same in a view. -/
theorem storeGlobals_seenAs (state : σ) :
    (storeGlobals second).run (view state) =
      (((storeGlobals first).run state).1, view ((storeGlobals first).run state).2) := by
  unfold storeGlobals
  rw [run_bind, steadyToo.run_present, run_bind, steady.run_present, alike.present]
  dsimp only
  split
  · rw [run_bind, steadyToo.say, run_bind, steady.say]
    rfl
  · rw [run_bind, run_bind, alike.write]
    rcases (first.write Globals.file Globals.contents).run state with ⟨fault | ⟨⟩, next⟩ <;> rfl

/-- A run looks the same in a view. -/
theorem generate_seenAs (sources : Sources) (apis : Selection) (limit : Option Nat) (state : σ) :
    (generate second sources apis limit).run (view state) =
      (((generate first sources apis limit).run state).1,
        view ((generate first sources apis limit).run state).2) := by
  rcases readable_or_firstUnreadable first state sources with ⟨texts, readable⟩ | ⟨fault, unread⟩
  · have readableToo : Readable second (view state) sources texts :=
      ⟨alike.read _ state ▸ readable.typeMap, alike.read _ state ▸ readable.functionSpec,
        alike.read _ state ▸ readable.enumSpec⟩
    rw [run_generate_of_readable steady apis limit readable,
      run_generate_of_readable steadyToo apis limit readableToo,
      storeGlobals_seenAs alike steady steadyToo]
    rcases (storeGlobals first).run state with ⟨fault | shared, next⟩
    · rfl
    · dsimp only
      rw [generateScopes_seenAs alike steady steadyToo]
      rfl
  · have unreadToo : FirstUnreadable second (view state) sources fault := by
      cases unread with
      | typeMap unreadable => exact .typeMap (alike.read _ state ▸ unreadable)
      | functionSpec before unreadable =>
        exact .functionSpec (alike.read _ state ▸ before) (alike.read _ state ▸ unreadable)
      | enumSpec before next unreadable =>
        exact .enumSpec (alike.read _ state ▸ before) (alike.read _ state ▸ next)
          (alike.read _ state ▸ unreadable)
    rw [run_generate_of_unreadable steady apis limit unread,
      run_generate_of_unreadable steadyToo apis limit unreadToo]

end SeenAs

/-- **Watching.** A run reports the same whether or not it is watched, and it leaves the same
behind. -/
theorem generate_watched {workspace : Workspace (StateM σ)} (steady : workspace.Steady)
    (sources : Sources) (apis : Selection) (limit : Option Nat) (course : Course σ) :
    (generate workspace sources apis limit).run course.now =
      (((generate workspace.watched sources apis limit).run course).1,
        ((generate workspace.watched sources apis limit).run course).2.now) :=
  generate_seenAs (seenAs_watched workspace) steady.watched steady sources apis limit course

section Keeps

variable {workspace : Workspace (StateM σ)} (steady : workspace.Steady) {P : σ → Prop} {state : σ}
include steady

/-- Storing a scope's files keeps what each write keeps. -/
theorem storeAll_keeps (scope : Scope) {artifacts : List Artifact}
    (keeps : ∀ artifact ∈ artifacts, ∀ state, P state →
      P ((workspace.write artifact.fileName artifact.contents).run state).2)
    (holds : P state) : P ((storeAll workspace scope artifacts).run state).2 := by
  induction artifacts generalizing state with
  | nil => exact holds
  | cons artifact rest ih =>
    have first := keeps artifact List.mem_cons_self state holds
    rw [storeAll, run_bind]
    generalize (workspace.write artifact.fileName artifact.contents).run state = result at first ⊢
    rcases result with ⟨fault | ⟨⟩, next⟩
    · exact first
    · dsimp only
      rw [run_bind, steady.say]
      exact ih (fun other member => keeps other (List.mem_cons_of_mem _ member)) first

/-- Generating a scope keeps what each write keeps. -/
theorem generateScope_keeps {tables : Tables} {scope : Scope}
    (keeps : ∀ artifact ∈ tables.files scope, ∀ state, P state →
      P ((workspace.write artifact.fileName artifact.contents).run state).2)
    (holds : P state) : P ((generateScope workspace tables scope).run state).2 := by
  have stored := storeAll_keeps steady scope keeps holds
  unfold generateScope
  dsimp only [Tables.files] at stored ⊢
  rw [run_bind]
  generalize (storeAll workspace scope _).run state = result at stored ⊢
  rcases result with ⟨fault | ⟨⟩, next⟩
  · dsimp only
    rw [run_bind, steady.say]
    exact stored
  · dsimp only
    split
    · rw [run_bind, steady.say]
      exact stored
    · exact stored

theorem generateScopes_keeps {tables : Tables} {scopes : List Scope}
    (keeps : ∀ scope ∈ scopes, ∀ artifact ∈ tables.files scope, ∀ state, P state →
      P ((workspace.write artifact.fileName artifact.contents).run state).2)
    (holds : P state) : P ((generateScopes workspace tables scopes).run state).2 := by
  induction scopes generalizing state with
  | nil => exact holds
  | cons scope rest ih =>
    rw [generateScopes, run_bind, run_bind]
    apply ih (fun other member => keeps other (List.mem_cons_of_mem _ member))
    exact generateScope_keeps steady (keeps scope List.mem_cons_self) holds

/-- Storing the shared header keeps what its write keeps. -/
theorem storeGlobals_keeps
    (keeps : ∀ state, P state → workspace.presentAt state Globals.file = false →
      P ((workspace.write Globals.file Globals.contents).run state).2)
    (holds : P state) : P ((storeGlobals workspace).run state).2 := by
  unfold storeGlobals
  rw [run_bind, steady.run_present]
  cases present : workspace.presentAt state Globals.file with
  | true =>
    simp only [↓reduceIte]
    rw [run_bind, steady.say]
    exact holds
  | false =>
    have stored := keeps state holds present
    simp only [Bool.false_eq_true, ↓reduceIte]
    rw [run_bind]
    generalize (workspace.write Globals.file Globals.contents).run state = result at stored ⊢
    rcases result with ⟨fault | ⟨⟩, next⟩ <;> exact stored

/-- **What a run keeps true.** It is enough to look at the files that the run may store: the shared
header where that is not there, and the files of the scopes. -/
theorem generate_keeps {sources : Sources} {apis : Selection} {limit : Option Nat}
    (shared : ∀ state, P state → workspace.presentAt state Globals.file = false →
      P ((workspace.write Globals.file Globals.contents).run state).2)
    (keeps : ∀ texts, Readable workspace state sources texts →
      ∀ scope ∈ apis.scopes,
      ∀ artifact ∈ (ofTexts texts (allInputWarnings sources limit texts)).1.files scope,
      ∀ state, P state → P ((workspace.write artifact.fileName artifact.contents).run state).2)
    (holds : P state) : P ((generate workspace sources apis limit).run state).2 := by
  rcases readable_or_firstUnreadable workspace state sources with
    ⟨texts, readable⟩ | ⟨fault, first⟩
  · have stored := storeGlobals_keeps steady shared holds
    rw [run_generate_of_readable steady apis limit readable]
    generalize (storeGlobals workspace).run state = result at stored ⊢
    rcases result with ⟨fault | made, next⟩
    · exact stored
    · exact generateScopes_keeps steady (keeps texts readable) stored
  · rw [run_generate_of_unreadable steady apis limit first]
    exact holds

/-- The course of a run goes on from the states that were passed before. -/
theorem states_generate_watched (sources : Sources) (apis : Selection) (limit : Option Nat)
    (course : Course σ) :
    course.states <+: ((generate workspace.watched sources apis limit).run course).2.states := by
  have keeps (name contents : String) (next : Course σ) (before : course.states <+: next.states) :
      course.states <+: ((workspace.watched.write name contents).run next).2.states := by
    rcases watched_write_cases steady name contents next with same | further
    · rwa [same]
    · rw [further]
      exact before.trans (List.prefix_append _ _)
  exact generate_keeps (P := fun next => course.states <+: next.states) steady.watched
    (fun next before _ => keeps _ _ next before)
    (fun _ _ _ _ _ _ next before => keeps _ _ next before) List.prefix_rfl

end Keeps

end Run

end ExtensionLoader
