import ExtensionLoader.Artifact.Kind
import ExtensionLoader.Proofs.OrderedMap
import ExtensionLoader.Proofs.Workspace

/-! # Runs on a store in memory

What each operation of the workspace of a memory store does to the store, and what
storing files in order leaves behind: each file takes the place of an older one of its
name, and files of other names stay as they are (`MemoryStore.artifact?_stored`).
-/

namespace ExtensionLoader.MemoryStore

/-- The store with more generated files, given in the order in which they are stored. -/
def stored (store : MemoryStore) (artifacts : List Artifact) : MemoryStore :=
  { store with
    artifacts := artifacts.foldl
      (fun files artifact => files.insert artifact.fileName artifact.contents) store.artifacts }

/-- The first file that a store refuses. -/
def refused? (denied : List String) (artifacts : List Artifact) : Option Artifact :=
  artifacts.find? fun artifact => artifact.fileName ∈ denied

/-- The files before the first one that a store refuses. -/
def admitted (denied : List String) (artifacts : List Artifact) : List Artifact :=
  artifacts.takeWhile fun artifact => artifact.fileName ∉ denied

theorem stored_append (store : MemoryStore) (first second : List Artifact) :
    store.stored (first ++ second) = (store.stored first).stored second := by
  simp only [stored, List.foldl_append]

@[simp] theorem denied_stored (store : MemoryStore) (artifacts : List Artifact) :
    (store.stored artifacts).denied = store.denied := rfl

/-- The last of the stored files of a name counts; without one the old file stays. -/
theorem artifact?_stored (store : MemoryStore) (artifacts : List Artifact) (name : String) :
    (store.stored artifacts).artifact? name =
      (((artifacts.filter fun artifact => artifact.fileName = name).getLast?).map
        Artifact.contents).or (store.artifact? name) :=
  OrderedMap.get?_foldl_insert Artifact.fileName Artifact.contents artifacts store.artifacts name

theorem refused?_eq_none_iff {denied : List String} {artifacts : List Artifact} :
    refused? denied artifacts = none ↔ ∀ artifact ∈ artifacts, artifact.fileName ∉ denied := by
  simp [refused?]

/-- If names tell the files that are stored, it does not matter in which order and how often
they are stored. -/
theorem artifact?_stored_congr (store : MemoryStore) {first second : List Artifact}
    (distinct : ∀ artifact ∈ first, ∀ other ∈ first,
      artifact.fileName = other.fileName → artifact = other)
    (same : ∀ artifact, artifact ∈ first ↔ artifact ∈ second) (name : String) :
    (store.stored first).artifact? name = (store.stored second).artifact? name := by
  have last : (first.filter fun artifact => artifact.fileName = name).getLast? =
      (second.filter fun artifact => artifact.fileName = name).getLast? := by
    cases found : (first.filter fun artifact => artifact.fileName = name).getLast? with
    | none =>
      rw [List.getLast?_eq_none_iff, List.filter_eq_nil_iff] at found
      refine (List.getLast?_eq_none_iff.2 (List.filter_eq_nil_iff.2 ?_)).symm
      exact fun artifact member => found artifact ((same artifact).2 member)
    | some artifact =>
      obtain ⟨member, named⟩ := List.mem_filter.1 (List.mem_of_getLast? found)
      have own : artifact ∈ second.filter fun artifact => artifact.fileName = name :=
        List.mem_filter.2 ⟨(same artifact).1 member, named⟩
      have foundAgain := List.getLast?_eq_some_getLast (List.ne_nil_of_mem own)
      generalize (second.filter _).getLast _ = other at foundAgain
      obtain ⟨memberAgain, namedAgain⟩ := List.mem_filter.1 (List.mem_of_getLast? foundAgain)
      have equal := distinct artifact member other ((same other).2 memberAgain)
        ((of_decide_eq_true named).trans (of_decide_eq_true namedAgain).symm)
      rw [foundAgain, equal]
  rw [artifact?_stored, artifact?_stored, last]

/-- Stores that hold the same files list them alike. -/
theorem sortedArtifacts_eq {first second : MemoryStore}
    (same : ∀ name, first.artifact? name = second.artifact? name) :
    first.sortedArtifacts = second.sortedArtifacts := by
  have transitive (a b c : String × String) (left : decide (a.1 ≤ b.1) = true)
      (right : decide (b.1 ≤ c.1) = true) : decide (a.1 ≤ c.1) = true :=
    decide_eq_true (String.le_trans (of_decide_eq_true left) (of_decide_eq_true right))
  have total (a b : String × String) : (decide (a.1 ≤ b.1) || decide (b.1 ≤ a.1)) = true := by
    rw [Bool.or_eq_true, decide_eq_true_eq, decide_eq_true_eq]
    exact String.le_total a.1 b.1
  have perm : first.sortedArtifacts.Perm second.sortedArtifacts :=
    ((List.mergeSort_perm _ _).trans (OrderedMap.perm_entries_of_get?_eq same)).trans
      (List.mergeSort_perm _ _).symm
  refine perm.eq_of_pairwise ?_ (List.pairwise_mergeSort transitive total _)
    (List.pairwise_mergeSort transitive total _)
  intro a b memberLeft memberRight below above
  have name : a.1 = b.1 :=
    String.le_antisymm (of_decide_eq_true below) (of_decide_eq_true above)
  have left := OrderedMap.mem_entries_iff.1 (List.mem_mergeSort.1 memberLeft)
  have right := OrderedMap.mem_entries_iff.1 (List.mem_mergeSort.1 memberRight)
  have contents : some a.2 = some b.2 := by
    rw [← left, ← right, name]
    exact same b.1
  exact Prod.ext name (Option.some.inj contents)

variable (inputs store : MemoryStore)

@[simp] theorem run_present (name : String) :
    (inputs.workspace.present name).run store = (store.artifacts.contains name, store) := rfl

/-- A write either changes the store or fails and leaves it as it was. -/
theorem run_write (name contents : String) :
    (inputs.workspace.write name contents).run store =
      match store.write name contents with
      | .ok changed => (.ok (), changed)
      | .error fault => (.error fault, store) := rfl

/-- A write to a denied name fails with that name and changes nothing. -/
theorem run_write_of_denied (artifact : Artifact) (denied : artifact.fileName ∈ store.denied) :
    (inputs.workspace.write artifact.fileName artifact.contents).run store =
      (.error (.deniedWrite artifact.fileName), store) := by
  rw [run_write, write, if_pos denied]

/-- A write to a name that is not denied stores the artifact. -/
theorem run_write_of_admitted (artifact : Artifact)
    (admitted : artifact.fileName ∉ store.denied) :
    (inputs.workspace.write artifact.fileName artifact.contents).run store =
      (.ok (), store.stored [artifact]) := by
  rw [run_write, write, if_neg admitted]
  rfl

/-- Nothing but storing a file changes a store, and a refused file does not. -/
theorem steady_workspace : inputs.workspace.Steady where
  read _ _ := rfl
  present _ _ := rfl
  say _ _ := rfl
  refused name contents state fault refused := by
    by_cases denied : name ∈ state.denied
    · have unchanged := run_write_of_denied inputs state ⟨.header, name, contents⟩ denied
      exact congrArg Prod.snd unchanged
    · have stored := run_write_of_admitted inputs state ⟨.header, name, contents⟩ denied
      cases refused.symm.trans (congrArg Prod.fst stored)

/-- A read succeeds exactly for the resources the inputs have. -/
theorem readAt_eq_ok_iff {name text : String} :
    inputs.workspace.readAt store name = .ok text ↔ inputs.resources.get? name = some text := by
  change inputs.read name = .ok text ↔ _
  unfold read
  cases inputs.resources.get? name <;> simp

/-- A write succeeds exactly for the names that are not denied. -/
theorem writeAt_eq_ok_iff {name contents : String} :
    inputs.workspace.writeAt store name contents = .ok () ↔ name ∉ store.denied := by
  by_cases denied : name ∈ store.denied
  · have refused := run_write_of_denied inputs store ⟨.header, name, contents⟩ denied
    rw [Workspace.writeAt, refused]
    simp [denied]
  · have stored := run_write_of_admitted inputs store ⟨.header, name, contents⟩ denied
    rw [Workspace.writeAt, stored]
    simp [denied]

end ExtensionLoader.MemoryStore
