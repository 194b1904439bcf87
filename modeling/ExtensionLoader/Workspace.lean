import ExtensionLoader.Fault
import ExtensionLoader.Log
import ExtensionLoader.OrderedMap

/-! # Workspaces

A run reads its inputs from a workspace and stores generated files in it. It asks for
nothing else, so the same run works on real directories, on a modelled file tree and
on a store in memory (`MemoryStore`).
-/

namespace ExtensionLoader

/-- What a run can do to the world around it. -/
structure Workspace (m : Type → Type) where
  read : String → m (Except Fault String)
  /-- Whether a generated file of this name is stored. -/
  present : String → m Bool
  write : (name contents : String) → m (Except Fault Unit)
  /-- Say what the run does. -/
  say : LogMessage → m Unit

namespace Workspace

variable {m : Type → Type} [Monad m]

/-- Say several things, in order. -/
def sayAll (workspace : Workspace m) : List LogMessage → m Unit
  | [] => pure ()
  | message :: rest => do
    workspace.say message
    sayAll workspace rest

/-- The same workspace, which also writes down what the run says. -/
def recorded (workspace : Workspace m) : Workspace (StateT (List LogMessage) m) where
  read name := StateT.lift (workspace.read name)
  present name := StateT.lift (workspace.present name)
  write name contents := StateT.lift (workspace.write name contents)
  say message := do
    modify fun said => said ++ [message]
    StateT.lift (workspace.say message)

end Workspace

/-- Resources and generated files that are kept in memory. -/
structure MemoryStore where
  resources : OrderedMap String String := .empty
  artifacts : OrderedMap String String := .empty
  /-- The names under which nothing can be stored. -/
  denied : List String := []

namespace MemoryStore

/-- Read a resource; a name without a text cannot be read. -/
def read (store : MemoryStore) (name : String) : Except Fault String :=
  match store.resources.get? name with
  | some text => .ok text
  | none => .error (.unreadableResource name .noResource)

/-- The text stored under an artifact's name, where one is. -/
def artifact? (store : MemoryStore) (name : String) : Option String := store.artifacts.get? name

/-- Store a generated file, unless its name is denied. -/
def write (store : MemoryStore) (name contents : String) : Except Fault MemoryStore :=
  if name ∈ store.denied then .error (.deniedWrite name)
  else .ok { store with artifacts := store.artifacts.insert name contents }

/-- The generated files, sorted by their names. -/
def sortedArtifacts (store : MemoryStore) : List (String × String) :=
  store.artifacts.entries.mergeSort fun first second => decide (first.1 ≤ second.1)

/-- The workspace that reads from one store and stores its files in another. -/
def workspace (inputs : MemoryStore) : Workspace (StateM MemoryStore) where
  read name := pure (inputs.read name)
  present name := do return (← get).artifacts.contains name
  write name contents := fun store =>
    match store.write name contents with
    | .ok changed => pure (.ok (), changed)
    | .error fault => pure (.error fault, store)
  say _ := pure ()

end MemoryStore

end ExtensionLoader
