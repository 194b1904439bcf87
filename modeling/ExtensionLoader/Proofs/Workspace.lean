import ExtensionLoader.Workspace

/-! # Steady workspaces

A run works on any workspace. Most that can be said of it holds where nothing but storing a file
changes anything, and where a file that cannot be stored changes nothing either. In such a workspace
the answers to reading and asking, in one state, can be told apart from the state itself.
-/

namespace ExtensionLoader.Workspace

variable {σ : Type}

theorem run_bind {α β : Type} (first : StateM σ α) (next : α → StateM σ β) (state : σ) :
    (first >>= next).run state = (next (first.run state).1).run (first.run state).2 := rfl

variable (workspace : Workspace (StateM σ)) (state : σ)

/-- What reading an input gives in a state. -/
def readAt (name : String) : Except Fault String := ((workspace.read name).run state).1

/-- Whether a file is there in a state. -/
def presentAt (name : String) : Bool := ((workspace.present name).run state).1

/-- Whether a file can be stored in a state. -/
def writeAt (name contents : String) : Except Fault Unit :=
  ((workspace.write name contents).run state).1

/-- Only a file that is stored changes the state. -/
structure Steady : Prop where
  read : ∀ name state, ((workspace.read name).run state).2 = state
  present : ∀ name state, ((workspace.present name).run state).2 = state
  say : ∀ message state, ((workspace.say message).run state).2 = state
  refused : ∀ name contents state fault, workspace.writeAt state name contents = .error fault →
    ((workspace.write name contents).run state).2 = state

namespace Steady

variable {workspace}
variable (steady : workspace.Steady)
include steady

theorem run_read (name : String) :
    (workspace.read name).run state = (workspace.readAt state name, state) :=
  Prod.ext rfl (steady.read name state)

/-- Asking whether a file is there changes no state. -/
theorem run_present (name : String) :
    (workspace.present name).run state = (workspace.presentAt state name, state) :=
  Prod.ext rfl (steady.present name state)

/-- What is logged changes no state. -/
theorem run_sayAll (messages : List LogMessage) :
    (workspace.sayAll messages).run state = ((), state) := by
  induction messages with
  | nil => rfl
  | cons message rest ih =>
    rw [sayAll, run_bind, steady.say]
    exact ih

/-- A write that fails changes no state. -/
theorem run_write_of_error {name contents : String} {fault : Fault}
    (refused : workspace.writeAt state name contents = .error fault) :
    (workspace.write name contents).run state = (.error fault, state) :=
  Prod.ext refused (steady.refused name contents state fault refused)

end Steady

end ExtensionLoader.Workspace
