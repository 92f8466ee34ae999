import Suspension.Machine.Execution

/-!
# Workspaces

The classes below some directories of a file tree, together with what the transformation may do to
them.  Commands and the stepper both work on a workspace: it gives the class path, the transformation
over it, and machines that run its classes.

* `Workspace.path`, `Workspace.instrumenter`, `Workspace.machine` — what a workspace gives.
* `Machine.startCoroutine` — a coroutine that runs a new object of a class.
* `Machine.describeStop` — the wording of an action that ended early.
-/

namespace Suspension

/-- **A workspace.** -/
structure Workspace where
  disk : FileTree := {}
  directories : List Text := [Path.here]
  corePrefixes : List Text := ({} : ClassSource).corePrefixes
  policy : Policy := {}
deriving Repr, Inhabited

namespace Workspace

/-- The class path of a workspace. -/
def path (w : Workspace) : ClassPath where
  directories := w.directories.map Path.clean
  disk := w.disk

/-- The transformation over the classes of a workspace. -/
def instrumenter (w : Workspace) : Instrumenter where
  source := w.path.source {} w.corePrefixes []
  policy := w.policy

/-- **A machine for the classes of a workspace**, which transforms them as they are loaded, or with
`plain` runs them as they are. -/
def machine (w : Workspace) (plain : Bool) : Machine where
  path := w.path
  instrumenter? := if plain then none else some w.instrumenter

end Workspace

namespace Machine

/-- **A coroutine that runs a new object of a class**, made by the constructor without arguments. -/
def startCoroutine (cls : Text) (stackSize : Int) : Exec CoroutineId := do
  let obj ← newObject cls "()V" []
  let (id, _) ← Exec.object obj
  Exec.addCoroutine id stackSize cls

/-- The wording of an action that ended early. -/
def describeStop (m : Machine) : Stop → Text
  | .fault f => m.wording f
  | .crash => m.wording Exec.crashReport
  | .exhausted => "out of fuel"

end Machine

end Suspension
