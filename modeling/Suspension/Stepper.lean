import Suspension.Workspace

/-!
# Stepping through a coroutine

A coroutine run by hand: **each step resumes it until it suspends or finishes**, and in between its
saved frames and what it has printed can be looked at.  Starting over makes a new machine.

* `Stepper` — the state; `Stepper.begin` starts the coroutine.
* `Stepper.handle` — one event: the window was sized, or a key was pressed.
* `Stepper.frames?`, `Stepper.state?`, `Stepper.output?` — what there is to see.
-/

namespace Suspension

/-- **The state of a stepper.**  There is no machine before the first start, and no coroutine when its
object could not be made.  It is broken when there is no frame stack of the size asked for. -/
structure Stepper where
  workspace : Workspace
  cls : Text
  stackSize : Int
  plain : Bool
  machine? : Option Machine := none
  coroutine? : Option CoroutineId := none
  runs : Nat := 0
  fault? : Option Text := none
  isReady : Bool := false
  hasQuit : Bool := false
  isBroken : Bool := false
deriving Inhabited

namespace Stepper

/-- What happens to a stepper. -/
inductive Event where
  | sized
  | key (name : Text)
deriving DecidableEq, Repr

/-- The keys that resume the coroutine. -/
def stepKeys : List Text := ["n", " ", "enter"]

/-- The keys that start over. -/
def restartKeys : List Text := ["r"]

/-- The keys that leave. -/
def quitKeys : List Text := ["q", "ctrl+c"]

/-- **Starts the coroutine on a new machine.** -/
def begin (s : Stepper) : Stepper :=
  let (r, m) := (Machine.startCoroutine s.cls s.stackSize).run (s.workspace.machine s.plain)
  let s := { s with machine? := some m, runs := 0 }
  match r with
  | .ok id => { s with coroutine? := some id, fault? := none }
  | .error .crash => { s with isBroken := true }
  | .error stop => { s with fault? := some (m.describeStop stop) }

/-- The state of the coroutine. -/
def state? (s : Stepper) : Option CoroutineState := do
  return (← s.machine?).coroutines.stateOf (← s.coroutine?)

/-- **Resumes the coroutine**, unless it has finished. -/
def step (s : Stepper) : Stepper :=
  match s.machine?, s.coroutine? with
  | some m, some id =>
    if m.coroutines.stateOf id == .finished then { s with fault? := none }
    else
      let (r, m) := (Machine.resume id).run m
      { s with
        machine? := some m
        runs := s.runs + 1
        fault? := match r with
          | .ok () => none
          | .error stop => some (m.describeStop stop) }
  | _, _ => { s with fault? := none }

/-- **One event.**  Other keys do nothing here. -/
def handle (s : Stepper) : Event → Stepper
  | .sized => { s with isReady := true }
  | .key name =>
    if quitKeys.contains name then { s with hasQuit := true }
    else if stepKeys.contains name then s.step
    else if restartKeys.contains name then s.begin
    else s

/-- The listing of the saved frames, when there is a coroutine. -/
def frames? (s : Stepper) : Option Text := do
  let m ← s.machine?
  return m.describeFrames (m.framesOf (← s.coroutine?))

/-- What the coroutine has printed since it was started. -/
def output? (s : Stepper) : Option Text := s.machine?.map (·.output)

end Stepper

end Suspension
