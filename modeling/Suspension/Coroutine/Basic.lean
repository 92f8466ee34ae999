import Suspension.Fault
import Suspension.FrameStack

/-!
# Coroutines

A coroutine runs a body against a frame stack of its own.  While it runs, that stack is the
**ambient** one, which transformed code saves its state in; on every way out the ambient stack of
before is put back.  A body that ends with the suspend signal parks the coroutine, and its stack is
rewound so that the next run resumes it; any other end finishes it for good.

The body is not part of this module: `Coroutines.begin?` and `Coroutines.leave` are what happens
before and after it.
-/

namespace Suspension

/-- The life of a coroutine. -/
inductive CoroutineState where
  | new
  | running
  | suspended
  | finished
deriving DecidableEq, Repr, Inhabited

/-- The name of a state. -/
def CoroutineState.name : CoroutineState → Text
  | new => "new"
  | running => "running"
  | suspended => "suspended"
  | finished => "finished"

/-- The identity of a frame stack. -/
abbrev StackId := Nat

/-- The identity of a coroutine. -/
abbrev CoroutineId := Nat

/-- A frame stack with the coroutine it belongs to; a detached stack belongs to none. -/
structure OwnedStack (α : Type) where
  frames : FrameStack α
  owner : Option CoroutineId := none
deriving Repr, Inhabited

/-- A coroutine: its state and its stack. -/
structure Coroutine where
  state : CoroutineState := .new
  stack : StackId
  name : Text := []
deriving DecidableEq, Repr, Inhabited

/-- **All coroutines and frame stacks of a world**, and the ambient stack of the thread that runs. -/
structure Coroutines (α : Type) where
  frameStacks : Array (OwnedStack α) := #[]
  coroutines : Array Coroutine := #[]
  ambient : Option StackId := none
deriving Repr, Inhabited

namespace Coroutines

variable {α : Type} [Inhabited α]

/-- A new stack that belongs to no coroutine. -/
def addStack (w : Coroutines α) : StackId × Coroutines α :=
  (w.frameStacks.size, { w with frameStacks := w.frameStacks.push { frames := {} } })

/-- A new coroutine with a stack of its own, unless there is no stack of that size. -/
def add? (w : Coroutines α) (size : Int) (name : Text) : Option (CoroutineId × Coroutines α) := do
  let frames ← FrameStack.ofSize? size
  let id := w.coroutines.size
  return (id, { w with
    frameStacks := w.frameStacks.push { frames, owner := some id }
    coroutines := w.coroutines.push { stack := w.frameStacks.size, name } })

/-- A stack by its identity. -/
def stack? (w : Coroutines α) (id : StackId) : Option (FrameStack α) :=
  (w.frameStacks[id]?).map (·.frames)

/-- A stack exchanged. -/
def setStack (w : Coroutines α) (id : StackId) (s : FrameStack α) : Coroutines α :=
  { w with frameStacks := w.frameStacks.modify id fun o => { o with frames := s } }

/-- **An operation on a stack**; a stack that does not exist is misused. -/
def onStack (w : Coroutines α) (id : StackId) (op : FrameStack.Op α) :
    FrameStack.Answer α × Coroutines α :=
  match w.stack? id with
  | none => (.misuse, w)
  | some s =>
    let (a, s) := s.apply op
    (a, w.setStack id s)

/-- A coroutine's state; a coroutine that does not exist counts as finished. -/
def stateOf (w : Coroutines α) (id : CoroutineId) : CoroutineState :=
  ((w.coroutines[id]?).map (·.state)).getD .finished

/-- A coroutine's state exchanged. -/
def setState (w : Coroutines α) (id : CoroutineId) (s : CoroutineState) : Coroutines α :=
  { w with coroutines := w.coroutines.modify id fun c => { c with state := s } }

/-- A coroutine's stack. -/
def stackOf (w : Coroutines α) (id : CoroutineId) : StackId :=
  ((w.coroutines[id]?).map (·.stack)).getD 0

/-- **The active coroutine**: the one that the ambient stack belongs to. -/
def active? (w : Coroutines α) : Option CoroutineId := do
  let id ← w.ambient
  let s ← w.frameStacks[id]?
  s.owner

/-- **Starting or resuming.**  A running or finished coroutine refuses; otherwise it is running and
its stack is the ambient one. -/
def begin? (w : Coroutines α) (id : CoroutineId) : Except Condition (Coroutines α) :=
  match w.stateOf id with
  | .running => .error .running
  | .finished => .error .finished
  | _ => .ok { w.setState id .running with ambient := some (w.stackOf id) }

/-- **After the body.**  The ambient stack of before is back; a suspended coroutine's stack is
rewound. -/
def leave (w : Coroutines α) (id : CoroutineId) (before : Option StackId) (suspended : Bool) :
    Coroutines α :=
  if suspended then
    let stack := w.stackOf id
    let w := match w.stack? stack with
      | some s => w.setStack stack s.rewind
      | none => w
    { w.setState id .suspended with ambient := before }
  else { w.setState id .finished with ambient := before }

end Coroutines

end Suspension
