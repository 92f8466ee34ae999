import Suspension.Coroutine.Basic

/-!
# Scripted coroutines

Coroutines whose bodies are given as data: on its k-th run a coroutine performs the k-th of its
scripts, a list of actions on the ambient stack and of nested runs, and ends as the script says.
This is the coroutine discipline without a machine: everything that can happen between the
coroutines of a family, and nothing else.
-/

namespace Suspension

namespace Script

variable {α : Type}

/-- The actions of a body that do not end it. -/
inductive Action (α : Type) where
  | stack (op : FrameStack.Op α)
  | isOwned
  | run (id : CoroutineId)
  | active
  | state (id : CoroutineId)
deriving Repr

/-- How a body ends. -/
inductive Ending where
  | returns
  | suspends
  | suspendsWrapped
  | fails (text : Text)
  | breaks
deriving DecidableEq, Repr

/-- One run of a body. -/
structure Body (α : Type) where
  actions : List (Action α) := []
  ending : Ending := .returns
deriving Repr

/-- What a run of a coroutine came to. -/
inductive RunResult where
  | ok
  | error (text : Text)
  | broken
deriving DecidableEq, Repr

/-- What an action leaves in the trace. -/
inductive Trace (α : Type) where
  | stack (a : FrameStack.Answer α)
  | owned (b : Bool)
  | ran (id : CoroutineId) (r : RunResult)
  | active (id : Option CoroutineId)
  | state (s : CoroutineState)
deriving Repr

/-- The coroutines, the scripts that each has still to perform, and the trace, latest first. -/
structure Family (α : Type) where
  world : Coroutines α
  scripts : Array (List (Body α))
  trace : List (Trace α) := []

/-- A fault with which a body ends; `none` is a normal return. -/
def Ending.fault? : Ending → Option Fault
  | returns => none
  | suspends => some (.condition .suspend)
  | suspendsWrapped => some (.context "wrapped" (.condition .suspend))
  | fails t => some (.plain t)
  | breaks => none

/-- Whether a body's end parks the coroutine. -/
def Ending.isSuspension (e : Ending) : Bool :=
  match e.fault? with
  | some f => Fault.isOrWraps (fun _ => false) (.condition .suspend) f
  | none => false

/-- What the caller of a run sees of a body's end. -/
def Ending.result (e : Ending) : RunResult :=
  if e == .breaks then .broken
  else if e.isSuspension then .ok
  else
    match e.fault? with
    | some f => .error f.text
    | none => .ok

variable [Inhabited α]

/-- An operation on a stack of the world; a stack that does not exist is misused. -/
def onStack (w : Coroutines α) (id : Option StackId) (op : FrameStack.Op α) :
    FrameStack.Answer α × Coroutines α :=
  match id with
  | none => (.misuse, w)
  | some i => w.onStack i op

/-- Whether a stack belongs to a coroutine. -/
def isOwned (w : Coroutines α) (id : Option StackId) : Bool :=
  ((id.bind (w.frameStacks[·]?)).bind (·.owner)).isSome

/-- The next script of a coroutine, taken off. -/
def Family.nextBody (f : Family α) (id : CoroutineId) : Body α × Family α :=
  match f.scripts[id]? with
  | some (b :: rest) => (b, { f with scripts := f.scripts.set! id rest })
  | _ => ({}, f)

/-- One more item in the trace. -/
def Family.record (f : Family α) (t : Trace α) : Family α := { f with trace := t :: f.trace }

mutual

/-- **Running a coroutine.**  Only a coroutine that is not running can be entered, so runs nest no
deeper than there are coroutines, and that many levels of fuel suffice. -/
def run : Nat → Family α → CoroutineId → RunResult × Family α
  | 0, f, _ => (.broken, f)
  | fuel + 1, f, id =>
    let before := f.world.ambient
    match f.world.begin? id with
    | .error c => (.error c.message, f)
    | .ok w =>
      let (body, f) := ({ f with world := w }).nextBody id
      let f := perform fuel f body.actions
      (body.ending.result,
        { f with world := f.world.leave id before body.ending.isSuspension })

/-- Performing actions in order. -/
def perform : Nat → Family α → List (Action α) → Family α
  | _, f, [] => f
  | fuel, f, a :: rest =>
    match a with
    | .stack op =>
      let (ans, w) := onStack f.world f.world.ambient op
      perform fuel (({ f with world := w }).record (.stack ans)) rest
    | .isOwned => perform fuel (f.record (.owned (isOwned f.world f.world.ambient))) rest
    | .run id =>
      let (r, f) := run fuel f id
      perform fuel (f.record (.ran id r)) rest
    | .active => perform fuel (f.record (.active f.world.active?)) rest
    | .state id => perform fuel (f.record (.state (f.world.stateOf id))) rest

end

/-- A run from outside, with fuel for every coroutine of the family. -/
def Family.run (f : Family α) (id : CoroutineId) : RunResult × Family α :=
  Script.run (f.world.coroutines.size + 1) f id

end Script

end Suspension
