import Suspension.Coroutine.Basic
import Suspension.Instrument.Class
import Suspension.ClassPath
import Suspension.Machine.Activation

/-!
# The state of a machine

Loaded classes, the heap, the coroutines, what was printed, and the thread that runs.  Everything that
happens in a machine is an `Exec`: it changes the state, and it may **stop** short of a result.

* `LoadedClass`, `LoadedMethod` — classes and methods ready to run.
* `Machine` — the state.
* `Exec` — actions on it; `Stop` — why an action ends early.
-/

namespace Suspension

/-- The identity of a loaded class: a class is loaded after its superclass and its interfaces, whose
numbers are therefore smaller. -/
abbrev ClassId := Nat

/-- A method of a loaded class. -/
structure LoadedMethod where
  owner : ClassId
  ownerName : Text
  method : Method
  body : Body
deriving Repr, Inhabited

/-- How far the static initialisation of a class has come. -/
inductive InitState where
  | fresh
  | begun
  | done
deriving DecidableEq, Repr, Inhabited

/-- **A loaded class.**  `fields` are the instance fields of the whole hierarchy; of methods with the
same key the one declared last is in front. -/
structure LoadedClass where
  file : Class
  super : Option ClassId := none
  interfaces : List ClassId := []
  fields : List Field := []
  methods : List (Text × LoadedMethod) := []
  statics : List (Text × Value) := []
  state : InitState := .fresh
deriving Repr, Inhabited

/-- What the machine keeps behind an object of one of its own classes. -/
inductive Payload where
  | none
  | builder (t : Text)
  | method (m : LoadedMethod)
  | stack (id : StackId)
  | coroutine (id : CoroutineId)
deriving Repr, Inhabited

/-- An object. -/
structure HeapObject where
  cls : ClassId
  fields : List (Text × Value) := []
  payload : Payload := .none
deriving Repr, Inhabited

/-- An array with its descriptor. -/
structure HeapArray where
  desc : Text
  elems : Array Value
deriving Repr, Inhabited

/-- A native method that the host supplies. -/
inductive HostMethod where
  | argument (index : Int)
  | fails (message : Text)
  | suspends
  | count
  | returns (v : Value)
deriving Repr, Inhabited

/-- **A machine.**  `depth` counts the activations of the thread that runs; object `n` is the `n`-th
one made, counting from 1. -/
structure Machine where
  path : ClassPath := {}
  instrumenter? : Option Instrumenter := none
  hierarchy : Hierarchy := {}
  maxDepth : Nat := 2048
  classes : Array LoadedClass := #[]
  objects : Array HeapObject := #[]
  arrays : Array HeapArray := #[]
  hostMethods : List (Text × HostMethod) := []
  printed : Array Text := #[]
  coroutines : Coroutines Value := {}
  runnables : Array ObjectId := #[]
  depth : Nat := 0
  canceled : Bool := false
deriving Inhabited

/-- **Why an action ends without a result**: a fault, an instruction that does not fit what it finds,
or no fuel. -/
inductive Stop where
  | fault (f : Fault)
  | crash
  | exhausted
deriving Repr, Inhabited

/-- An action on a machine. -/
abbrev Exec (α : Type) := ExceptT Stop (StateM Machine) α

namespace Exec

/-- Ends with a fault. -/
def fail {α : Type} (f : Fault) : Exec α := throw (.fault f)

/-- Ends because something is not as the code takes it to be. -/
def crash {α : Type} : Exec α := throw .crash

/-- A value that has to be there. -/
def require {α : Type} : Option α → Exec α
  | some a => pure a
  | none => crash

/-- An action with its fault as a value. -/
def attempt {α : Type} (x : Exec α) : Exec (Except Fault α) := do
  try
    return .ok (← x)
  catch
    | .fault f => return .error f
    | stop => throw stop

/-- The report of a crash. -/
def crashReport : Fault :=
  .report { phase := Phase.runtime, kind := FaultKind.typeMismatch,
            detail := "execution fault: malformed code" }

/-- **A crash becomes a fault here.** -/
def guarded {α : Type} (x : Exec α) : Exec α := do
  try x
  catch
    | .crash => fail crashReport
    | stop => throw stop

/-- An action and then another, however the first ends. -/
def andThen {α : Type} (x : Exec α) (after : Machine → Machine) : Exec α := do
  try
    let v ← x
    modify after
    return v
  catch stop =>
    modify after
    throw stop

end Exec

namespace Machine

/-! ## Classes -/

/-- The name of a loaded class. -/
def className (m : Machine) (id : ClassId) : Text :=
  ((m.classes[id]?).map (·.file.name)).getD []

/-- A loaded class by its name. -/
def classNamed? (m : Machine) (name : Text) : Option ClassId :=
  m.classes.findIdx? (·.file.name == name)

/-- Whether a class reaches a name through its superclasses and interfaces.  Each of them has a
smaller number, so `n + 1` levels of fuel suffice for class `n`. -/
def reaches (cs : Array LoadedClass) (name : Text) : Nat → ClassId → Bool
  | 0, _ => false
  | fuel + 1, id =>
    match cs[id]? with
    | none => false
    | some c =>
      c.file.name == name
        || c.interfaces.any (reaches cs name fuel)
        || match c.super with
          | some s => reaches cs name fuel s
          | none => false

/-- **Whether a class is another class**, extends it or implements it. -/
def isSubclass (m : Machine) (id : ClassId) (name : Text) : Bool :=
  name == ClassName.object || reaches m.classes name (id + 1) id

/-- What the first class with an answer says, from a class up through its superclasses. -/
def upward {β : Type} (cs : Array LoadedClass) (f : LoadedClass → Option β) :
    Nat → ClassId → Option β
  | 0, _ => none
  | fuel + 1, id =>
    match cs[id]? with
    | none => none
    | some c =>
      (f c).or (match c.super with
        | some s => upward cs f fuel s
        | none => none)

/-- **The method that a class has**, declared or inherited. -/
def findMethod (m : Machine) (id : ClassId) (name desc : Text) : Option LoadedMethod :=
  upward m.classes (·.methods.lookup (name ++ desc)) (id + 1) id

/-- A method declared by an interface of a class or of its superclasses. -/
def interfaceMethod (cs : Array LoadedClass) (key : Text) : Nat → ClassId → Option LoadedMethod
  | 0, _ => none
  | fuel + 1, id =>
    match cs[id]? with
    | none => none
    | some c =>
      (c.interfaces.findSome? fun i =>
        (upward cs (·.methods.lookup key) (i + 1) i).or (interfaceMethod cs key fuel i)).or
      (match c.super with
        | some s => interfaceMethod cs key fuel s
        | none => none)

/-- The method that a call on an object of a class selects. -/
def selectMethod (m : Machine) (id : ClassId) (name desc : Text) : Option LoadedMethod :=
  (m.findMethod id name desc).or (interfaceMethod m.classes (name ++ desc) (id + 1) id)

/-- The class that declares a static field, looked for upward from a class. -/
def staticOwner (cs : Array LoadedClass) (name : Text) : Nat → ClassId → Option ClassId
  | 0, _ => none
  | fuel + 1, id =>
    match cs[id]? with
    | none => none
    | some c =>
      if (c.statics.lookup name).isSome then some id
      else
        match c.super with
        | some s => staticOwner cs name fuel s
        | none => none

/-! ## Objects -/

/-- An association list with the value of one name exchanged. -/
def putName {β : Type} (name : Text) (v : β) : List (Text × β) → List (Text × β)
  | [] => [(name, v)]
  | (n, w) :: rest => if n == name then (n, v) :: rest else (n, w) :: putName name v rest

/-- An object by its identity. -/
def object? (m : Machine) (id : ObjectId) : Option HeapObject :=
  match id with
  | 0 => none
  | n + 1 => m.objects[n]?

/-- An object changed. -/
def modifyObject (m : Machine) (id : ObjectId) (f : HeapObject → HeapObject) : Machine :=
  { m with objects := m.objects.modify (id - 1) f }

/-- The class of an object. -/
def classOf (m : Machine) (id : ObjectId) : ClassId := ((m.object? id).map (·.cls)).getD 0

/-- The message of an exception; empty unless its field holds a string. -/
def messageOf (m : Machine) (id : ObjectId) : Text :=
  match (m.object? id).bind (·.fields.lookup (Text.ofString "message")) with
  | some (.text t) => t
  | _ => []

/-- The wording of an exception that nothing has caught. -/
def describeException (m : Machine) (id : ObjectId) : Text :=
  let name := m.className (m.classOf id)
  let message := m.messageOf id
  Text.ofString "uncaught " ++ name
    ++ (if message.isEmpty then [] else Text.ofString ": " ++ message)

/-- Whether an exception is the suspend signal. -/
def isSignal (m : Machine) (id : ObjectId) : Bool :=
  m.isSubclass (m.classOf id) ClassName.suspendSignal

/-- The wording of a fault. -/
def wording (m : Machine) (f : Fault) : Text := f.message m.describeException

/-- **Whether a fault carries the suspend signal.** -/
def isSuspension (m : Machine) (f : Fault) : Bool :=
  Fault.isOrWraps m.isSignal (.condition .suspend) f

end Machine

namespace Exec

/-- **A new object**, its fields zero. -/
def allocate (id : ClassId) (payload : Payload) : Exec ObjectId :=
  modifyGet fun m =>
    let fields := match m.classes[id]? with
      | some c => c.fields.foldl (fun acc f => Machine.putName f.name (Value.zero f.desc) acc) []
      | none => []
    (m.objects.size + 1, { m with objects := m.objects.push { cls := id, fields, payload } })

/-- An object that has to be there. -/
def object (v : Value) : Exec (ObjectId × HeapObject) := do
  match v with
  | .object id => return (id, ← require ((← get).object? id))
  | _ => crash

/-- What the machine keeps behind an object. -/
def payload (v : Value) : Exec Payload := do return (← object v).2.payload

/-- A field set. -/
def setField (id : ObjectId) (name : Text) (v : Value) : Exec Unit :=
  modify (·.modifyObject id fun o => { o with fields := Machine.putName name v o.fields })

/-- What the machine keeps behind an object, set. -/
def setPayload (id : ObjectId) (p : Payload) : Exec Unit :=
  modify (·.modifyObject id fun o => { o with payload := p })

/-- An operation on a frame stack; misuse is a crash. -/
def onStack (id : StackId) (op : FrameStack.Op Value) : Exec (FrameStack.Answer Value) := do
  let a ← modifyGet fun m =>
    let (a, w) := m.coroutines.onStack id op
    (a, { m with coroutines := w })
  match a with
  | .misuse => crash
  | a => return a

end Exec

end Suspension
