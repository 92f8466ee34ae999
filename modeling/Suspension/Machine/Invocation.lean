import Suspension.Machine.Loading

/-!
# Running code from within

The actions that run methods: starting a class, raising an exception, calling a method on a value,
writing a value as text, calling by reflection, running a coroutine.  How a method is called is a
parameter of each of them, a `Caller`; the machine's own caller is built in
`Suspension.Machine.Execution`.
-/

namespace Suspension

/-- How a method is called: the receiver of an instance method is the first argument. -/
abbrev Caller := LoadedMethod → List Value → Exec Value

namespace Exec

/-- Marks how far the static initialisation of a class has come. -/
def setInitState (id : ClassId) (s : InitState) : Exec Unit :=
  modify fun m => { m with classes := m.classes.modify id fun c => { c with state := s } }

/-- Static initialisation with fuel for the superclasses. -/
def startWithin (call : Caller) : Nat → ClassId → Exec Unit
  | 0, _ => throw .exhausted
  | fuel + 1, id => do
    let c ← require ((← get).classes[id]?)
    if c.state != .fresh then return ()
    setInitState id .begun
    match c.super with
    | some s => startWithin call fuel s
    | none => pure ()
    match c.methods.lookup (Text.ofString "<clinit>()V") with
    | some m => let _ ← call m []
    | none => pure ()
    setInitState id .done

/-- **Static initialisation**, superclasses first, once for each class.  A superclass has a smaller
number than its subclass. -/
def start (call : Caller) (id : ClassId) : Exec Unit := startWithin call (id + 1) id

/-- A class by its name, loaded and initialised. -/
def startClass (call : Caller) (name : Text) : Exec ClassId := do
  let id ← loadClass name
  start call id
  return id

/-- A new exception with its message. -/
def newException (call : Caller) (cls message : Text) : Exec ObjectId := do
  let id ← allocate (← startClass call cls) .none
  if !message.isEmpty then setField id "message" (.text message)
  return id

/-- **Raising an exception.** -/
def raise {α : Type} (call : Caller) (cls message : Text) : Exec α := do
  fail (.thrown (← newException call cls message))

/-- Raising an exception for a fault, whose wording is its message. -/
def raiseFor {α : Type} (call : Caller) (cls : Text) (cause : Fault) : Exec α := do
  let message := (← get).wording cause
  fail (.thrownFor (← newException call cls message) cause)

/-- **The method that a call on a value selects.** -/
def selectMethod (call : Caller) (recv : Value) (name desc : Text) : Exec LoadedMethod := do
  if recv.isNull then
    raise call "core/NullPointerException"
      (Text.ofString "invoke " ++ name ++ Text.ofString " on null")
  let cls ← classOf recv
  let m ← get
  match m.selectMethod cls name desc with
  | some x => return x
  | none =>
    fail (.notFound Phase.runtime "method"
      (m.className cls ++ Text.ofString "." ++ name ++ desc))

/-- **Calling a method on a value**; code that crashes in it is a fault. -/
def callOn (call : Caller) (recv : Value) (name desc : Text) (args : List Value) : Exec Value :=
  guarded do
    let m ← selectMethod call recv name desc
    call m (recv :: args)

/-- **A value as text**, the way it is printed.  An object is asked for its own text. -/
def textOf (call : Caller) (v : Value) : Exec Text := do
  match v with
  | .null => return "null"
  | .text t => return t
  | .int x => return Text.ofInt x.toInt
  | .long x => return Text.ofInt x.toInt
  | .float b => return FloatFormat.single.printed b.toNat
  | .double b => return FloatFormat.double.printed b.toNat
  | .array id => return (← require ((← get).arrays[id]?)).desc ++ Text.ofString "@" ++ Text.hex id
  | .object _ =>
    match ← callOn call v "toString" "()Lcore/String;" [] with
    | .text t => return t
    | _ => return []

/-! ## Reflection -/

/-- The arguments of a call by reflection as parameters of their types, from the `i`-th on. -/
def passAll (call : Caller) : Nat → List Text → List Value → Exec (List Value)
  | i, p :: ps, v :: vs => do
    match Value.passedAs (Descriptor.kind? p) v with
    | some w => return w :: (← passAll call (i + 1) ps vs)
    | none =>
      raise call "core/IllegalArgumentException"
        (Text.ofString "argument " ++ Text.ofNat i ++ Text.ofString " does not match " ++ p)
  | _, _, _ => return []

/-- The receiver of a call by reflection, as a list; a static method has none. -/
def reflectedReceiver (call : Caller) (target : LoadedMethod) (recv : Value) :
    Exec (List Value) := do
  if target.method.isStatic then return []
  if recv.isNull then
    raise call "core/NullPointerException"
      (Text.ofString "invoke " ++ target.method.name ++ Text.ofString " on null")
  if !(← isInstance recv target.ownerName) then
    raise call "core/IllegalArgumentException"
      (Text.ofString "receiver is not an instance of " ++ target.ownerName)
  return [recv]

/-- What a fault of a method called by reflection becomes: an exception is wrapped in another one,
unless it is the suspend signal and that one is let through. -/
def reflectedFault (call : Caller) (passSignal : Bool) (f : Fault) : Exec Value := do
  match f.exception? with
  | none => fail f
  | some (obj, _) =>
    if passSignal && (← get).isSuspension f then fail f
    let id ← allocate (← startClass call "core/reflect/InvocationTargetException") .none
    setField id "cause" (.object obj)
    fail (.thrownFor id f)

/-- **A call by reflection.** -/
def reflectCall (call : Caller) (method recv argArray : Value) (passSignal : Bool) :
    Exec Value := do
  match method with
  | .object _ =>
    match ← payload method with
    | .method target =>
      let receiver ← reflectedReceiver call target recv
      let given ← match argArray with
        | .array id => pure (← require ((← get).arrays[id]?)).elems.toList
        | _ => pure []
      match Descriptor.parseMethod target.method.desc with
      | .error e => fail (.plain e.message)
      | .ok d =>
        if given.length != d.params.length then
          raise call "core/IllegalArgumentException" "wrong number of arguments"
        let passed ← passAll call 0 d.params given
        let callee ← if target.method.isStatic || target.method.name == Text.ofString "<init>" then
            pure target
          else selectMethod call recv target.method.name target.method.desc
        match ← attempt (call callee (receiver ++ passed)) with
        | .ok v => return v
        | .error f => reflectedFault call passSignal f
    | _ => crash
  | _ => raise call "core/NullPointerException" "invoke of null method"

/-- A method by reflection, as an object. -/
def reflectLookup (call : Caller) (owner name desc : Text) : Exec Value := do
  match ← attempt (startClass call owner) with
  | .error f => raiseFor call "core/IllegalArgumentException" f
  | .ok c =>
    match (← get).findMethod c name desc with
    | none =>
      raise call "core/IllegalArgumentException"
        (Text.ofString "no method " ++ owner ++ Text.ofString "." ++ name ++ desc)
    | some target =>
      let cls ← startClass call reflectedMethod
      return .object (← allocate cls (.method target))

/-! ## Coroutines -/

/-- A new coroutine that runs an object; a stack size that cannot be had is a crash. -/
def addCoroutine (runnable : ObjectId) (size : Int) (name : Text) : Exec CoroutineId := do
  let m ← get
  let (id, w) ← require (m.coroutines.add? size name)
  set { m with coroutines := w, runnables := m.runnables.push runnable }
  return id

/-- Leaves a coroutine. -/
def leaveCoroutine (id : CoroutineId) (before : Option StackId) (suspended : Bool) : Exec Unit :=
  modify fun m => { m with coroutines := m.coroutines.leave id before suspended }

/-- **Starting or resuming a coroutine.**  It suspends when what leaves its method carries the suspend
signal. -/
def runCoroutine (call : Caller) (id : CoroutineId) : Exec Unit := do
  let m ← get
  let before := m.coroutines.ambient
  let runnable := Value.object (m.runnables.getD id 0)
  match m.coroutines.begin? id with
  | .error c => fail (.condition c)
  | .ok w =>
    set { m with coroutines := w }
    try
      let _ ← callOn call runnable "run" "()V" []
      leaveCoroutine id before false
    catch
      | .fault f =>
        let suspended := (← get).isSuspension f
        leaveCoroutine id before suspended
        if !suspended then fail f
      | stop =>
        leaveCoroutine id before false
        throw stop

end Exec

end Suspension
