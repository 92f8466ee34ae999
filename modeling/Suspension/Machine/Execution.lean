import Suspension.Machine.Native

/-!
# Execution

Ties the parts of a machine together: an activation is stepped until it returns, its requests are
answered, and exceptions go to its handlers.

* `Exec.answer` — what a request comes to.
* `Exec.loop` — one activation from step to step.
* `Exec.call` — calling a method, with fuel for instructions and nested calls.
* `Machine.invoke`, `Machine.callOn`, `Machine.newObject`, `Machine.resume` — the ways into a machine.
-/

namespace Suspension

namespace Exec

/-! ## Requests -/

/-- An array that is accessed. -/
def arrayOf (call : Caller) (v : Value) : Exec (ArrayId × HeapArray) := do
  match v with
  | .array id => return (id, ← require ((← get).arrays[id]?))
  | _ => raise call "core/NullPointerException" "array access on null"

/-- An element of an array that is accessed: the array and the position. -/
def elementOf (call : Caller) (v : Value) (index : Int32) :
    Exec (ArrayId × HeapArray × Nat) := do
  let (id, a) ← arrayOf call v
  if index < 0 || a.elems.size ≤ index.toInt.toNat then
    raise call "core/ArrayIndexOutOfBoundsException"
      (Text.ofString "index " ++ Text.ofInt index.toInt
        ++ Text.ofString " out of bounds for length " ++ Text.ofNat a.elems.size)
  return (id, a, index.toInt.toNat)

/-- An object whose field is accessed. -/
def fieldOwner (call : Caller) (v : Value) (name : Text) : Exec (ObjectId × HeapObject) := do
  match v with
  | .object _ => object v
  | _ =>
    raise call "core/NullPointerException"
      (Text.ofString "field " ++ name ++ Text.ofString " of null")

/-- The class that holds a static field. -/
def staticOwner (call : Caller) (m : Member) : Exec ClassId := do
  let cls ← startClass call m.owner
  match Machine.staticOwner (← get).classes m.name (cls + 1) cls with
  | some id => return id
  | none =>
    fail (.notFound Phase.runtime "static field"
      (m.owner ++ Text.ofString "." ++ m.name))

/-- **The method that a call instruction selects.** -/
def calleeOf (call : Caller) (mode : InvokeMode) (m : Member) (args : List Value) :
    Exec LoadedMethod := do
  let found ← match mode with
    | .static =>
      let cls ← startClass call m.owner
      pure ((← get).findMethod cls m.name m.desc)
    | .special =>
      if (args.headD .null).isNull then
        raise call "core/NullPointerException"
          (Text.ofString "invoke " ++ m.name ++ Text.ofString " on null")
      let cls ← loadClass m.owner
      pure ((← get).findMethod cls m.name m.desc)
    | .virtual | .interface => some <$> selectMethod call (args.headD .null) m.name m.desc
  match found with
  | some x => return x
  | none => fail (.notFound Phase.runtime "method" m.target)

/-- A new object of a class; one that is abstract has none. -/
def create (call : Caller) (name : Text) : Exec Value := do
  let cls ← startClass call name
  let m ← get
  let flags := ((m.classes[cls]?).map (·.file.flags)).getD 0
  if Flag.has flags (Flag.abstractBit ||| Flag.interfaceBit) then
    raise call "core/IllegalStateException"
      (Text.ofString "cannot instantiate " ++ m.className cls)
  return .object (← allocate cls .none)

/-- A value that does not belong to a class it is cast to. -/
def castFailed (call : Caller) (v : Value) (cls : Text) : Exec (Option Value) := do
  let name ← match ← attempt (classOf v) with
    | .ok c => pure ((← get).className c)
    | .error _ => pure (Text.ofString "array")
  raise call "core/ClassCastException" (name ++ Text.ofString " cannot be cast to " ++ cls)

/-- Storing an element; a reference must belong to the array's element class. -/
def putElement (call : Caller) (k : Kind) (arr : Value) (index : Int32) (v : Value) :
    Exec Unit := do
  let (id, a, i) ← elementOf call arr index
  if k == .ref && !v.isNull then
    if !(← isInstance v (Descriptor.classOf (Descriptor.element a.desc))) then
      raise call "core/ClassCastException" "array store of incompatible element"
  modify fun m =>
    { m with arrays := m.arrays.modify id fun a => { a with elems := a.elems.set! i v } }

/-- **The answer to a request**: a value to push, or none. -/
def answer (call : Caller) (r : Request) : Exec (Option Value) := do
  match r with
  | .fail f => fail f
  | .raise cls message => raise call cls message
  | .throw obj => fail (.thrown obj)
  | .getStatic m =>
    let owner ← staticOwner call m
    return some ((((← get).classes[owner]?).bind (·.statics.lookup m.name)).getD .null)
  | .putStatic m v =>
    let owner ← staticOwner call m
    let v ← require v
    modify fun s => { s with classes := s.classes.modify owner fun c =>
      { c with statics := Machine.putName m.name v c.statics } }
    return none
  | .getField obj name =>
    let (_, o) ← fieldOwner call obj name
    return some ((o.fields.lookup name).getD .null)
  | .putField obj name v =>
    let (id, _) ← fieldOwner call obj name
    setField id name v
    return none
  | .getElement arr index =>
    let (_, a, i) ← elementOf call arr index
    return some (a.elems.getD i .null)
  | .putElement k arr index v =>
    putElement call k arr index v
    return none
  | .length arr =>
    let (_, a) ← arrayOf call arr
    return some (.int (Int32.ofNat a.elems.size))
  | .create cls => return some (← create call cls)
  | .createArray elem size =>
    let a : HeapArray :=
      { desc := Text.ofString "[" ++ elem
        elems := Array.replicate size.toInt.toNat (Value.zero elem) }
    return some (.array (← modifyGet fun m =>
      (m.arrays.size, { m with arrays := m.arrays.push a })))
  | .cast v cls => if ← isInstance v cls then return none else castFailed call v cls
  | .isInstance v cls => return some (.ofBool (← isInstance v cls))
  | .invoke mode m args isVoid =>
    let callee ← calleeOf call mode m args
    let v ← call callee args
    return if isVoid then none else some v

/-! ## Activations -/

/-- Where an activation goes on after a fault: at the handler that catches the fault's exception. -/
def handled (m : LoadedMethod) (a : Activation) (f : Fault) (s : Machine) : Option Activation :=
  match f.exception? with
  | none => none
  | some (obj, _) =>
    (m.body.handlerFor (s.isSubclass (s.classOf obj)) a.pc).map (a.caught · obj)

/-- The report of a body without an end. -/
def fellOff (m : LoadedMethod) : Fault :=
  .report { phase := Phase.runtime, kind := FaultKind.invalidData, cls := m.ownerName,
            method := m.method.key, detail := "fell off the end of the code" }

/-- **An activation from step to step**, until its method returns or something leaves it that it does
not catch. -/
def loop (call : Caller) (m : LoadedMethod) :
    Nat → Activation → Machine → Except Stop Value × Machine
  | 0, _, s => (.error .exhausted, s)
  | fuel + 1, a, s =>
    match a.step m.body with
    | .next a => loop call m fuel a s
    | .returns v => (.ok v, s)
    | .crash => (.error .crash, s)
    | .fellOff => (.error (.fault (fellOff m)), s)
    | .asks r a =>
      match (answer call r).run s with
      | (.ok v, s) => loop call m fuel (a.answered v) s
      | (.error (.fault f), s) =>
        match handled m a f s with
        | some a => loop call m fuel a s
        | none => (.error (.fault f), s)
      | (.error stop, s) => (.error stop, s)

/-- The implementation of a native method. -/
def runNative (call : Caller) (m : LoadedMethod) (args : List Value) : Exec Value := do
  let key := Native.key m.ownerName m.method.name m.method.desc
  match (← get).hostMethods.lookup key with
  | some h => h.run args
  | none =>
    match Native.table.lookup key with
    | some n => n.run call args
    | none => fail (.notFound Phase.runtime "native" key)

/-- **One call**, given how the calls within it are made and fuel for its instructions. -/
def callOnce (call : Caller) (fuel : Nat) (m : LoadedMethod) (args : List Value) :
    Exec Value := do
  let s ← get
  if s.canceled then fail (.condition .canceled)
  if m.method.isNative then runNative call m args
  else if m.method.isAbstract then
    fail (.report { phase := Phase.runtime, kind := FaultKind.state, cls := m.ownerName,
                    method := m.method.key, detail := "abstract method called" })
  else if s.maxDepth ≤ s.depth then raise call "core/StackOverflowError" []
  else
    modify fun s => { s with depth := s.depth + 1 }
    andThen (ExceptT.mk fun s => loop call m fuel (.enter m.method args) s)
      fun s => { s with depth := s.depth - 1 }

/-- **Calling a method.** -/
def call : Nat → Caller
  | 0, _, _ => throw .exhausted
  | fuel + 1, m, args => callOnce (call fuel) fuel m args

end Exec

/-! ## The ways into a machine -/

namespace Machine

/-- More instructions and nested calls than any run has. -/
def fuel : Nat := 1000000000000000000

/-- The machine's way to call methods. -/
def caller : Caller := Exec.call fuel

/-- **Calling a static method** from outside.  A suspend signal that gets here has no coroutine to
suspend. -/
def invoke (cls name desc : Text) (args : List Value) : Exec Value := Exec.guarded do
  let id ← Exec.startClass caller cls
  match (← get).findMethod id name desc with
  | some m =>
    if m.method.isStatic then
      match ← Exec.attempt (caller m args) with
      | .ok v => return v
      | .error f =>
        if (← get).isSuspension f then
          Exec.fail (.caused
            { phase := Phase.runtime, kind := FaultKind.state, cls, method := name ++ desc,
              detail := "suspend signal escaped outside a coroutine" } f)
        else Exec.fail f
    else
      Exec.fail (.notFound Phase.runtime "static method"
        (cls ++ Text.ofString "." ++ name ++ desc))
  | none =>
    Exec.fail (.notFound Phase.runtime "static method"
      (cls ++ Text.ofString "." ++ name ++ desc))

/-- **Calling a method on a value** from outside. -/
def callOn (recv : Value) (name desc : Text) (args : List Value) : Exec Value :=
  Exec.callOn caller recv name desc args

/-- **Making an object** from outside: its constructor is run. -/
def newObject (cls desc : Text) (args : List Value) : Exec Value := Exec.guarded do
  let id ← Exec.startClass caller cls
  let obj ← Exec.allocate id .none
  match (← get).findMethod id "<init>" desc with
  | none =>
    Exec.fail (.notFound Phase.runtime "constructor"
      (cls ++ Text.ofString ".<init>" ++ desc))
  | some m =>
    let _ ← caller m (.object obj :: args)
    return .object obj

/-- **Starting or resuming a coroutine** from outside. -/
def resume (id : CoroutineId) : Exec Unit := Exec.runCoroutine caller id

/-- An action on a thread of its own, which ends with it. -/
def onFreshThread {α : Type} (x : Exec α) : Exec α := do
  let m ← get
  let ambient := m.coroutines.ambient
  let depth := m.depth
  set { m with depth := 0, coroutines := { m.coroutines with ambient := none } }
  Exec.andThen x fun m =>
    { m with depth, coroutines := { m.coroutines with ambient } }

/-- A native method of the host, in place of any of before. -/
def register (m : Machine) (owner name desc : Text) (h : HostMethod) : Machine :=
  { m with hostMethods := (Native.key owner name desc, h) :: m.hostMethods }

/-- The frames that a coroutine has saved. -/
def framesOf (m : Machine) (id : CoroutineId) : List (FrameRecord Value) :=
  ((m.coroutines.stack? (m.coroutines.stackOf id)).map (·.frames)).getD []

/-- Everything printed so far. -/
def output (m : Machine) : Text := m.printed.toList.flatten

/-! ## Descriptions -/

/-- A value in a listing. -/
def describeValue (m : Machine) : Value → Text
  | .null => "null"
  | .text t => Quoted.encode t
  | .object id => m.className (m.classOf id)
  | .array id =>
    let a := m.arrays.getD id default
    a.desc ++ Text.ofString "[" ++ Text.ofNat a.elems.size ++ Text.ofString "]"
  | .int v => Text.ofInt v.toInt
  | .long v => Text.ofInt v.toInt
  | .float b => FloatFormat.single.general b.toNat
  | .double b => FloatFormat.double.general b.toNat

/-- One line for each slot of a record. -/
def describeSlots (label : Text) (describe : Text → Text) (slots : List Text) : Text :=
  slots.zipIdx.flatMap fun (t, i) =>
    Text.ofString "    " ++ label ++ Text.ofString "[" ++ Text.ofNat i ++ Text.ofString "]"
      ++ describe t ++ Text.ofString "\n"

/-- **Saved frames in a listing**, outermost first. -/
def describeFrames (m : Machine) (frames : List (FrameRecord Value)) : Text :=
  frames.zipIdx.flatMap fun (r, i) =>
    Text.ofString "#" ++ Text.ofNat i ++ Text.ofString " entry " ++ Text.ofInt r.entry
      ++ Text.ofString "\n"
      ++ describeSlots "obj" (Text.ofString "  " ++ ·) (r.objects.toList.map m.describeValue)
      ++ describeSlots "prim" (Text.ofString " 0x" ++ ·)
          (r.prims.toList.map fun p => Text.hex p.toNat)

end Machine

end Suspension
