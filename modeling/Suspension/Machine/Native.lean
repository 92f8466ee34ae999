import Suspension.Machine.Invocation
import Suspension.Text.Utf8

/-!
# Native methods

The methods of the machine's own classes that have no body.  They are found by class, name and
descriptor, and the host may put its own in their place.

* `Native` — what the methods do, `Native.table` — which method does what.
* `Native.run` — doing it.
-/

namespace Suspension

/-- **The native methods.** -/
inductive Native where
  | identity
  | objectText
  | wait
  | nothing
  | exceptionText
  | textLength
  | concat
  | textEquals
  | textHash
  | toText
  | newBuilder
  | append
  | builderText
  | print (newline : Bool)
  | sleep
  | lookup
  | methodName
  | reflect (passSignal : Bool)
  | getStack
  | nextEntry
  | pushMethod
  | popMethod
  | save (k : Kind)
  | restore (k : Kind)
  | newCoroutine
  | runCoroutine
  | coroutineState
  | yield
deriving DecidableEq, Repr, Inhabited

namespace Native

/-- The key of a native method. -/
def key (owner name desc : Text) : Text := owner ++ Text.ofString "." ++ name ++ desc

/-- Entries for all the descriptors of a name. -/
def entries (owner name : Text) (descs : List Text) (n : Native) : List (Text × Native) :=
  descs.map fun d => (key owner name d, n)

/-- The natives of objects and strings. -/
def coreTable : List (Text × Native) :=
  entries ClassName.object "hashCode" ["()I"] identity
  ++ entries ClassName.object "toString" ["()Lcore/String;"] objectText
  ++ entries ClassName.object "wait" ["()V", "(J)V", "(JI)V"] wait
  ++ entries ClassName.object "notify" ["()V"] nothing
  ++ entries ClassName.throwable "toString" ["()Lcore/String;"] exceptionText
  ++ entries ClassName.string "length" ["()I"] textLength
  ++ entries ClassName.string "concat" ["(Lcore/String;)Lcore/String;"] concat
  ++ entries ClassName.string "equals" ["(Lcore/Object;)Z"] textEquals
  ++ entries ClassName.string "hashCode" ["()I"] textHash
  ++ entries ClassName.string "valueOf"
      ["(I)Lcore/String;", "(J)Lcore/String;", "(F)Lcore/String;", "(D)Lcore/String;",
       "(Lcore/Object;)Lcore/String;"] toText
  ++ entries "core/StringBuilder" "<init>" ["()V"] newBuilder
  ++ entries "core/StringBuilder" "append"
      ["(Lcore/String;)Lcore/StringBuilder;", "(Lcore/Object;)Lcore/StringBuilder;",
       "(I)Lcore/StringBuilder;", "(J)Lcore/StringBuilder;", "(F)Lcore/StringBuilder;",
       "(D)Lcore/StringBuilder;"] append
  ++ entries "core/StringBuilder" "toString" ["()Lcore/String;"] builderText
  ++ entries "core/System" "print" ["(Lcore/Object;)V"] (print false)
  ++ entries "core/System" "println"
      ["(Lcore/Object;)V", "(I)V", "(J)V", "(F)V", "(D)V"] (print true)
  ++ entries "core/Thread" "sleep" ["(J)V", "(JI)V"] sleep
  ++ entries "core/Thread" "join" ["()V", "(J)V", "(JI)V"] nothing

/-- The natives of reflection. -/
def reflectTable : List (Text × Native) :=
  entries reflectedMethod "lookup"
      ["(Lcore/String;Lcore/String;Lcore/String;)Lcore/reflect/Method;"] lookup
  ++ entries reflectedMethod "getName" ["()Lcore/String;"] methodName
  ++ entries reflectedMethod "invoke" ["(Lcore/Object;[Lcore/Object;)Lcore/Object;"]
      (reflect false)

/-- The natives of frame stacks. -/
def stackTable : List (Text × Native) :=
  let cls := ClassName.frameStack
  entries cls "getStack" ["()Lcoro/Stack;"] getStack
  ++ entries cls "nextMethodEntry" ["()I"] nextEntry
  ++ entries cls "pushMethod" ["(III)V"] pushMethod
  ++ entries cls "popMethod" ["()V"] popMethod
  ++ entries cls "pushInt" ["(ILcoro/Stack;I)V"] (save .int)
  ++ entries cls "pushLong" ["(JLcoro/Stack;I)V"] (save .long)
  ++ entries cls "pushFloat" ["(FLcoro/Stack;I)V"] (save .float)
  ++ entries cls "pushDouble" ["(DLcoro/Stack;I)V"] (save .double)
  ++ entries cls "pushObject" ["(Lcore/Object;Lcoro/Stack;I)V"] (save .ref)
  ++ entries cls "getInt" ["(I)I"] (restore .int)
  ++ entries cls "getLong" ["(I)J"] (restore .long)
  ++ entries cls "getFloat" ["(I)F"] (restore .float)
  ++ entries cls "getDouble" ["(I)D"] (restore .double)
  ++ entries cls "getObject" ["(I)Lcore/Object;"] (restore .ref)

/-- The natives of coroutines. -/
def coroutineTable : List (Text × Native) :=
  let cls := ClassName.coroutine
  entries cls "<init>" ["(Lcoro/SuspendableRunnable;)V", "(Lcoro/SuspendableRunnable;I)V"]
      newCoroutine
  ++ entries cls "run" ["()V"] runCoroutine
  ++ entries cls "getState" ["()Lcore/String;"] coroutineState
  ++ entries cls "yield" ["()V"] yield
  ++ entries cls "reflectInvoke"
      ["(Lcore/reflect/Method;Lcore/Object;[Lcore/Object;)Lcore/Object;"] (reflect true)

/-- **Which method does what.** -/
def table : List (Text × Native) := stackTable ++ coreTable ++ coroutineTable ++ reflectTable

/-! ## Strings -/

/-- The hash of a string: a polynomial in 31 over its characters, wrapping. -/
def hash (t : Text) : Int32 :=
  (Utf8.chars t).foldl (fun h c => 31 * h + Int32.ofNat c.toNat) 0

/-- The text of an exception: its class, and its message if there is one. -/
def exceptionWording (m : Machine) (id : ObjectId) : Text :=
  let message := m.messageOf id
  m.className (m.classOf id)
    ++ (if message.isEmpty then [] else Text.ofString ": " ++ message)

/-- A string argument; anything else counts as the empty string. -/
def textOrEmpty : Value → Text
  | .text t => t
  | _ => []

/-! ## Frame stacks -/

/-- The frame stack behind an object. -/
def stackOf (v : Value) : Exec StackId := do
  match ← Exec.payload v with
  | .stack id => return id
  | _ => Exec.crash

/-- The operation that saves a value of a kind in a slot. -/
def saveOp (k : Kind) (slot : Int) (v : Value) : Option (FrameStack.Op Value) :=
  match k, v with
  | .int, .int x => some (.setInt slot x)
  | .long, .long x => some (.setLong slot x)
  | .float, .float b => some (.setFloat slot b)
  | .double, .double b => some (.setDouble slot b)
  | .ref, v => some (.setObject slot v)
  | _, _ => none

/-- The operation that fetches a value of a kind from a slot. -/
def restoreOp (k : Kind) (slot : Int) : FrameStack.Op Value :=
  match k with
  | .int => .int slot
  | .long => .long slot
  | .float => .float slot
  | .double => .double slot
  | .ref => .object slot

/-- An answer of a frame stack as a value. -/
def ofAnswer : FrameStack.Answer Value → Value
  | .entry n => .int (Int32.ofInt n)
  | .object v => v
  | .int v => .int v
  | .long v => .long v
  | .float b => .float b
  | .double b => .double b
  | _ => .null

/-- **The ambient frame stack**; code outside any coroutine gets a detached one. -/
def ambientStack : Exec StackId :=
  modifyGet fun m =>
    match m.coroutines.ambient with
    | some id => (id, m)
    | none =>
      let (id, w) := m.coroutines.addStack
      (id, { m with coroutines := { w with ambient := some id } })

/-! ## Coroutines -/

/-- The coroutine behind an object. -/
def coroutineOf (v : Value) : Exec CoroutineId := do
  match ← Exec.payload v with
  | .coroutine id => return id
  | _ => Exec.crash

/-- A coroutine object set up with what it runs and, where given, the size of its stack. -/
def makeCoroutine (call : Caller) (self runnable : Value) (size : Option Value) :
    Exec Value := do
  match runnable with
  | .object r =>
    let size ← match size with
      | none => pure (0 : Int)
      | some (.int n) => pure n.toInt
      | some _ => Exec.crash
    let m ← get
    let name := m.className (m.classOf r)
    let id ← Exec.addCoroutine r size name
    let (obj, _) ← Exec.object self
    Exec.setPayload obj (.coroutine id)
    return .null
  | _ => Exec.raise call "core/NullPointerException" "coroutine of null runnable"

/-- Running a coroutine object.  One that cannot be run raises an exception. -/
def runObject (call : Caller) (self : Value) : Exec Value := do
  let id ← coroutineOf self
  match ← Exec.attempt (Exec.runCoroutine call id) with
  | .ok () => return .null
  | .error f =>
    let is := fun c => Fault.isOrWraps (fun _ => false) (.condition c) f
    if is .running || is .finished then Exec.raiseFor call "core/IllegalStateException" f
    else Exec.fail f

/-! ## All of them -/

/-- **A native method on its arguments.** -/
def run (call : Caller) (n : Native) (args : List Value) : Exec Value :=
  match n, args with
  | identity, .object id :: _ => return .int (Int32.ofNat id)
  | objectText, .object id :: _ => do
    let m ← get
    return .text (m.className (m.classOf id) ++ Text.ofString "@" ++ Text.hex id)
  | wait, _ =>
    Exec.raise call "core/UnsupportedOperationException"
      "wait is not supported on a single-threaded machine"
  | nothing, _ => return .null
  | exceptionText, .object id :: _ => return .text (exceptionWording (← get) id)
  | textLength, .text t :: _ => return .int (Int32.ofNat (Utf8.items t).length)
  | concat, a :: .text s :: _ =>
    match a with
    | .text t => return .text (t ++ s)
    | _ => Exec.crash
  | concat, _ :: _ :: _ => Exec.raise call "core/NullPointerException" "concat of null"
  | textEquals, a :: .text s :: _ =>
    match a with
    | .text t => return .ofBool (s == t)
    | _ => Exec.crash
  | textEquals, _ :: _ :: _ => return .ofBool false
  | textHash, .text t :: _ => return .int (hash t)
  | toText, v :: _ => return .text (← Exec.textOf call v)
  | newBuilder, .object id :: _ => do
    Exec.setPayload id (.builder [])
    return .null
  | append, self :: v :: _ => do
    let s ← Exec.textOf call v
    match self, ← Exec.payload self with
    | .object id, .builder t =>
      Exec.setPayload id (.builder (t ++ s))
      return self
    | _, _ => Exec.crash
  | builderText, self :: _ => do
    match ← Exec.payload self with
    | .builder t => return .text t
    | _ => Exec.crash
  | print newline, v :: _ => do
    let s ← Exec.textOf call v
    let s := if newline then s ++ Text.ofString "\n" else s
    modify fun m => { m with printed := m.printed.push s }
    return .null
  | sleep, .long _ :: _ => return .null
  | lookup, owner :: name :: desc :: _ =>
    Exec.reflectLookup call (textOrEmpty owner) (textOrEmpty name) (textOrEmpty desc)
  | methodName, self :: _ => do
    match ← Exec.payload self with
    | .method m => return .text m.method.name
    | _ => Exec.crash
  | reflect passSignal, method :: recv :: argArray :: _ =>
    Exec.reflectCall call method recv argArray passSignal
  | getStack, _ => do
    let id ← ambientStack
    let cls ← Exec.startClass call ClassName.frameStack
    return .object (← Exec.allocate cls (.stack id))
  | nextEntry, self :: _ => do return ofAnswer (← Exec.onStack (← stackOf self) .enter)
  | pushMethod, self :: .int entry :: .int objects :: .int prims :: _ => do
    let _ ← Exec.onStack (← stackOf self) (.push entry.toInt objects.toInt prims.toInt)
    return .null
  | popMethod, self :: _ => do
    let _ ← Exec.onStack (← stackOf self) .pop
    return .null
  | save k, v :: self :: .int slot :: _ => do
    let op ← Exec.require (saveOp k slot.toInt v)
    let _ ← Exec.onStack (← stackOf self) op
    return .null
  | restore k, self :: .int slot :: _ => do
    return ofAnswer (← Exec.onStack (← stackOf self) (restoreOp k slot.toInt))
  | newCoroutine, self :: runnable :: size => makeCoroutine call self runnable size.head?
  | runCoroutine, self :: _ => runObject call self
  | coroutineState, self :: _ => do
    let id ← coroutineOf self
    return .text ((← get).coroutines.stateOf id).name
  | yield, _ => Exec.raiseFor call "core/IllegalStateException" (.condition .notInstrumented)
  | _, _ => Exec.crash

end Native

/-- **A native method of the host on its arguments.** -/
def HostMethod.run (h : HostMethod) (args : List Value) : Exec Value :=
  match h with
  | argument i => if i < 0 then Exec.crash else Exec.require args[i.toNat]?
  | fails message => Exec.fail (.plain message)
  | suspends => Exec.fail (.condition .suspend)
  | count => return .int (Int32.ofNat args.length)
  | returns v => return v

end Suspension
