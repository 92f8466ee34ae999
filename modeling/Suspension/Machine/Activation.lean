import Suspension.ClassFile
import Suspension.Machine.Value

/-!
# Activations

One call of a method: a position, locals and an operand stack.  **A step of an activation is a function
of the activation alone.**  What it needs from the world around it, a field, a call, a new object, an
exception, it *asks* for: the step names the request, and goes on with the answer.

* `Body` — a method body with its labels and handlers by position.
* `Request` — what an instruction may ask for.
* `Activation.step` — one instruction.
* `Body.handlerFor` — where an exception is caught.
-/

namespace Suspension

/-! ## Bodies -/

/-- A protected range by positions; an empty type catches everything. -/
structure Handler where
  type : Text
  start : Nat
  stop : Nat
  target : Nat
deriving DecidableEq, Repr, Inhabited

/-- **A method body ready to run**: the positions of its labels and its handlers. -/
structure Body where
  code : Code := #[]
  labels : List (Label × Nat) := []
  handlers : List Handler := []
deriving Repr, Inhabited

namespace Body

/-- Where a label is; a label that is not marked counts as the beginning. -/
def target (b : Body) (id : Label) : Nat := (b.labels.lookup id).getD 0

/-- The body of a method. -/
def ofMethod (m : Method) : Body :=
  let labels := m.code.labelIndex
  let position := fun id => (labels.lookup id).getD 0
  { code := m.code
    labels
    handlers := m.ranges.map fun r =>
      ⟨r.type, position r.start, position r.stop, position r.handler⟩ }

/-- **Where an exception is caught**: the first handler that covers the position and catches its
class. -/
def handlerFor (b : Body) (catches : Text → Bool) (pc : Nat) : Option Nat :=
  (b.handlers.find? fun h =>
    h.start ≤ pc && pc < h.stop && (h.type.isEmpty || catches h.type)).map (·.target)

end Body

/-! ## Steps -/

/-- **What an instruction asks of its surroundings.**  `fail`, `raise` and `throw` have no answer. -/
inductive Request where
  | fail (f : Fault)
  | raise (cls message : Text)
  | throw (obj : ObjectId)
  | getStatic (m : Member)
  | putStatic (m : Member) (v : Option Value)
  | getField (obj : Value) (name : Text)
  | putField (obj : Value) (name : Text) (v : Value)
  | getElement (arr : Value) (index : Int32)
  | putElement (k : Kind) (arr : Value) (index : Int32) (v : Value)
  | length (arr : Value)
  | create (cls : Text)
  | createArray (elem : Text) (size : Int32)
  | cast (v : Value) (cls : Text)
  | isInstance (v : Value) (cls : Text)
  | invoke (mode : InvokeMode) (m : Member) (args : List Value) (isVoid : Bool)
deriving Repr

/-- One call of a method.  The stack is kept top first. -/
structure Activation where
  pc : Nat := 0
  locals : Array Value := #[]
  stack : List Value := []
deriving DecidableEq, Repr, Inhabited

/-- **The outcome of one step.** -/
inductive Step where
  /-- the activation goes on -/
  | next (a : Activation)
  /-- the method returns; null where it returns nothing -/
  | returns (v : Value)
  /-- the activation waits at its instruction for an answer -/
  | asks (r : Request) (a : Activation)
  /-- the instruction does not fit what it finds -/
  | crash
  /-- there is no instruction -/
  | fellOff
deriving Repr

namespace Activation

/-- **Entering a method**: the arguments are the first locals, as far as there is room. -/
def enter (m : Method) (args : List Value) : Activation :=
  let n := m.maxLocals.toNat
  { locals := (args.take n ++ List.replicate (n - args.length) Value.null).toArray }

/-- On to the next instruction, with another stack. -/
def goOn (a : Activation) (stack : List Value) : Step :=
  .next { a with pc := a.pc + 1, stack }

/-- On to the next instruction, with a value on top of `rest`. -/
def result (a : Activation) (rest : List Value) (v : Value) : Step := a.goOn (v :: rest)

/-- On to another instruction. -/
def jumpTo (a : Activation) (stack : List Value) (pc : Nat) : Step := .next { a with pc, stack }

/-- Waiting for an answer. -/
def ask (a : Activation) (stack : List Value) (r : Request) : Step := .asks r { a with stack }

/-- The activation with the answer to its request. -/
def answered (a : Activation) (v : Option Value) : Activation :=
  { a with pc := a.pc + 1, stack := v.toList ++ a.stack }

/-- The activation at a handler, with the exception alone on the stack. -/
def caught (a : Activation) (pc : Nat) (obj : ObjectId) : Activation :=
  { a with pc, stack := [.object obj] }

/-- The outcome of an operation that may divide by zero. -/
def arithResult (a : Activation) (rest : List Value) : Except Value.ArithFault Value → Step
  | .ok v => a.result rest v
  | .error .divisionByZero => a.ask rest (.raise "core/ArithmeticException" "/ by zero")
  | .error .wrongKind => .crash

/-- Pushing a constant. -/
def constant (a : Activation) (n : Numeric) (operand : Operand) : Step :=
  match n, operand with
  | .int, .int v => a.result a.stack (.int v)
  | .long, .long v => a.result a.stack (.long v)
  | .float, .float b => a.result a.stack (.float b)
  | .double, .double b => a.result a.stack (.double b)
  | _, _ => .crash

/-- The instructions that only rearrange the stack; `none` when it does not hold enough. -/
def shuffle (op : Opcode) (stack : List Value) : Option (List Value) :=
  match op, stack with
  | .pop, _ :: s => some s
  | .pop2, _ :: _ :: s => some s
  | .dup, v :: s => some (v :: v :: s)
  | .dupX1, v₁ :: v₂ :: s => some (v₁ :: v₂ :: v₁ :: s)
  | .dupX2, v₁ :: v₂ :: v₃ :: s => some (v₁ :: v₂ :: v₃ :: v₁ :: s)
  | .dup2, v₁ :: v₂ :: s => some (v₁ :: v₂ :: v₁ :: v₂ :: s)
  | .swap, v₁ :: v₂ :: s => some (v₂ :: v₁ :: s)
  | _, _ => none

/-- Loading a local. -/
def load (a : Activation) (operand : Operand) : Step :=
  match operand with
  | .slot i =>
    match a.locals[i.toNat]? with
    | some v => a.result a.stack v
    | none => .crash
  | _ => .crash

/-- Storing to a local. -/
def store (a : Activation) (operand : Operand) : Step :=
  match operand, a with
  | .slot i, ⟨pc, locals, v :: rest⟩ =>
    if i.toNat < locals.size then .next ⟨pc + 1, locals.set! i.toNat v, rest⟩ else .crash
  | _, _ => .crash

/-- Adding to a local. -/
def increment (a : Activation) (operand : Operand) : Step :=
  match operand with
  | .increment i delta =>
    match a.locals[i.toNat]? with
    | some (.int v) =>
      .next { a with pc := a.pc + 1, locals := a.locals.set! i.toNat (.int (v + delta)) }
    | _ => .crash
  | _ => .crash

/-- A jump that is taken or not. -/
def branch (target : Label → Nat) (a : Activation) (rest : List Value) (operand : Operand)
    (taken : Bool) : Step :=
  if taken then
    match operand with
    | .label id => a.jumpTo rest (target id)
    | _ => .crash
  else a.goOn rest

/-- A jump by table. -/
def switch (target : Label → Nat) (a : Activation) (operand : Operand) : Step :=
  match operand, a.stack with
  | .table low labels default, .int v :: rest =>
    let key := v.toInt - low.toInt
    if 0 ≤ key then a.jumpTo rest (target (labels.getD key.toNat default))
    else a.jumpTo rest (target default)
  | _, _ => .crash

/-- Access to a field. -/
def field (a : Activation) (op : Opcode) (operand : Operand) : Step :=
  match op, operand, a.stack with
  | .getStatic, .member m, s => a.ask s (.getStatic m)
  | .putStatic, .member m, v :: s => a.ask s (.putStatic m (some v))
  | .putStatic, .member m, [] => a.ask [] (.putStatic m none)
  | .getField, .member m, obj :: s => a.ask s (.getField obj m.name)
  | .putField, .member m, v :: obj :: s => a.ask s (.putField obj m.name v)
  | _, _, _ => .crash

/-- A call: the arguments leave the stack, in the order in which they were pushed. -/
def invoke (a : Activation) (mode : InvokeMode) (operand : Operand) : Step :=
  match operand with
  | .member m =>
    match Descriptor.parseMethod m.desc with
    | .error e => a.ask a.stack (.fail (.plain e.message))
    | .ok d =>
      let n := d.params.length + (if mode == .static then 0 else 1)
      if a.stack.length < n then .crash
      else a.ask (a.stack.drop n) (.invoke mode m (a.stack.take n).reverse d.isVoid)
  | _ => .crash

/-- A new array; the type of an array of references is given by its class. -/
def createArray (a : Activation) (ofClass : Bool) (operand : Operand) : Step :=
  match a.stack with
  | .int n :: s =>
    if n < 0 then a.ask s (.raise "core/NegativeArraySizeException" (Text.ofInt n.toInt))
    else
      match operand with
      | .type t => a.ask s (.createArray (if ofClass then Descriptor.ofClass t else t) n)
      | _ => .crash
  | _ => .crash

/-- The class instructions on a value. -/
def typed (a : Activation) (op : Opcode) (operand : Operand) : Step :=
  match op, operand, a.stack with
  | .new, .type t, s => a.ask s (.create t)
  | .checkCast, .type t, v :: s => if v.isNull then a.goOn (v :: s) else a.ask (v :: s) (.cast v t)
  | .instanceOf, .type t, v :: s =>
    if v.isNull then a.result s (.int 0) else a.ask s (.isInstance v t)
  | _, _, _ => .crash

/-- A comparison of two numbers. -/
def compare (op : Opcode) (stack : List Value) : Option (Int32 × List Value) :=
  match op, stack with
  | .longCompare, .long b :: .long a :: s => some (Value.compareLongs a b, s)
  | .floatCompare, .float b :: .float a :: s => some (Single.compare a b, s)
  | .doubleCompare, .double b :: .double a :: s => some (Double.compare a b, s)
  | _, _ => none

/-- **One instruction.** -/
def execute (target : Label → Nat) (a : Activation) (instr : Instruction) : Step :=
  match instr.opcode with
  | .nop | .label => a.goOn a.stack
  | .pushNull => a.result a.stack .null
  | .const n => a.constant n instr.operand
  | .ldc =>
    match instr.operand with
    | .text t => a.result a.stack (.text t)
    | _ => .crash
  | .load _ => a.load instr.operand
  | .store _ => a.store instr.operand
  | .increment => a.increment instr.operand
  | .arrayLoad _ =>
    match a.stack with
    | .int i :: arr :: s => a.ask s (.getElement arr i)
    | _ => .crash
  | .arrayStore k =>
    match a.stack with
    | v :: .int i :: arr :: s => a.ask s (.putElement k arr i v)
    | _ => .crash
  | .pop | .pop2 | .dup | .dupX1 | .dupX2 | .dup2 | .swap =>
    match shuffle instr.opcode a.stack with
    | some s => a.goOn s
    | none => .crash
  | .arith op n =>
    match a.stack with
    | y :: x :: s => a.arithResult s (Value.arith op n x y)
    | _ => .crash
  | .intRem =>
    match a.stack with
    | .int y :: .int x :: s => a.arithResult s (Value.rem (.int x) (.int y))
    | _ => .crash
  | .longRem =>
    match a.stack with
    | .long y :: .long x :: s => a.arithResult s (Value.rem (.long x) (.long y))
    | _ => .crash
  | .intNeg =>
    match a.stack with
    | .int x :: s => a.result s (.int (-x))
    | _ => .crash
  | .longNeg =>
    match a.stack with
    | .long x :: s => a.result s (.long (-x))
    | _ => .crash
  | .convert c =>
    match a.stack with
    | v :: s =>
      match Value.convert c v with
      | some w => a.result s w
      | none => .crash
    | _ => .crash
  | .longCompare | .floatCompare | .doubleCompare =>
    match compare instr.opcode a.stack with
    | some (r, s) => a.result s (.int r)
    | none => .crash
  | .ifInt c =>
    match a.stack with
    | .int x :: s => a.branch target s instr.operand (Value.holds c x 0)
    | _ => .crash
  | .ifInts c =>
    match a.stack with
    | .int y :: .int x :: s => a.branch target s instr.operand (Value.holds c x y)
    | _ => .crash
  | .ifSame =>
    match a.stack with
    | y :: x :: s => a.branch target s instr.operand (x.same y)
    | _ => .crash
  | .ifNotSame =>
    match a.stack with
    | y :: x :: s => a.branch target s instr.operand (!x.same y)
    | _ => .crash
  | .ifNull =>
    match a.stack with
    | x :: s => a.branch target s instr.operand x.isNull
    | _ => .crash
  | .ifNonNull =>
    match a.stack with
    | x :: s => a.branch target s instr.operand (!x.isNull)
    | _ => .crash
  | .goto => a.branch target a.stack instr.operand true
  | .tableSwitch => a.switch target instr.operand
  | .returnValue _ =>
    match a.stack with
    | v :: _ => .returns v
    | _ => .crash
  | .returnVoid => .returns .null
  | .getStatic | .putStatic | .getField | .putField => a.field instr.opcode instr.operand
  | .invoke mode => a.invoke mode instr.operand
  | .newArray => a.createArray false instr.operand
  | .newRefArray => a.createArray true instr.operand
  | .arrayLength =>
    match a.stack with
    | arr :: s => a.ask s (.length arr)
    | _ => .crash
  | .throw =>
    match a.stack with
    | .object id :: s => a.ask s (.throw id)
    | _ :: s => a.ask s (.raise "core/NullPointerException" "throw of null")
    | _ => .crash
  | .new | .checkCast | .instanceOf => a.typed instr.opcode instr.operand
  | .monitorEnter | .monitorExit =>
    match a.stack with
    | v :: s =>
      if v.isNull then a.ask s (.raise "core/NullPointerException" "monitor on null") else a.goOn s
    | _ => .crash
  | .undefined _ =>
    a.ask a.stack (.fail (.unsupported Phase.runtime (Text.ofString "opcode " ++ instr.opcode.name)))

/-- **One step of an activation** in its body. -/
def step (b : Body) (a : Activation) : Step :=
  match b.code[a.pc]? with
  | none => .fellOff
  | some instr => a.execute b.target instr

end Activation

end Suspension
