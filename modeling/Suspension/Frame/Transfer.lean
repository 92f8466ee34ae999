import Suspension.Frame.Value

/-!
# The effect of an instruction on a frame

Each instruction takes a frame to a frame, checking the kinds of what it uses.  On the side it
notes what becomes of pending constructions: a `dup` that copies one, and every use that pins it.

* `Analysis` — what the analysis of one method has found so far.
* `Transfer` — a step of it, which may fail; what was noted before a failure stays.
* `Frame.execute` — one instruction.
-/

namespace Suspension

/-- **The state of an analysis**: the frame before each instruction that was reached, the
constructions, the positions whose frame has changed since they were last followed, and what is
known about classes. -/
structure Analysis where
  hierarchy : Hierarchy
  frames : Array (Option Frame)
  sites : List Site := []
  pending : List Nat := []
deriving Repr

/-- What an analysis works on: the class and method, the source of classes, and where its own
messages go. -/
structure AnalysisContext where
  source : ClassSource
  sink : Sink
  owner : Text
  method : Method

/-- A step of an analysis. -/
abbrev Transfer (α : Type) := ExceptT FrameFault (StateM Analysis) α

namespace Transfer

/-- The construction at a position. -/
def site? (newAt : Nat) : Transfer (Option Site) := do
  return (← get).sites.find? (·.newAt == newAt)

/-- A construction changed. -/
def modifySite (newAt : Nat) (f : Site → Site) : Transfer Unit := modify fun a =>
  { a with sites := a.sites.map fun s => if s.newAt == newAt then f s else s }

/-- The construction at a position, entered when it is met for the first time. -/
def enterSite (newAt : Nat) (cls : Text) : Transfer Unit := do
  match ← site? newAt with
  | some _ => return ()
  | none => modify fun a => { a with sites := a.sites ++ [{ cls, newAt }] }

/-- **Pinning a construction**, with a warning the first time. -/
def pin (ctx : AnalysisContext) (position newAt : Nat) (reason : Text) : Transfer Unit := do
  match ← site? newAt with
  | none => return ()
  | some s =>
    if s.pinned then return ()
    modifySite newAt fun s => { s with pinned := true }
    modify fun a => { a with hierarchy := { a.hierarchy with
      log := ctx.sink.send .warn
        "construction site cannot be deferred, saving it as a reference"
        [("class", .text ctx.owner), ("method", .text ctx.method.key),
         ("new", .number newAt), ("at", .number position), ("reason", .text reason)]
        a.hierarchy.log } }

/-- Pinning whatever construction a slot belongs to. -/
def pinSlot (ctx : AnalysisContext) (position : Nat) (v : SlotType) (reason : Text) :
    Transfer Unit :=
  match v with
  | .pending site _ _ => pin ctx position site reason
  | _ => return ()

end Transfer

namespace Frame

open Transfer

/-- A value on the stack. -/
def push (f : Frame) (v : SlotType) : Frame := { f with stack := v :: f.stack }

/-- The value off the stack. -/
def pop (f : Frame) : Transfer (SlotType × Frame) :=
  match f.stack with
  | [] => throw .underflow
  | v :: rest => return (v, { f with stack := rest })

/-- A slot has the kind that is wanted; a pending construction passes for a reference. -/
def checkKind (v : SlotType) (want : Option Kind) : Transfer Unit :=
  if v.kind? == want then return () else throw (.kindExpected want v)

/-- The value off the stack, of a given kind; using a pending construction so pins it. -/
def popKind (ctx : AnalysisContext) (position : Nat) (f : Frame) (want : Option Kind) :
    Transfer (SlotType × Frame) := do
  let (v, f) ← f.pop
  checkKind v want
  pinSlot ctx position v "used as an operand"
  return (v, f)

/-- Values of given kinds off the stack, the first of the list first. -/
def popKinds (ctx : AnalysisContext) (position : Nat) : List Kind → Frame → Transfer Frame
  | [], f => return f
  | k :: rest, f => do
    let (_, f) ← f.popKind ctx position (some k)
    popKinds ctx position rest f

/-- The local that a load or store works on. -/
def localOperand (i : Instruction) (f : Frame) : Transfer Nat :=
  match i.operand with
  | .slot n =>
    if n.toNat < f.locals.size then return n.toNat
    else throw (.localOutOfRange n.toNat f.locals.size)
  | _ => throw (.missingLocal i.opcode)

/-- The class that an instruction works on. -/
def typeOperand (i : Instruction) : Transfer Text :=
  match i.operand with
  | .type t => if t.isEmpty then throw (.missingType i.opcode) else return t
  | _ => throw (.missingType i.opcode)

/-- The member that an instruction works on. -/
def memberOperand (i : Instruction) : Transfer Member :=
  match i.operand with
  | .member m => return m
  | _ => throw (.missingMember i.opcode)

/-- A load. -/
def load (i : Instruction) (k : Kind) (f : Frame) : Transfer Frame := do
  let n ← localOperand i f
  let v := f.locals.getD n .unusable
  if v.kind? == some k then return f.push v
  throw (.inLocal n (.kindExpected (some k) v))

/-- A store; it pins a pending construction. -/
def store (ctx : AnalysisContext) (position : Nat) (i : Instruction) (k : Kind) (f : Frame) :
    Transfer Frame := do
  let n ← localOperand i f
  let (v, f) ← f.pop
  checkKind v (some k)
  pinSlot ctx position v "stored to a local"
  return { f with locals := f.locals.set! n v }

/-- A local incremented. -/
def increment (i : Instruction) (f : Frame) : Transfer Frame :=
  match i.operand with
  | .increment n _ =>
    match f.locals[n.toNat]? with
    | some v => do
      checkKind v (some .int)
      return f
    | none => throw .badIncrement
  | _ => throw .badIncrement

/-- The element of an array of references. -/
def elementType (array : SlotType) : SlotType :=
  let desc := Descriptor.element array.typeName
  if Descriptor.kind? desc == some .ref then .ofDesc desc else .ref ClassName.object

/-- The top of the stack twice.  The first `dup` of a pending construction makes its copy; any other
one pins it. -/
def dup (ctx : AnalysisContext) (position : Nat) (f : Frame) : Transfer Frame :=
  match f.stack with
  | [] => throw .underflow
  | v :: _ =>
    match v with
    | .pending newAt cls copied => do
      let s ← site? newAt
      let seen := s.bind (·.dupAt)
      if !copied && (seen.isNone || seen == some position) then
        modifySite newAt fun s => { s with dupAt := some position }
        return f.push (.pending newAt cls true)
      pin ctx position newAt "duplicated more than once"
      return f.push v
    | _ => return f.push v

/-- Pinning the constructions of some slots, in order. -/
def pinAll (ctx : AnalysisContext) (position : Nat) (reason : Text) : List SlotType → Transfer Unit
  | [] => return ()
  | v :: rest => do
    pinSlot ctx position v reason
    pinAll ctx position reason rest

/-- The instructions that reorder the top of the stack; all that they move is pinned. -/
def shuffle (ctx : AnalysisContext) (position : Nat) (op : Opcode) (f : Frame) :
    Transfer Frame := do
  let note := pinAll ctx position "reordered on the stack"
  match op, f.stack with
  | .dupX1, b :: a :: rest =>
    note [a, b]
    return { f with stack := b :: a :: b :: rest }
  | .dupX2, c :: b :: a :: rest =>
    note [a, b, c]
    return { f with stack := c :: b :: a :: c :: rest }
  | .dup2, b :: a :: rest =>
    note [a, b]
    return { f with stack := b :: a :: b :: a :: rest }
  | .swap, b :: a :: rest =>
    note [a, b]
    return { f with stack := a :: b :: rest }
  | _, _ => throw .underflow

/-- Field accesses. -/
def field (ctx : AnalysisContext) (position : Nat) (i : Instruction) (f : Frame) :
    Transfer Frame := do
  let m ← memberOperand i
  let v := SlotType.ofDesc m.desc
  match i.opcode with
  | .getStatic => return f.push v
  | .putStatic =>
    let (_, f) ← f.popKind ctx position v.kind?
    return f
  | .getField =>
    let (_, f) ← f.popKind ctx position (some .ref)
    return f.push v
  | _ =>
    let (_, f) ← f.popKind ctx position v.kind?
    let (_, f) ← f.popKind ctx position (some .ref)
    return f

/-- A slot whose construction at `site` is complete. -/
def completed (site : Nat) (v : SlotType) : SlotType :=
  match v with
  | .pending s cls _ => if s == site then .ref cls else v
  | _ => v

/-- **A constructor called on a pending construction.**  All its references become ordinary ones.
Unless the receiver is the copy, with the other reference right below, the construction is
pinned. -/
def construct (ctx : AnalysisContext) (position site : Nat) (cls : Text) (copied : Bool) (f : Frame) :
    Transfer Frame := do
  if !copied || f.stack.head? != some (.pending site cls false) then
    pin ctx position site "constructor called without the new/dup shape"
  return { locals := f.locals.map (completed site), stack := f.stack.map (completed site) }

/-- The arguments of a call off the stack, the last one first; `params` are their descriptors with
their numbers, last first. -/
def popArgs (ctx : AnalysisContext) (position : Nat) (m : Member) :
    List (Nat × Text) → Frame → Transfer Frame
  | [], f => return f
  | (j, desc) :: rest, f => do
    let (_, f) ← ExceptT.adapt (FrameFault.inArgument j m.owner m.name)
      (f.popKind ctx position (SlotType.ofDesc desc).kind?)
    popArgs ctx position m rest f

/-- The receiver of a call off the stack. -/
def popReceiver (ctx : AnalysisContext) (position : Nat) (mode : InvokeMode) (m : Member)
    (f : Frame) : Transfer Frame := do
  let (recv, f) ← f.pop
  if recv.kind? != some .ref then throw (.receiverExpected m.owner m.name recv)
  match recv with
  | .pending site cls copied =>
    if mode == .special && m.name == Text.ofString "<init>" then
      construct ctx position site cls copied f
    else
      pin ctx position site "used as a receiver"
      return f
  | _ => return f

/-- Calls. -/
def invoke (ctx : AnalysisContext) (position : Nat) (i : Instruction) (mode : InvokeMode)
    (f : Frame) : Transfer Frame := do
  let m ← memberOperand i
  match Descriptor.parseMethod m.desc with
  | .error e => throw (.descriptor e)
  | .ok d =>
    let params := (List.range d.params.length).zip d.params
    let f ← popArgs ctx position m params.reverse f
    let f ← if mode == .static then pure f else popReceiver ctx position mode m f
    return if d.isVoid then f else f.push (.ofDesc d.result)

/-- The instructions whose effect is a fixed signature of kinds. -/
def byEffect (ctx : AnalysisContext) (position : Nat) (op : Opcode) (f : Frame) :
    Transfer Frame := do
  match op.effect? with
  | none => throw (.unsupported op)
  | some e =>
    let f ← f.popKinds ctx position e.pops.reverse
    return e.pushes.foldl (fun f k => f.push (.ofKind k)) f

/-- **One instruction on a frame.** -/
def execute (ctx : AnalysisContext) (position : Nat) (i : Instruction) (f : Frame) :
    Transfer Frame := do
  match i.opcode with
  | .nop | .label => return f
  | .pushNull => return f.push .null
  | .ldc => return f.push (.ref ClassName.string)
  | .new =>
    let cls ← typeOperand i
    enterSite position cls
    return f.push (.pending position cls false)
  | .load k => load i k f
  | .store k => store ctx position i k f
  | .increment => increment i f
  | .arrayLoad .ref =>
    let (_, f) ← f.popKind ctx position (some .int)
    let (arr, f) ← f.popKind ctx position (some .ref)
    return f.push (elementType arr)
  | .newArray =>
    let (_, f) ← f.popKind ctx position (some .int)
    let elem ← typeOperand i
    return f.push (.ref (Text.ofString "[" ++ elem))
  | .newRefArray =>
    let (_, f) ← f.popKind ctx position (some .int)
    let cls ← typeOperand i
    return f.push (.ref (Text.ofString "[" ++ Descriptor.ofClass cls))
  | .checkCast =>
    let (v, f) ← f.popKind ctx position (some .ref)
    let cls ← typeOperand i
    return f.push (if v.isNull then v else .ref cls)
  | .pop =>
    let (v, f) ← f.pop
    pinSlot ctx position v "popped"
    return f
  | .pop2 =>
    let (v, f) ← f.pop
    pinSlot ctx position v "popped"
    let (w, f) ← f.pop
    pinSlot ctx position w "popped"
    return f
  | .dup => dup ctx position f
  | .dupX1 | .dupX2 | .dup2 | .swap => shuffle ctx position i.opcode f
  | .getStatic | .putStatic | .getField | .putField => field ctx position i f
  | .invoke mode => invoke ctx position i mode f
  | op => byEffect ctx position op f

end Frame

end Suspension
