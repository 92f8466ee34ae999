import Suspension.Instrument.Protection
import Suspension.Validation

/-!
# Transforming a method

A transformed method can be left at a suspension point by the suspend signal and be entered again
later.  Its body is laid out as

* a **prologue** that fetches the frame stack, enters a record and jumps to the point at which the
  record was saved, or to the beginning;
* for every instruction its **image**: the instruction itself, with the record popped in front of a
  return, and with a deferred construction redone in front of its constructor call;
* for every suspension point the saving of its frame, the label to resume at, the restoring of the
  frame, and the call;
* an **epilogue** that pops the record when an exception leaves the method, and lets the suspend
  signal pass.

`Plan.generate` is the transformed method, `Subject.transform` the whole work on one method.
-/

namespace Suspension

/-! ## Moving values between a frame and its record -/

namespace Emit

/-- Fetches the frame stack. -/
def getStack : Instruction :=
  .member (.invoke .static) ClassName.frameStack "getStack" "()Lcoro/Stack;"

/-- Enters the next record and tells its entry. -/
def nextEntry : Instruction :=
  .member (.invoke .virtual) ClassName.frameStack "nextMethodEntry" "()I"

/-- Saves the entry and makes room for the slots. -/
def pushMethod : Instruction :=
  .member (.invoke .virtual) ClassName.frameStack "pushMethod" "(III)V"

/-- Leaves the record for good. -/
def popMethod : Instruction :=
  .member (.invoke .virtual) ClassName.frameStack "popMethod" "()V"

/-- The suspend signal. -/
def signal : Instruction :=
  .member .getStatic ClassName.frameStack "SUSPEND" "Lcoro/SuspendExecution;"

/-- What the accessors of a storage kind are called. -/
def accessorName : Kind → Text
  | .int => "Int"
  | .long => "Long"
  | .float => "Float"
  | .double => "Double"
  | .ref => "Object"

/-- The descriptor that the accessors of a storage kind use. -/
def accessorDesc : Kind → Text
  | .int => "I"
  | .long => "J"
  | .float => "F"
  | .double => "D"
  | .ref => "Lcore/Object;"

/-- The instruction that loads a local of a value's kind. -/
def loadOf (v : SlotType) (index : UInt32) : Instruction :=
  .slot ((v.kind?.map Opcode.load).getD .nop) index

/-- The instruction that stores to a local of a value's kind. -/
def storeOf (v : SlotType) (index : UInt32) : Instruction :=
  .slot ((v.kind?.map Opcode.store).getD .nop) index

/-- **From the operand stack into a slot of the record.** -/
def put (stackVar : UInt32) (k : Kind) (index : Nat) : List Instruction :=
  [.slot (.load .ref) stackVar, .int (Int32.ofNat index),
   .member (.invoke .static) ClassName.frameStack (Text.ofString "push" ++ accessorName k)
     (Text.ofString "(" ++ accessorDesc k ++ Text.ofString "Lcoro/Stack;I)V")]

/-- **From a slot of the record onto the operand stack.**  A reference gets back the class that the
frame knows it by. -/
def get (stackVar : UInt32) (v : SlotType) (k : Kind) (index : Nat) : List Instruction :=
  [.slot (.load .ref) stackVar, .int (Int32.ofNat index),
   .member (.invoke .virtual) ClassName.frameStack (Text.ofString "get" ++ accessorName k)
     (Text.ofString "(I)" ++ accessorDesc k)]
  ++ (if k == .ref && v.typeName != ClassName.object then [.type .checkCast v.typeName] else [])

/-- The storage kind and the slot of a value that is saved. -/
def place? (v : SlotType) : Keep → Option (Kind × Nat)
  | .object i => some (.ref, i)
  | .prim i => v.kind?.map (·, i)
  | .nothing | .deferred => none

/-- Saves the top of the operand stack. -/
def saveSlot (stackVar : UInt32) (v : SlotType) (keep : Keep) : List Instruction :=
  match keep with
  | .deferred => []
  | .nothing => [.plain .pop]
  | _ =>
    match place? v keep with
    | some (k, i) => put stackVar k i
    | none => []

/-- Pushes a saved value of the operand stack again. -/
def restoreSlot (stackVar : UInt32) (v : SlotType) (keep : Keep) : List Instruction :=
  match keep with
  | .deferred => []
  | _ =>
    if v.isNull then [.plain .pushNull]
    else
      match place? v keep with
      | some (k, i) => get stackVar v k i
      | none => []

/-- Saves a local. -/
def saveLocal (stackVar : UInt32) (index : Nat) (v : SlotType) (keep : Keep) : List Instruction :=
  match place? v keep with
  | some (k, i) => loadOf v (UInt32.ofNat index) :: put stackVar k i
  | none => []

/-- Sets a local again. -/
def restoreLocal (stackVar : UInt32) (index : Nat) (v : SlotType) (keep : Keep) :
    List Instruction :=
  if v.isNull then [.plain .pushNull, .slot (.store .ref) (UInt32.ofNat index)]
  else
    match place? v keep with
    | some (k, i) => get stackVar v k i ++ [storeOf v (UInt32.ofNat index)]
    | none => []

/-- The instructions of all locals from a position on. -/
def locals (f : Nat → SlotType → Keep → List Instruction) :
    Nat → List (SlotType × Keep) → List Instruction
  | _, [] => []
  | index, (v, keep) :: rest => f index v keep ++ locals f (index + 1) rest

/-- **Saving a frame**: the entry and the sizes, the operand stack from the top down, the locals. -/
def save (stackVar : UInt32) (p : SuspensionPoint) : List Instruction :=
  [.slot (.load .ref) stackVar, .int (Int32.ofNat p.entry),
   .int (Int32.ofNat p.plan.counts.objects), .int (Int32.ofNat p.plan.counts.prims), pushMethod]
  ++ p.plan.stack.reverse.flatMap (fun (v, keep) => saveSlot stackVar v keep)
  ++ locals (saveLocal stackVar) 0 p.plan.locals

/-- **Restoring a frame**: the locals that the caller does not supply, then the operand stack from the
bottom up. -/
def restore (stackVar : UInt32) (skip : Nat) (p : SuspensionPoint) : List Instruction :=
  locals (restoreLocal stackVar) skip (p.plan.locals.drop skip)
  ++ p.plan.stack.flatMap (fun (v, keep) => restoreSlot stackVar v keep)

end Emit

/-! ## The plan of a transformation -/

/-- **Everything that decides a transformed body**: the method with its frames, the points, and the
first label that is free. -/
structure Plan where
  subject : Subject
  points : List SuspensionPoint

namespace Plan

/-- The body at work. -/
def code (p : Plan) : Code := p.subject.method.code

/-- The local that holds the frame stack: the first one that the method does not use. -/
def stackVar (p : Plan) : UInt32 := p.subject.method.maxLocals

/-- The first label that the method does not use. -/
def firstLabel (p : Plan) : Label := p.subject.method.nextLabel

/-- The `n`-th fresh label. -/
def fresh (p : Plan) (n : Nat) : Label := p.firstLabel + UInt32.ofNat n

/-- The label in front of a point's saved region; points count from 0. -/
def beforeLabel (p : Plan) (n : Nat) : Label := p.fresh (2 * n)

/-- The label behind a point's saved region. -/
def afterLabel (p : Plan) (n : Nat) : Label := p.fresh (2 * n + 1)

/-- The label where the method's own code begins. -/
def startLabel (p : Plan) : Label := p.fresh (2 * p.points.length)

/-- The label where the method's own code ends. -/
def endLabel (p : Plan) : Label := p.fresh (2 * p.points.length + 1)

/-- The handler of every exception that leaves the method. -/
def catchAllLabel (p : Plan) : Label := p.fresh (2 * p.points.length + 2)

/-- The handler of the suspend signal. -/
def catchSignalLabel (p : Plan) : Label := p.fresh (2 * p.points.length + 3)

/-- The label to resume a point at. -/
def callLabel (p : Plan) (n : Nat) : Label := p.fresh (2 * p.points.length + 4 + n)

/-- The points as cuts. -/
def cuts (p : Plan) : List Cut :=
  p.points.zipIdx.map fun (point, n) => ⟨point.position, p.beforeLabel n, p.afterLabel n⟩

/-- The point at a position, with its number. -/
def pointAt? (p : Plan) (i : Nat) : Option (SuspensionPoint × Nat) :=
  p.points.zipIdx.find? fun (point, _) => point.position == i

/-- Whether some point leaves a construction out of its record. -/
def isOmitted (p : Plan) (newAt : Nat) : Bool :=
  p.points.any fun point => (p.subject.deferredSites point.frame).contains newAt

/-- **Whether an instruction is dropped**: the `new` and the `dup` of a construction that is redone
later. -/
def isDropped (p : Plan) (i : Nat) : Bool :=
  p.subject.types.sites.any fun s =>
    p.isOmitted s.newAt && (s.newAt == i || s.dupAt == some i)

/-! ## Deferred constructions -/

/-- A construction that is redone in front of its constructor call: its `new`, its `dup`, and the
arguments that are on the stack by then, top first. -/
structure Deferral where
  site : Site
  create : Instruction
  copy : Instruction
  args : List SlotType
deriving Repr, Inhabited

/-- The fault of a construction whose pending references are not where they must be. -/
def badShape (p : Plan) (cls : Text) (i : Nat) : Fault :=
  p.subject.unable (Text.ofString "unexpected shape of deferred construction of " ++ cls
    ++ Text.ofString " at instruction " ++ Text.ofNat i)

/-- The constructor that an instruction calls. -/
def constructor? (instr : Instruction) : Option Member :=
  match instr.opcode, instr.operand with
  | .invoke .special, .member m => if m.name == Text.ofString "<init>" then some m else none
  | _, _ => none

/-- **Whether a constructor call completes a construction that was left out**, which it does when its
receiver is a pending reference of an omitted site.  The receiver must then be the copy that `dup`
made, with the reference of `new` right below it. -/
def deferral? (p : Plan) (i : Nat) (instr : Instruction) : Except Fault (Option Deferral) :=
  match constructor? instr, (p.subject.types.frames[i]?).join with
  | some m, some f =>
    let n := (Descriptor.argCount m.desc).toNat
    match f.stack.drop n with
    | .pending newAt cls copied :: below =>
      if !p.isOmitted newAt then .ok none
      else
        match p.subject.site? newAt with
        | none => .ok none
        | some site =>
          match site.dupAt, below with
          | some dupAt, .pending newAt' _ false :: _ =>
            if copied && newAt' == newAt then
              .ok (some
                { site
                  create := p.code.getD newAt default
                  copy := p.code.getD dupAt default
                  args := f.stack.take n })
            else .error (p.badShape cls i)
          | _, _ => .error (p.badShape cls i)
    | _ => .ok none
  | _, _ => .ok none

/-- Moves the values on top of the stack to temporaries, the top one first. -/
def spill (base : UInt32) (args : List SlotType) : List Instruction :=
  args.zipIdx.map fun (v, k) => Emit.storeOf v (base + UInt32.ofNat k)

/-- Moves the temporaries back, the deepest one first. -/
def reload (base : UInt32) (args : List SlotType) : List Instruction :=
  (args.zipIdx.map fun (v, k) => Emit.loadOf v (base + UInt32.ofNat k)).reverse

/-- A constructor call with its construction redone under the arguments. -/
def Deferral.emit (d : Deferral) (base : UInt32) (call : Instruction) : List Instruction :=
  spill base d.args ++ [d.create, d.copy] ++ reload base d.args ++ [call]

/-! ## Images -/

/-- **What stands for an instruction that is no suspension point.** -/
def image (p : Plan) (i : Nat) (instr : Instruction) : Except Fault (List Instruction) :=
  if p.isDropped i then .ok []
  else if instr.opcode.isReturn then
    .ok [.slot (.load .ref) p.stackVar, Emit.popMethod, instr]
  else
    match p.deferral? i instr with
    | .error e => .error e
    | .ok none => .ok [instr]
    | .ok (some d) => .ok (d.emit (p.stackVar + 1) instr)

/-- What stands for a suspension point.  A request to suspend throws the signal once its frame is
saved, and there is no call to repeat when it is resumed. -/
def pointImage (p : Plan) (point : SuspensionPoint) (n : Nat) : List Instruction :=
  [.mark (p.beforeLabel n)] ++ Emit.save p.stackVar point
  ++ (if point.isYield then [Emit.signal, .plain .throw] else [])
  ++ [.mark (p.callLabel n)] ++ Emit.restore p.stackVar p.subject.firstLocal point
  ++ [.mark (p.afterLabel n)]
  ++ (if point.isYield then [] else [point.call])

/-- What stands for the instruction at a position. -/
def segment (p : Plan) (i : Nat) (instr : Instruction) : Except Fault (List Instruction) :=
  match p.pointAt? i with
  | some (point, n) => .ok (p.pointImage point n)
  | none => p.image i instr

/-- The segments of the instructions from a position on. -/
def segments (p : Plan) : Nat → List Instruction → Except Fault (List Instruction)
  | _, [] => .ok []
  | i, instr :: rest =>
    match p.segment i instr with
    | .error e => .error e
    | .ok here =>
      match p.segments (i + 1) rest with
      | .error e => .error e
      | .ok more => .ok (here ++ more)

/-- The instructions in front of the method's own code. -/
def prologue (p : Plan) : List Instruction :=
  [Emit.getStack, .plain .dup, .slot (.store .ref) p.stackVar, Emit.nextEntry,
   ⟨.tableSwitch, .table 1 ((List.range p.points.length).map p.callLabel) p.startLabel⟩,
   .mark p.startLabel]

/-- The instructions behind the method's own code. -/
def epilogue (p : Plan) : List Instruction :=
  [.mark p.endLabel, .mark p.catchAllLabel, .slot (.load .ref) p.stackVar, Emit.popMethod,
   .mark p.catchSignalLabel, .plain .throw]

/-- **The protected ranges of the transformed method**: the suspend signal passes before any handler
of the method sees it, and whatever the method does not catch pops the record. -/
def ranges (p : Plan) : List ExceptionRange :=
  [⟨ClassName.suspendSignal, p.startLabel, p.endLabel, p.catchSignalLabel⟩]
  ++ Cut.applyAll (Cut.labelPosition p.code p.cuts) p.cuts p.subject.method.ranges
  ++ [⟨[], p.startLabel, p.endLabel, p.catchAllLabel⟩]

/-- The number of temporaries that redone constructions need from a position on. -/
def temporaries (p : Plan) : Nat → List Instruction → Nat
  | _, [] => 0
  | i, instr :: rest =>
    let here := match p.deferral? i instr with
      | .ok (some d) => d.args.length
      | _ => 0
    max here (p.temporaries (i + 1) rest)

/-- **The transformed method.** -/
def generate (p : Plan) : Except Fault Method :=
  match p.segments 0 p.code.toList with
  | .error e => .error e
  | .ok body =>
    let m := { p.subject.method with
      code := (p.prologue ++ body ++ p.epilogue).toArray
      ranges := p.ranges
      maxLocals := p.stackVar + 1 + UInt32.ofNat (p.temporaries 0 p.code.toList) }
    match m.stackNeed with
    | .error e =>
      .error (Fault.ofReport
        { phase := Phase.instrument, kind := FaultKind.unableToInstrument, cls := p.subject.owner,
          method := m.key, detail := "generated code has inconsistent stack" }
        (some (.plain e.message)))
    | .ok n => .ok { m with maxStack := UInt32.ofNat n }

/-- Reports every construction that is redone, up to the first that cannot be. -/
def announce (p : Plan) : Nat → List Instruction → Query Unit
  | _, [] => return ()
  | i, instr :: rest =>
    match p.deferral? i instr with
    | .error _ => return ()
    | .ok none => announce p (i + 1) rest
    | .ok (some d) => do
      Hierarchy.send p.subject.sink .debug "re-creating deferred construction"
        [("type", .text d.site.cls), ("instr", .number i), ("args", .number d.args.length)]
      announce p (i + 1) rest

end Plan

/-! ## One method -/

namespace Subject

/-- Whether a body enters or leaves monitors. -/
def hasMonitors (s : Subject) : Bool :=
  s.method.code.any fun i => i.opcode == .monitorEnter || i.opcode == .monitorExit

/-- Monitors held across a suspension: refused, or worth a warning. -/
def checkMonitors (s : Subject) : Query (Except Fault Unit) := do
  if !s.hasMonitors then return .ok ()
  if !s.policy.allowMonitors then return .error (s.unable "synchronization")
  Hierarchy.send s.sink .warn "method contains synchronization" []
  return .ok ()

/-- **Transforming a method whose frames are known**; `none` when it has no suspension point. -/
def transform (s : Subject) : Query (Except Fault (Option Method)) := do
  match ← SuspensionPoint.collect s with
  | .error e => return .error e
  | .ok [] => return .ok none
  | .ok points =>
    match ← s.checkMonitors with
    | .error e => return .error e
    | .ok () =>
      Hierarchy.send s.sink .info "instrumenting method" [("points", .number points.length)]
      if s.method.ranges.any (·.type == ClassName.suspendSignal) then
        return .error (s.unable (Text.ofString "catch for " ++ ClassName.suspendSignal))
      let plan : Plan := ⟨s, points⟩
      plan.announce 0 s.method.code.toList
      return plan.generate.map some

end Subject

/-- **Transforming a method of a class**: its frames are analysed first. -/
def Method.transform (src : ClassSource) (policy : Policy) (owner : Text) (m : Method) :
    Query (Conclusion (Option Method)) := do
  match ← Analysis.run { source := src, sink := src.sink, owner, method := m } with
  | .endless => return .endless
  | .error e => return .error e
  | .ok types =>
    let sink := src.sink.adding [("class", .text owner), ("method", .text m.key)]
    return .ofExcept (← Subject.transform { source := src, policy, sink, owner, method := m, types })

end Suspension
