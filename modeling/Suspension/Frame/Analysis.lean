import Suspension.Frame.Transfer

/-!
# Frame analysis

The types of all locals and of the operand stack **before each instruction of a method**, found by
following the control flow from the entry until nothing changes any more.  Where paths meet,
references become references to the class they have in common, and other differences make a local
unusable; different operand stacks are a fault.

* `Analysis.merge` — two slots at a join, `Analysis.mergeInto` — two frames.
* `Analysis.step` — an instruction, its successors and the handlers that cover it.
* `Analysis.run` — the whole method.
-/

namespace Suspension

/-- A protected range by positions, with the class of what its handler finds on the stack. -/
structure HandlerSpan where
  cls : Text
  start : Nat
  stop : Nat
  handler : Nat
deriving DecidableEq, Repr

/-- **The result of an analysis**: a frame for every instruction that can be reached, and the
constructions in the order of their `new`. -/
structure FrameTypes where
  frames : Array (Option Frame)
  sites : List Site
deriving Repr, DecidableEq

/-- **What work that needs an analysis comes to**: a value, or a fault, or neither, where the analysis goes
on for ever and the work never returns. -/
inductive Conclusion (α : Type) where
  | ok (value : α)
  | error (cause : Fault)
  | endless
deriving Repr

/-- The value, if there is one. -/
def Conclusion.toOption {α : Type} : Conclusion α → Option α
  | ok v => some v
  | error _ | endless => none

/-- What is already known to return. -/
def Conclusion.ofExcept {α : Type} : Except Fault α → Conclusion α
  | .ok v => ok v
  | .error e => error e

namespace Analysis

open Transfer

/-- A pending construction as the reference it is saved as. -/
def settle (v : SlotType) : SlotType :=
  match v with
  | .pending _ cls _ => .ref cls
  | _ => v

/-- A question about classes. -/
def ask {α : Type} (q : Query α) : Transfer α := do
  let a ← get
  let (r, h) := q.run a.hierarchy
  set { a with hierarchy := h }
  return r

/-- **Two slots that meet.**  On the operand stack they must be compatible. -/
def merge (ctx : AnalysisContext) (position : Nat) (a b : SlotType) (onStack : Bool) :
    Transfer SlotType := do
  if a == b then return a
  pinSlot ctx position a "merged with a different value"
  pinSlot ctx position b "merged with a different value"
  let a := settle a
  let b := settle b
  if a == b then return a
  match a, b with
  | .ref ca, .ref cb =>
    if a.isNull then return b
    if b.isNull then return a
    match ← ask (Hierarchy.commonSuper ctx.source ca cb) with
    | some c => return .ref c
    | none => return .ref ClassName.object
  | _, _ => if onStack then throw (.unmergeable a b) else return .unusable

/-- The locals of two frames that meet. -/
def mergeLocals (ctx : AnalysisContext) (position : Nat) :
    List SlotType → List SlotType → Transfer (List SlotType)
  | a :: as, b :: bs => do
    let v ← merge ctx position a b false
    return v :: (← mergeLocals ctx position as bs)
  | as, _ => return as

/-- The stacks of two frames that meet, bottom first; `slot` numbers from the bottom. -/
def mergeStack (ctx : AnalysisContext) (position target : Nat) :
    Nat → List SlotType → List SlotType → Transfer (List SlotType)
  | slot, a :: as, b :: bs => do
    let v ← ExceptT.adapt (FrameFault.inStackSlot slot target) (merge ctx position a b true)
    return v :: (← mergeStack ctx position target (slot + 1) as bs)
  | _, as, _ => return as

/-- A position whose frame has changed is followed again, if it is not waiting already. -/
def enqueue (target : Nat) : Transfer Unit := modify fun a =>
  if a.pending.contains target then a else { a with pending := target :: a.pending }

/-- **A frame reaches a position.** -/
def mergeInto (ctx : AnalysisContext) (position target : Nat) (f : Frame) : Transfer Unit := do
  match (← get).frames[target]? with
  | none => return ()
  | some none =>
    modify fun a => { a with frames := a.frames.set! target (some f) }
    enqueue target
  | some (some old) =>
    if old.stack.length != f.stack.length then
      throw (.heightMismatch target old.stack.length f.stack.length)
    let locals ← mergeLocals ctx position old.locals.toList f.locals.toList
    let stack ← mergeStack ctx position target 0 old.stack.reverse f.stack.reverse
    let new : Frame := { locals := locals.toArray, stack := stack.reverse }
    if new != old then
      modify fun a => { a with frames := a.frames.set! target (some new) }
      enqueue target

/-- The frame before a position. -/
def frameAt (position : Nat) : Transfer (Option Frame) := do
  return ((← get).frames[position]?).join

/-- A covered instruction may fail before or after it has changed the locals: both reach the
handler, with the exception alone on the stack. -/
def reachHandlers (ctx : AnalysisContext) (position : Nat) (after : Frame) :
    List HandlerSpan → Transfer Unit
  | [] => return ()
  | s :: rest => do
    if s.start ≤ position && position < s.stop then
      match ← frameAt position with
      | none => return ()
      | some before =>
        mergeInto ctx position s.handler { locals := before.locals, stack := [.ref s.cls] }
        mergeInto ctx position s.handler { locals := after.locals, stack := [.ref s.cls] }
    reachHandlers ctx position after rest

/-- The targets of a jump are reached. -/
def reachTargets (ctx : AnalysisContext) (position : Nat) (after : Frame) :
    List Label → Transfer Unit
  | [] => return ()
  | id :: rest => do
    match ctx.method.code.labelAt? id with
    | none => throw (.undefinedTarget id)
    | some target => mergeInto ctx position target after
    reachTargets ctx position after rest

/-- **One instruction**: its effect, and where control goes from it. -/
def step (ctx : AnalysisContext) (spans : List HandlerSpan) (position : Nat) : Transfer Unit := do
  match ctx.method.code[position]?, ← frameAt position with
  | some instr, some before =>
    let after ← before.execute ctx position instr
    reachHandlers ctx position after spans
    reachTargets ctx position after instr.targets
    if instr.opcode.endsBlock then return ()
    if ctx.method.code.size ≤ position + 1 then throw .fallsOff
    mergeInto ctx position (position + 1) after
  | _, _ => return ()

/-- **How following positions ends**: a fault comes with its position. -/
abbrev Ending := Except (Nat × FrameFault) Unit × Analysis

/-- Following the latest pending position, if there is one. -/
def followOne (ctx : AnalysisContext) (spans : List HandlerSpan) (a : Analysis) : Ending ⊕ Analysis :=
  match a.pending with
  | [] => .inl (.ok (), a)
  | i :: rest =>
    match (step ctx spans i).run { a with pending := rest } with
    | (.error e, a) => .inl (.error (i, e), a)
    | (.ok (), a) => .inr a

/-- Following pending positions, the latest first, until none is left.  Where frames go on changing
there is no ending. -/
def follow (ctx : AnalysisContext) (spans : List HandlerSpan) (a : Analysis) : Option Ending :=
  result? (followOne ctx spans) a

/-- The same, with so many positions counted.  The count does not matter to the ending; counting is what
can be evaluated without one. -/
def loop (ctx : AnalysisContext) (spans : List HandlerSpan) : Nat → Analysis → Option Ending
  | 0, a => follow ctx spans a
  | count + 1, a =>
    match a.pending with
    | [] => some (.ok (), a)
    | i :: rest =>
      match (step ctx spans i).run { a with pending := rest } with
      | (.error e, a) => some (.error (i, e), a)
      | (.ok (), a) => loop ctx spans count a

/-- How often positions are followed, as a rule.  A frame changes only when one of its slots rises, from a
pending construction to its class, through superclasses to the root, and to unusable; the stack holds
at most three slots for each instruction. -/
def rounds (m : Method) (chain : Nat) : Nat :=
  let slots := m.maxLocals.toNat + 3 * m.code.size + 1
  (m.code.size + 1) * (slots * (chain + 5) + 1) + 1

/-! ## The whole method -/

/-- The positions of a range's labels. -/
def span (code : Code) (r : ExceptionRange) : Except FrameFault HandlerSpan :=
  match code.labelAt? r.start with
  | none => .error (.undefinedBound "start" r.start)
  | some start =>
    match code.labelAt? r.stop with
    | none => .error (.undefinedBound "end" r.stop)
    | some stop =>
      match code.labelAt? r.handler with
      | none => .error (.undefinedBound "handler" r.handler)
      | some handler =>
        .ok ⟨if r.type.isEmpty then ClassName.throwable else r.type, start, stop, handler⟩

/-- The positions of all ranges; a fault comes with the range's number. -/
def spans (code : Code) : List ExceptionRange → Nat → Except (Nat × FrameFault) (List HandlerSpan)
  | [], _ => .ok []
  | r :: rest, i =>
    match span code r with
    | .error e => .error (i, e)
    | .ok s =>
      match spans code rest (i + 1) with
      | .error e => .error e
      | .ok ss => .ok (s :: ss)

/-- **The frame at the entry**: the receiver, the parameters, and locals that hold nothing yet. -/
def entryFrame (owner : Text) (m : Method) : Except FrameFault Frame :=
  match Descriptor.parseMethod m.desc with
  | .error e => .error (.descriptor e)
  | .ok d =>
    let n := m.maxLocals.toNat
    if !m.isStatic && n == 0 then .error .noReceiver
    else
      let given := (if m.isStatic then [] else [SlotType.ref owner]) ++ d.params.map SlotType.ofDesc
      if n < given.length then .error (.tooManyParams n)
      else .ok { locals := (given ++ List.replicate (n - given.length) SlotType.unusable).toArray }

/-- A report about a method that names no instruction. -/
def report (ctx : AnalysisContext) (detail : Text) (e : FrameFault) : Fault :=
  .caused { phase := Phase.analyze, kind := FaultKind.analysis, cls := ctx.owner,
            method := ctx.method.key, detail } (.plain e.message)

/-- A report about an instruction of a method. -/
def reportAt (ctx : AnalysisContext) (position : Nat) (e : FrameFault) : Fault :=
  .analysis ctx.owner ctx.method.name ctx.method.desc position (some (.plain e.message))

/-- **The types of all slots of a method.**  It is endless where frames go on changing. -/
def run (ctx : AnalysisContext) : Query (Conclusion FrameTypes) := fun h =>
  let m := ctx.method
  match spans m.code m.ranges 0 with
  | .error (i, e) =>
    (.error (report ctx (Text.ofString "exception range " ++ Text.ofNat i) e), h)
  | .ok ss =>
    match entryFrame ctx.owner m with
    | .error e => (.error (report ctx [] e), h)
    | .ok entry =>
      let a : Analysis := { hierarchy := h, frames := Array.replicate m.code.size none }
      match (mergeInto ctx 0 0 entry).run a with
      | (.error e, a) => (.error (reportAt ctx 0 e), a.hierarchy)
      | (.ok (), a) =>
        match loop ctx ss (rounds m (ctx.source.height + h.classes.length + 2)) a with
        | none => (.endless, h)
        | some (.error (i, e), a) => (.error (reportAt ctx i e), a.hierarchy)
        | some (.ok (), a) =>
          let sites := a.sites.mergeSort fun x y => x.newAt ≤ y.newAt
          (.ok ⟨a.frames, sites⟩, a.hierarchy)

end Analysis

end Suspension
