import Suspension.Frame.Analysis

/-!
# Suspension points

A method can be left and entered again only at its **suspension points**: the reachable calls that may
suspend.  This module finds them, and lays out for each of them where the slots of its frame are kept
in the frame stack meanwhile.

* `CallKind`, `callKind` — what a call is to the transformation.
* `Keep`, `SlotPlan` — what is saved of a frame, and where.
* `SuspensionPoint.collect` — the points of a method in order.
-/

namespace Suspension

/-! ## Slot plans -/

/-- **How a slot outlasts a suspension.** -/
inductive Keep where
  /-- the slot holds nothing worth saving; null is made anew -/
  | nothing
  /-- a construction that is redone right before its constructor call -/
  | deferred
  /-- an object slot of the record -/
  | object (index : Nat)
  /-- a primitive slot of the record -/
  | prim (index : Nat)
deriving DecidableEq, Repr, Inhabited

/-- The numbers of object and primitive slots in use. -/
structure SlotCounts where
  objects : Nat := 0
  prims : Nat := 0
deriving DecidableEq, Repr, Inhabited

/-- A place for one value: the next slot of its storage. -/
def SlotCounts.place (c : SlotCounts) (v : SlotType) : Keep × SlotCounts :=
  if v.isSkipped then (.nothing, c)
  else
    match v.kind? with
    | some .ref => (.object c.objects, { c with objects := c.objects + 1 })
    | _ => (.prim c.prims, { c with prims := c.prims + 1 })

/-- **What is saved of a frame.**  The stack is listed bottom first. -/
structure SlotPlan where
  stack : List (SlotType × Keep)
  locals : List (SlotType × Keep)
  counts : SlotCounts
deriving DecidableEq, Repr, Inhabited

namespace SlotPlan

/-- Places for the values of an operand stack, bottom first. -/
def placeStack (isDeferred : SlotType → Bool) :
    List SlotType → SlotCounts → List (SlotType × Keep) × SlotCounts
  | [], c => ([], c)
  | v :: rest, c =>
    let (k, c) := if isDeferred v then (Keep.deferred, c) else c.place v
    let (ks, c) := placeStack isDeferred rest c
    ((v, k) :: ks, c)

/-- Places for the locals; the first `skip` of them are supplied by the caller again. -/
def placeLocals : Nat → List SlotType → SlotCounts → List (SlotType × Keep) × SlotCounts
  | _, [], c => ([], c)
  | skip, v :: rest, c =>
    let (k, c) := if skip = 0 then c.place v else (Keep.nothing, c)
    let (ks, c) := placeLocals (skip - 1) rest c
    ((v, k) :: ks, c)

/-- **The plan of a frame**: object and primitive slots are numbered apart, first for the stack, then
for the locals. -/
def ofFrame (isDeferred : SlotType → Bool) (skip : Nat) (f : Frame) : SlotPlan :=
  let (stack, c) := placeStack isDeferred f.stack.reverse {}
  let (locals, c) := placeLocals skip f.locals.toList c
  ⟨stack, locals, c⟩

end SlotPlan

/-! ## Calls -/

/-- The class whose `invoke` calls a method by reflection. -/
def reflectedMethod : Text := "core/reflect/Method"

/-- The call that stands in for a reflective one.  It lets the suspend signal through, where the
reflective call would wrap it. -/
def reflectInvoke : Instruction :=
  .member (.invoke .static) ClassName.coroutine "reflectInvoke"
    "(Lcore/reflect/Method;Lcore/Object;[Lcore/Object;)Lcore/Object;"

/-- **The calls that block the thread** instead of suspending the coroutine: class, name and
descriptors. -/
def blockingCalls : List (Text × Text × List Text) :=
  [("core/Thread", "sleep", ["(J)V", "(JI)V"]),
   ("core/Thread", "join", ["()V", "(J)V", "(JI)V"]),
   (ClassName.object, "wait", ["()V", "(J)V", "(JI)V"]),
   ("core/concurrent/Lock", "lock", ["()V"]),
   ("core/concurrent/Lock", "lockInterruptibly", ["()V"])]

/-- The row of the table of blocking calls that a call is in. -/
def blockingRow? (m : Member) : Option Nat :=
  blockingCalls.findIdx? fun (owner, name, descs) =>
    owner == m.owner && name == m.name && descs.contains m.desc

/-- Whether a call is the request to suspend. -/
def Member.isYield (m : Member) : Bool :=
  m.owner == ClassName.coroutine && m.name == Text.ofString "yield" && m.desc == Text.ofString "()V"

/-- Whether a call is a call by reflection. -/
def Member.isReflective (m : Member) : Bool :=
  m.owner == reflectedMethod && m.name == Text.ofString "invoke"

/-- A call as text. -/
def Member.target (m : Member) : Text := m.owner ++ Text.ofString "." ++ m.name ++ m.desc

/-- The method that an instruction calls, constructors apart. -/
def Instruction.callee? (i : Instruction) : Option Member :=
  match i.opcode, i.operand with
  | .invoke _, .member m => if m.name == Text.ofString "<init>" then none else some m
  | _, _ => none

/-- Whether a call looks for its method in the superclasses too. -/
def Opcode.searchesSupers : Opcode → Bool
  | .invoke .virtual | .invoke .static => true
  | _ => false

/-- **What a call is to the transformation.** -/
inductive CallKind where
  | plain
  | suspends
  | reflective
  | yields
  | badYield
  | blocks (row : Nat)
deriving DecidableEq, Repr

/-- The kind of a call, as far as the classes are known. -/
def callKind (src : ClassSource) (op : Opcode) (m : Member) : Query CallKind := do
  if m.isReflective then return .reflective
  if ← Hierarchy.isSuspendable src m.owner m.name m.desc op.searchesSupers then
    if m.isYield then return if op == .invoke .static then .yields else .badYield
    return .suspends
  match blockingRow? m with
  | some row => return .blocks row
  | none => return .plain

/-! ## Points -/

/-- **A suspension point**: a call, the entry that resumes it, the frame before it and what is saved of
that frame.  A call by reflection is exchanged for one that lets the signal through. -/
structure SuspensionPoint where
  position : Nat
  entry : Nat
  call : Instruction
  frame : Frame
  plan : SlotPlan
  isYield : Bool := false
deriving DecidableEq, Repr, Inhabited

/-- What the transformation may leave alone, and whether its results are validated. -/
structure Policy where
  allowMonitors : Bool := false
  allowBlocking : Bool := false
  check : Bool := false
deriving DecidableEq, Repr, Inhabited

/-- The method at work, with its frame types. -/
structure Subject where
  source : ClassSource
  policy : Policy
  sink : Sink
  owner : Text
  method : Method
  types : FrameTypes

namespace Subject

/-- The fault of a method that does not meet a condition. -/
def unable (s : Subject) (detail : Text) : Fault :=
  .unableToInstrument s.owner s.method.name s.method.desc detail

/-- The construction that a position's `new` begins. -/
def site? (s : Subject) (newAt : Nat) : Option Site := s.types.sites.find? (·.newAt == newAt)

/-- **Whether a stack slot is left out of the record**: a pending construction of a site that is not
pinned. -/
def isDeferred (s : Subject) : SlotType → Bool
  | .pending newAt _ _ =>
    match s.site? newAt with
    | some site => !site.pinned
    | none => false
  | _ => false

/-- The sites that a frame's stack leaves out, bottom first. -/
def deferredSites (s : Subject) (f : Frame) : List Nat :=
  f.stack.reverse.filterMap fun v =>
    match v with
    | .pending newAt _ _ => if s.isDeferred v then some newAt else none
    | _ => none

/-- The locals that the caller supplies again. -/
def firstLocal (s : Subject) : Nat := s.method.receiverCount

/-- The point of a call. -/
def point (s : Subject) (position entry : Nat) (call : Instruction) (f : Frame) (isYield : Bool) :
    SuspensionPoint :=
  { position, entry, call, frame := f, isYield,
    plan := .ofFrame s.isDeferred s.firstLocal f }

end Subject

/-- The points found so far, latest first; the sites already reported as left out, and the rows of the
blocking table already warned about. -/
structure PointSearch where
  points : List SuspensionPoint := []
  deferred : List Nat := []
  warned : List Nat := []
deriving Repr, Inhabited

namespace PointSearch

/-- Reports each site that is left out, once. -/
def reportDeferred (s : Subject) : List Nat → PointSearch → Query PointSearch
  | [], acc => return acc
  | newAt :: rest, acc => do
    if acc.deferred.contains newAt then reportDeferred s rest acc
    else
      match s.site? newAt with
      | none => reportDeferred s rest acc
      | some site =>
        Hierarchy.send s.sink .debug "omitting construction"
          [("type", .text site.cls), ("new", .number site.newAt),
           ("dup", .number ((site.dupAt.map Int.ofNat).getD (-1)))]
        reportDeferred s rest { acc with deferred := newAt :: acc.deferred }

/-- One more point. -/
def add (s : Subject) (acc : PointSearch) (position : Nat) (call : Instruction) (f : Frame)
    (isYield : Bool) : Query PointSearch := do
  let acc ← reportDeferred s (s.deferredSites f) acc
  return { acc with points := s.point position (acc.points.length + 1) call f isYield :: acc.points }

/-- A blocking call: refused, or worth one warning for its row. -/
def block (s : Subject) (acc : PointSearch) (m : Member) (row : Nat) :
    Query (Except Fault PointSearch) := do
  if !s.policy.allowBlocking then
    return .error (s.unable (Text.ofString "blocking call to " ++ m.target))
  if acc.warned.contains row then return .ok acc
  Hierarchy.send s.sink .warn "method contains potentially blocking call"
    [("target", .text m.target)]
  return .ok { acc with warned := row :: acc.warned }

/-- **One reachable instruction.** -/
def visit (s : Subject) (acc : PointSearch) (position : Nat) (instr : Instruction) (f : Frame) :
    Query (Except Fault PointSearch) := do
  match instr.callee? with
  | none => return .ok acc
  | some m =>
    match ← callKind s.source instr.opcode m with
    | .plain => return .ok acc
    | .reflective =>
      Hierarchy.send s.sink .debug "replacing reflective invoke with wrapper; assumed suspendable"
        [("instr", .number position)]
      return .ok (← add s acc position reflectInvoke f false)
    | .badYield =>
      return .error (s.unable (Text.ofString "invalid call to yield at instruction "
        ++ Text.ofNat position))
    | .yields => return .ok (← add s acc position instr f true)
    | .suspends =>
      Hierarchy.send s.sink .debug "suspendable call"
        [("instr", .number position), ("target", .text m.target)]
      return .ok (← add s acc position instr f false)
    | .blocks row => block s acc m row

/-- The instructions from a position on. -/
def visitAll (s : Subject) : List Instruction → Nat → PointSearch →
    Query (Except Fault PointSearch)
  | [], _, acc => return .ok acc
  | instr :: rest, position, acc => do
    match (s.types.frames[position]?).join with
    | none => visitAll s rest (position + 1) acc
    | some f =>
      match ← visit s acc position instr f with
      | .error e => return .error e
      | .ok acc => visitAll s rest (position + 1) acc

end PointSearch

/-- **The suspension points of a method**, in the order of their positions. -/
def SuspensionPoint.collect (s : Subject) : Query (Except Fault (List SuspensionPoint)) := do
  match ← PointSearch.visitAll s s.method.code.toList 0 {} with
  | .error e => return .error e
  | .ok acc => return .ok acc.points.reverse

end Suspension
