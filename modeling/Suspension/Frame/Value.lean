import Suspension.Hierarchy

/-!
# Frame types

The abstract contents of locals and operand stack before an instruction.

A construction is split over several instructions, `new`, `dup`, the arguments, the constructor call.
Until the call a reference to the object is **pending**: it is tracked by the position of its `new`,
the construction's *site*, and by whether it is the copy that the site's `dup` made.  A site is
*pinned* when a pending reference is used in any way but that shape; an unpinned construction can be
left out while its arguments are evaluated and be redone right before the constructor call.
-/

namespace Suspension

/-- **What is known about one slot.** -/
inductive SlotType where
  /-- no usable value: never written, or different on two paths -/
  | unusable
  | int
  | long
  | float
  | double
  /-- a reference; the class `null` is that of the null constant -/
  | ref (cls : Text)
  /-- a pending reference of the construction at `site`; `copied` is the one that `dup` made -/
  | pending (site : Nat) (cls : Text) (copied : Bool)
deriving DecidableEq, Repr, Inhabited

namespace SlotType

/-- The type of the null constant. -/
def null : SlotType := ref ClassName.null

/-- The type of a slot of a given kind, a reference being to anything. -/
def ofKind : Kind → SlotType
  | .int => int
  | .long => long
  | .float => float
  | .double => double
  | .ref => ref ClassName.object

/-- The type that a field descriptor denotes. -/
def ofDesc (desc : Text) : SlotType :=
  match Descriptor.kind? desc with
  | some .int => int
  | some .long => long
  | some .float => float
  | some .double => double
  | some .ref => ref (Descriptor.classOf desc)
  | none => unusable

/-- The kind of storage a slot takes; an unusable one takes none. -/
def kind? : SlotType → Option Kind
  | unusable => none
  | int => some .int
  | long => some .long
  | float => some .float
  | double => some .double
  | ref _ => some .ref
  | pending _ _ _ => some .ref

/-- Whether the slot holds the null constant. -/
def isNull (v : SlotType) : Bool := v == null

/-- Whether saving the slot stores nothing, because restoring can make it anew. -/
def isSkipped (v : SlotType) : Bool := v == unusable || v.isNull

/-- The class that a reference is known to have. -/
def typeName : SlotType → Text
  | ref c => c
  | pending _ c _ => c
  | _ => []

/-- The name of a kind of slot in messages. -/
def kindName : Option Kind → Text
  | none => "uninitialized"
  | some k => k.name

/-- A slot in messages and listings. -/
def render : SlotType → Text
  | ref c => c
  | pending _ c copied => Text.ofString (if copied then "new'" else "new ") ++ c
  | v => kindName v.kind?

end SlotType

/-- **One construction**: its `new`, the `dup` seen behind it, and whether it is pinned. -/
structure Site where
  cls : Text
  newAt : Nat
  dupAt : Option Nat := none
  pinned : Bool := false
deriving DecidableEq, Repr, Inhabited

/-- The types of all slots before an instruction.  The stack is kept top first. -/
structure Frame where
  locals : Array SlotType
  stack : List SlotType := []
deriving DecidableEq, Repr, Inhabited

/-- Why a body cannot be typed. -/
inductive FrameFault where
  | underflow
  | kindExpected (want : Option Kind) (got : SlotType)
  | inLocal (index : Nat) (cause : FrameFault)
  | badIncrement
  | missingLocal (op : Opcode)
  | localOutOfRange (index locals : Nat)
  | missingType (op : Opcode)
  | missingMember (op : Opcode)
  | descriptor (cause : Descriptor.MethodError)
  | inArgument (index : Nat) (owner name : Text) (cause : FrameFault)
  | receiverExpected (owner name : Text) (got : SlotType)
  | unsupported (op : Opcode)
  | unmergeable (a b : SlotType)
  | inStackSlot (slot position : Nat) (cause : FrameFault)
  | heightMismatch (position a b : Nat)
  | undefinedTarget (id : Label)
  | fallsOff
  | noReceiver
  | tooManyParams (locals : Nat)
  | undefinedBound (which : Text) (id : Label)
deriving Repr, DecidableEq

/-- The wording of a fault. -/
def FrameFault.message : FrameFault → Text
  | underflow => "stack underflow"
  | kindExpected want got =>
    Text.ofString "expected " ++ SlotType.kindName want ++ Text.ofString ", got " ++ got.render
  | inLocal i e => Text.ofString "local " ++ Text.ofNat i ++ Text.ofString ": " ++ e.message
  | badIncrement => "iinc: bad local operand"
  | missingLocal op => op.name ++ Text.ofString ": missing local operand"
  | localOutOfRange i n =>
    Text.ofString "local " ++ Text.ofNat i ++ Text.ofString " out of range (" ++ Text.ofNat n
      ++ Text.ofString " locals)"
  | missingType op => op.name ++ Text.ofString ": missing type operand"
  | missingMember op => op.name ++ Text.ofString ": missing member operand"
  | descriptor e => e.message
  | inArgument i owner name e =>
    Text.ofString "argument " ++ Text.ofNat i ++ Text.ofString " of " ++ owner ++ Text.ofString "."
      ++ name ++ Text.ofString ": " ++ e.message
  | receiverExpected owner name got =>
    Text.ofString "receiver of " ++ owner ++ Text.ofString "." ++ name
      ++ Text.ofString ": expected ref, got " ++ got.render
  | unsupported op => Text.ofString "unsupported opcode 0x" ++ Text.hexPadded 2 op.byte.toNat
  | unmergeable a b =>
    Text.ofString "cannot merge " ++ a.render ++ Text.ofString " with " ++ b.render
  | inStackSlot s i e =>
    Text.ofString "stack slot " ++ Text.ofNat s ++ Text.ofString " at instruction " ++ Text.ofNat i
      ++ Text.ofString ": " ++ e.message
  | heightMismatch i a b =>
    Text.ofString "stack height mismatch at instruction " ++ Text.ofNat i ++ Text.ofString ": "
      ++ Text.ofNat a ++ Text.ofString " vs " ++ Text.ofNat b
  | undefinedTarget id => Text.ofString "jump to undefined label " ++ Text.ofNat id.toNat
  | fallsOff => "execution falls off the end of the code"
  | noReceiver => "no local for the receiver"
  | tooManyParams n =>
    Text.ofString "parameters exceed " ++ Text.ofNat n ++ Text.ofString " locals"
  | undefinedBound which id =>
    Text.ofString "undefined " ++ which ++ Text.ofString " label " ++ Text.ofNat id.toNat

end Suspension
