import Suspension.Text.Basic

/-!
# Frame stacks

The saved state of suspended methods, outside the host's call stack.  A transformed method **enters**
the next record when it starts, **pushes** its entry and the sizes of its slot arrays before each
call that may suspend, and **pops** its record before it returns.  After a suspension the stack is
**rewound**: its depth is zero again but the records keep their contents, and the methods that are
called again find the entries at which they stopped.

* `FrameStack` — records and the current depth; room for more is made by doubling.
* `FrameStack.ofSize?` — an empty stack; storage is limited, so not every size can be had.
* `FrameStack.enter`, `push`, `pop`, `rewind` — the life of a record.
* `FrameStack.Op`, `FrameStack.apply` — the operations as data.
-/

namespace Suspension

/-- The saved state of one activation; an entry of 0 means that nothing is saved. -/
structure FrameRecord (α : Type) where
  entry : Int := 0
  objects : Array α := #[]
  prims : Array UInt64 := #[]
deriving DecidableEq, Repr, Inhabited

/-- A record that nothing is saved in. -/
def FrameRecord.empty {α : Type} : FrameRecord α := {}

/-- The number of records a stack has room for unless told otherwise. -/
def FrameStack.defaultSize : Nat := 16

/-- **A frame stack.**  `depth` counts the activations entered; the current one is the last of them.
Records above it may still hold state that a later activation resumes.  There is `room` for that many
records, of which those behind the last of `records` have never been written and are empty. -/
structure FrameStack (α : Type) where
  records : Array (FrameRecord α) := #[]
  room : Nat := FrameStack.defaultSize
  depth : Nat := 0
deriving DecidableEq, Repr

instance {α : Type} : Inhabited (FrameStack α) := ⟨{}⟩

namespace FrameStack

variable {α : Type} [Inhabited α]

/-! ## Storage

An array takes a fixed number of bytes for each of its elements, and no more bytes than an address of
48 bits can tell apart. -/

/-- The bytes that one array can take. -/
def storage : Nat := 281474976710656

/-- The bytes of a record: its entry, and its two arrays with length and capacity. -/
def recordWidth : Nat := 56

/-- The bytes of an object slot. -/
def objectWidth : Nat := 16

/-- The bytes of a primitive slot. -/
def primWidth : Nat := 8

/-- Whether there can be an array of `count` elements of the given width. -/
def fits (width : Nat) (count : Int) : Bool := 0 ≤ count && count * width ≤ storage

/-- **An empty stack with room for `size` records**, or the default number if that is not positive;
`none` when it would not fit. -/
def ofSize? (size : Int) : Option (FrameStack α) :=
  if size ≤ 0 then some {}
  else if fits recordWidth size then some { room := size.toNat }
  else none

/-! ## The life of a record -/

/-- Room for another record: as many again as there are.  The limit of one array is not asked for, because no
run can come to it: a stack grows when all its records have been entered, and twice as many would be too many
only when those that have been entered fill half of all addresses. -/
def grow (s : FrameStack α) : FrameStack α :=
  if s.depth < s.room then s else { s with room := 2 * s.room }

/-- The record at a place, where there is room for one. -/
def record? (s : FrameStack α) (i : Nat) : Option (FrameRecord α) :=
  if i < s.room then some (s.records.getD i .empty) else none

/-- **Entering the next activation**: the entry it was suspended at, 0 when it starts afresh.  It always
succeeds, as `grow` does. -/
def enter (s : FrameStack α) : Int × FrameStack α :=
  let s := s.grow
  (((s.record? s.depth).map (·.entry)).getD 0, { s with depth := s.depth + 1 })

/-- The record of the current activation. -/
def current? (s : FrameStack α) : Option (FrameRecord α) :=
  match s.depth with
  | 0 => none
  | n + 1 => s.record? n

/-- Records with the one at a place exchanged, those in front of it being there. -/
def put (records : Array (FrameRecord α)) (i : Nat) (r : FrameRecord α) : Array (FrameRecord α) :=
  (records ++ Array.replicate (i + 1 - records.size) FrameRecord.empty).set! i r

/-- The stack with the current record exchanged. -/
def setCurrent (s : FrameStack α) (r : FrameRecord α) : FrameStack α :=
  { s with records := put s.records (s.depth - 1) r }

/-- **Saving where the current activation stands**: its entry, and fresh slots.  Without an
activation, or with a number of slots that is negative or does not fit, the push fails; it is carried
out up to the number at fault. -/
def push (s : FrameStack α) (entry objects prims : Int) : Bool × FrameStack α :=
  match s.current? with
  | none => (false, s)
  | some r =>
    let r := { r with entry }
    if !fits objectWidth objects then (false, s.setCurrent r)
    else
      let r := { r with objects := Array.replicate objects.toNat default }
      if !fits primWidth prims then (false, s.setCurrent r)
      else (true, s.setCurrent { r with prims := Array.replicate prims.toNat 0 })

/-- **Leaving the current activation** for good: its record is emptied. -/
def pop (s : FrameStack α) : FrameStack α :=
  if s.depth == 0 then s else { s.setCurrent .empty with depth := s.depth - 1 }

/-- Back to the outermost activation, whose entry is next to be handed out. -/
def rewind (s : FrameStack α) : FrameStack α := { s with depth := 0 }

/-- Whether a slot number is within an array, and the index it denotes. -/
def slot? (size : Nat) (slot : Int) : Option Nat :=
  if 0 ≤ slot && slot < size then some slot.toNat else none

/-- A reference stored in an object slot of the current record. -/
def setObject? (s : FrameStack α) (slot : Int) (v : α) : Option (FrameStack α) := do
  let r ← s.current?
  let i ← slot? r.objects.size slot
  return s.setCurrent { r with objects := r.objects.set! i v }

/-- Bits stored in a primitive slot of the current record. -/
def setPrim? (s : FrameStack α) (slot : Int) (bits : UInt64) : Option (FrameStack α) := do
  let r ← s.current?
  let i ← slot? r.prims.size slot
  return s.setCurrent { r with prims := r.prims.set! i bits }

/-- The reference in an object slot of the current record. -/
def object? (s : FrameStack α) (slot : Int) : Option α := do
  let r ← s.current?
  let i ← slot? r.objects.size slot
  r.objects[i]?

/-- The bits in a primitive slot of the current record. -/
def prim? (s : FrameStack α) (slot : Int) : Option UInt64 := do
  let r ← s.current?
  let i ← slot? r.prims.size slot
  r.prims[i]?

/-- **The saved activations**, outermost first: all records up to the first without an entry. -/
def frames (s : FrameStack α) : List (FrameRecord α) :=
  s.records.toList.takeWhile (·.entry != 0)

end FrameStack

/-! ## Primitive slots

Every primitive is stored as 64 bits; an int or float leaves the upper half zero. -/

namespace PrimSlot

/-- An int as slot bits. -/
def ofInt (v : Int32) : UInt64 := UInt64.ofNat v.toUInt32.toNat

/-- The int in slot bits. -/
def toInt (b : UInt64) : Int32 := (UInt32.ofNat b.toNat).toInt32

/-- A long as slot bits. -/
def ofLong (v : Int64) : UInt64 := v.toUInt64

/-- The long in slot bits. -/
def toLong (b : UInt64) : Int64 := b.toInt64

/-- A float's bits as slot bits. -/
def ofFloat (bits : UInt32) : UInt64 := UInt64.ofNat bits.toNat

/-- The float's bits in slot bits. -/
def toFloat (b : UInt64) : UInt32 := UInt32.ofNat b.toNat

end PrimSlot

/-! ## Operations as data -/

namespace FrameStack

/-- The operations on a frame stack. -/
inductive Op (α : Type) where
  | enter
  | push (entry objects prims : Int)
  | pop
  | rewind
  | depth
  | frames
  | setObject (slot : Int) (v : α)
  | setInt (slot : Int) (v : Int32)
  | setLong (slot : Int) (v : Int64)
  | setFloat (slot : Int) (bits : UInt32)
  | setDouble (slot : Int) (bits : UInt64)
  | object (slot : Int)
  | int (slot : Int)
  | long (slot : Int)
  | float (slot : Int)
  | double (slot : Int)
deriving DecidableEq, Repr

/-- What an operation answers; `misuse` is an operation that the stack does not allow. -/
inductive Answer (α : Type) where
  | done
  | misuse
  | entry (n : Int)
  | depth (n : Nat)
  | frames (rs : List (FrameRecord α))
  | object (v : α)
  | int (v : Int32)
  | long (v : Int64)
  | float (bits : UInt32)
  | double (bits : UInt64)
deriving DecidableEq, Repr

variable {α : Type} [Inhabited α]

/-- The outcome of a store: the stack it leaves, or a misuse. -/
def stored (s : FrameStack α) : Option (FrameStack α) → Answer α × FrameStack α
  | some s' => (.done, s')
  | none => (.misuse, s)

/-- The answer to a load. -/
def loaded {β : Type} (f : β → Answer α) : Option β → Answer α
  | some v => f v
  | none => .misuse

/-- **One operation**: its answer and the stack it leaves. -/
def apply (s : FrameStack α) : Op α → Answer α × FrameStack α
  | .enter => let (n, s) := s.enter; (.entry n, s)
  | .push e o p =>
    match s.push e o p with
    | (true, s) => (.done, s)
    | (false, s) => (.misuse, s)
  | .pop => (.done, s.pop)
  | .rewind => (.done, s.rewind)
  | .depth => (.depth s.depth, s)
  | .frames => (.frames s.frames, s)
  | .setObject i v => stored s (s.setObject? i v)
  | .setInt i v => stored s (s.setPrim? i (PrimSlot.ofInt v))
  | .setLong i v => stored s (s.setPrim? i (PrimSlot.ofLong v))
  | .setFloat i b => stored s (s.setPrim? i (PrimSlot.ofFloat b))
  | .setDouble i b => stored s (s.setPrim? i b)
  | .object i => (loaded .object (s.object? i), s)
  | .int i => (loaded (fun b => .int (PrimSlot.toInt b)) (s.prim? i), s)
  | .long i => (loaded (fun b => .long (PrimSlot.toLong b)) (s.prim? i), s)
  | .float i => (loaded (fun b => .float (PrimSlot.toFloat b)) (s.prim? i), s)
  | .double i => (loaded .double (s.prim? i), s)

end FrameStack

end Suspension
