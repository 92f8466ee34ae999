import Suspension.Text.Utf8

/-!
# Reading the container's elements

**The first failure sticks.**  A reader goes through a byte string; once an element cannot be read the
failure is kept, with the chain of sections it happened in and its position, and every later read
gives a zero value and leaves the reader as it is.  So a whole class can be read without looking at
failures in between.

* `Reader` — the unread bytes, the position, the open sections and the failure.
* `Reader.u32`, `Reader.s32`, `Reader.s64`, `Reader.name`, … — the elements.
* `Reader.count` — the length of a vector, refused when the vector cannot fit in what is unread.
-/

namespace Suspension

/-- Why an element cannot be read. -/
inductive ReadCause where
  | endOfInput
  | overflow
  | tooLong
  | invalidName
  | trailing
  | magic
  | version
  | unknownOpcode (byte : UInt8)
  | other (text : Text)
deriving DecidableEq, Repr

/-- The wording of a cause. -/
def ReadCause.message : ReadCause → Text
  | endOfInput => "unexpected EOF"
  | overflow => "leb128: overflow"
  | tooLong => "vector length exceeds remaining data"
  | invalidName => "invalid UTF-8 in name"
  | trailing => "trailing bytes after class"
  | magic => "invalid class magic number"
  | version => "invalid class version"
  | unknownOpcode b => Text.ofString "unknown opcode 0x" ++ Text.hexPadded 2 b.toNat
  | other t => t

/-- A failure with where it happened: the chain of sections, outermost first, and the position. -/
structure ReadFailure where
  cause : ReadCause
  section_ : Text
  position : Nat
deriving DecidableEq, Repr

/-- The wording of a failure. -/
def ReadFailure.message (f : ReadFailure) : Text :=
  Text.ofString "classfile: "
    ++ (if f.section_.isEmpty then [] else f.section_ ++ Text.ofString " ")
    ++ Text.ofString "at position " ++ Text.ofNat f.position ++ Text.ofString ": " ++ f.cause.message

/-- A part of the container that failures are attributed to; an element of a vector has an index. -/
structure Section where
  name : Text
  index : Option Nat := none
deriving DecidableEq, Repr

/-- The name of a section in failures. -/
def Section.label (s : Section) : Text :=
  match s.index with
  | none => s.name
  | some i => s.name ++ Text.ofString " " ++ Text.ofNat i

/-- The state of reading.  Sections are kept innermost first. -/
structure Reader where
  rest : Bytes
  position : Nat := 0
  sections : List Section := []
  failure : Option ReadFailure := none
deriving DecidableEq, Repr

/-- A read: a value and the reader after it. -/
abbrev Read (α : Type) := StateM Reader α

namespace Reader

/-- Whether at least `n` elements are left; only that many are looked at. -/
def hasAtLeast : Nat → Bytes → Bool
  | 0, _ => true
  | _ + 1, [] => false
  | n + 1, _ :: rest => hasAtLeast n rest

/-- Keeps a failure at the current position, unless there is one. -/
def fail (cause : ReadCause) : Read Unit := modify fun r =>
  match r.failure with
  | some _ => r
  | none =>
    let chain := Text.join (Text.ofString ": ") (r.sections.reverse.map Section.label)
    { r with failure := some ⟨cause, chain, r.position⟩ }

/-- Opens a section. -/
def enter (name : Text) : Read Unit := modify fun r =>
  { r with sections := ⟨name, none⟩ :: r.sections }

/-- Opens the section of a vector's element. -/
def enterItem (name : Text) (i : Nat) : Read Unit := modify fun r =>
  { r with sections := ⟨name, some i⟩ :: r.sections }

/-- Closes the innermost section. -/
def leave : Read Unit := modify fun r => { r with sections := r.sections.drop 1 }

/-- **The next `n` bytes**, `none` when there are not so many or a failure is kept. -/
def take (n : Nat) : Read (Option Bytes) := fun r =>
  match r.failure with
  | some _ => (none, r)
  | none =>
    if hasAtLeast n r.rest then
      (some (r.rest.take n), { r with rest := r.rest.drop n, position := r.position + n })
    else (none, (fail .endOfInput r).2)

/-- One byte. -/
def byte : Read UInt8 := do
  match ← take 1 with
  | some [b] => return b
  | _ => return 0

/-- The number that bytes denote, lowest first. -/
def littleEndian : Bytes → Nat
  | [] => 0
  | b :: rest => b.toNat + 256 * littleEndian rest

/-- A word of four bytes. -/
def fixed32 : Read UInt32 := do
  match ← take 4 with
  | some bs => return UInt32.ofNat (littleEndian bs)
  | none => return 0

/-- A word of eight bytes, read as two of four. -/
def fixed64 : Read UInt64 := do
  let lo ← fixed32
  let hi ← fixed32
  return UInt64.ofNat (lo.toNat + hi.toNat * 4294967296)

/-- The groups of seven bits of a LEB128 number as one natural number, how many bits they are, and
the last byte.  `none` when reading fails; `fuel` is the number of bytes allowed. -/
def lebGroups : Nat → Nat → Nat → Read (Option (Nat × Nat × UInt8))
  | 0, _, _ => do
    fail .overflow
    return none
  | fuel + 1, shift, acc => do
    let b ← byte
    if (← get).failure.isSome then return none
    let acc := acc + (b.toNat % 128) * Nat.pow 2 shift
    if b < 0x80 then return some (acc, shift + 7, b)
    lebGroups fuel (shift + 7) acc

/-- **An unsigned LEB128 number** of at most five bytes; bits beyond the word are dropped. -/
def u32 : Read UInt32 := do
  match ← lebGroups 5 0 0 with
  | some (v, _, _) => return UInt32.ofNat v
  | none => return 0

/-- The signed number that groups of seven bits denote: bit 6 of the last byte is the sign, unless the
groups already fill 64 bits. -/
def signedValue (v shift : Nat) (last : UInt8) : Int :=
  if shift < 64 && 64 ≤ last.toNat % 128 then (v : Int) - Nat.pow 2 shift else v

/-- **A signed LEB128 number** of at most ten bytes. -/
def s64 : Read Int64 := do
  match ← lebGroups 10 0 0 with
  | some (v, shift, last) => return Int64.ofInt (signedValue v shift last)
  | none => return 0

/-- A signed LEB128 number of at most five bytes, of which the low 32 bits count. -/
def s32 : Read Int32 := do
  match ← lebGroups 5 0 0 with
  | some (v, shift, last) => return Int32.ofInt (signedValue v shift last)
  | none => return 0

/-- **The length of a vector** whose elements take at least `least` bytes each.  A vector that cannot
fit in the unread bytes is refused; with `least = 0` every length is accepted. -/
def count (least : Nat) : Read Nat := do
  let n ← u32
  let r ← get
  if r.failure.isSome then return 0
  if hasAtLeast (n.toNat * least) r.rest then return n.toNat
  fail .tooLong
  return 0

/-- A text with its length in front; it must be UTF-8. -/
def name : Read Text := do
  let n ← count 1
  match ← take n with
  | none => return []
  | some t =>
    if Utf8.valid t then return t
    fail .invalidName
    return []

/-- The same read several times over. -/
def times : Nat → Read α → Read (List α)
  | 0, _ => return []
  | n + 1, f => do
    let x ← f
    let xs ← times n f
    return x :: xs

/-- A vector whose elements take at least `least` bytes. -/
def vector (least : Nat) (element : Read α) : Read (List α) := do
  let n ← count least
  times n element

/-- The elements of a vector from the `i`-th on, each in a section with its index. -/
def itemsFrom (section_ : Text) (element : Read α) : Nat → Nat → Read (List α)
  | 0, _ => return []
  | n + 1, i => do
    enterItem section_ i
    let x ← element
    leave
    let xs ← itemsFrom section_ element n (i + 1)
    return x :: xs

/-- A vector whose elements are sections. -/
def items (section_ : Text) (least : Nat) (element : Read α) : Read (List α) := do
  let n ← count least
  itemsFrom section_ element n 0

/-- A vector of names. -/
def names : Read (List Text) := vector 1 name

/-- Nothing may be left. -/
def finish : Read Unit := do
  if (← get).rest.isEmpty then return ()
  fail .trailing

/-- A reader at the beginning of a file. -/
def ofBytes (data : Bytes) : Reader := { rest := data }

end Reader

end Suspension
