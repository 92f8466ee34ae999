/-!
# Floating point on bits

Floats and doubles are kept as their bits, so that a value survives being saved and restored bit for
bit.  Arithmetic goes through the host's numbers, with the treatment of NaN made explicit: **an
operand that is NaN is passed on, made quiet; a NaN that arises is the negative quiet one.**
-/

namespace Suspension

namespace Single

/-- Whether the bits of a float denote NaN. -/
def isNaN (b : UInt32) : Bool := 0x7f800000 < b &&& 0x7fffffff

/-- A NaN with its quiet bit set. -/
def quiet (b : UInt32) : UInt32 := b ||| 0x00400000

/-- The NaN that an operation without NaN operands gives. -/
def freshNaN : UInt32 := 0xffc00000

/-- The bits of a result. -/
def ofFloat32 (x : Float32) : UInt32 := if x.isNaN then freshNaN else x.toBits

/-- **An operation on floats.** -/
def binary (op : Float32 → Float32 → Float32) (a b : UInt32) : UInt32 :=
  if isNaN a then quiet a
  else if isNaN b then quiet b
  else ofFloat32 (op (Float32.ofBits a) (Float32.ofBits b))

/-- A float as a double. -/
def widen (b : UInt32) : UInt64 :=
  if isNaN b then
    let q := quiet b
    let sign := UInt64.ofNat (q >>> 31).toNat <<< 63
    let payload := UInt64.ofNat (q &&& 0x007fffff).toNat <<< 29
    sign ||| 0x7ff0000000000000 ||| payload
  else (Float32.ofBits b).toFloat.toBits

/-- The three-way comparison; NaN counts as less. -/
def compare (a b : UInt32) : Int32 :=
  let x := Float32.ofBits a
  let y := Float32.ofBits b
  if !(decide (y ≤ x)) then -1 else if decide (y < x) then 1 else 0

/-- Equality of the numbers: the zeros are equal, and NaN equals nothing. -/
def equal (a b : UInt32) : Bool := Float32.ofBits a == Float32.ofBits b

/-- The int next to a float in the direction of zero, at most as large as ints are; 0 for NaN. -/
def toInt (b : UInt32) : Int32 := (Float32.ofBits b).toFloat.toInt32

end Single

namespace Double

/-- Whether the bits of a double denote NaN. -/
def isNaN (b : UInt64) : Bool := 0x7ff0000000000000 < b &&& 0x7fffffffffffffff

/-- A NaN with its quiet bit set. -/
def quiet (b : UInt64) : UInt64 := b ||| 0x0008000000000000

/-- The NaN that an operation without NaN operands gives. -/
def freshNaN : UInt64 := 0xfff8000000000000

/-- The bits of a result. -/
def ofFloat (x : Float) : UInt64 := if x.isNaN then freshNaN else x.toBits

/-- **An operation on doubles.** -/
def binary (op : Float → Float → Float) (a b : UInt64) : UInt64 :=
  if isNaN a then quiet a
  else if isNaN b then quiet b
  else ofFloat (op (Float.ofBits a) (Float.ofBits b))

/-- The three-way comparison; NaN counts as less. -/
def compare (a b : UInt64) : Int32 :=
  let x := Float.ofBits a
  let y := Float.ofBits b
  if !(decide (y ≤ x)) then -1 else if decide (y < x) then 1 else 0

/-- Equality of the numbers: the zeros are equal, and NaN equals nothing. -/
def equal (a b : UInt64) : Bool := Float.ofBits a == Float.ofBits b

/-- The int next to a double in the direction of zero, at most as large as ints are; 0 for NaN. -/
def toInt (b : UInt64) : Int32 := (Float.ofBits b).toInt32

/-- The long next to a double in the direction of zero, at most as large as longs are; 0 for NaN. -/
def toLong (b : UInt64) : Int64 := (Float.ofBits b).toInt64

end Double

end Suspension
