import Suspension.Text.Basic

/-!
# Writing the container's elements

Each element of a class file as bytes: LEB128 numbers, little-endian words, names with their
length in front, and vectors of names.  A class file is the concatenation of such elements.
-/

namespace Suspension

namespace Writer

/-- Seven bits at a time, lowest first, every byte but the last with its top bit set.  Five bytes hold
every 32-bit word. -/
def unsignedLeb : Nat → Nat → Bytes
  | 0, _ => []
  | fuel + 1, n =>
    if n < 128 then [UInt8.ofNat n]
    else UInt8.ofNat (n % 128 + 128) :: unsignedLeb fuel (n / 128)

/-- **An unsigned LEB128 number.** -/
def u32 (v : UInt32) : Bytes := unsignedLeb 5 v.toNat

/-- Seven bits at a time until what is left is only the sign, which the last byte's bit 6 repeats. -/
def signedLeb : Nat → Int → Bytes
  | 0, _ => []
  | fuel + 1, v =>
    let low := v % 128
    let rest := v / 128
    if (rest == 0 && low < 64) || (rest == -1 && 64 ≤ low) then [UInt8.ofNat low.toNat]
    else UInt8.ofNat (low.toNat + 128) :: signedLeb fuel rest

/-- **A signed LEB128 number** of 64 bits. -/
def s64 (v : Int64) : Bytes := signedLeb 10 v.toInt

/-- A signed LEB128 number of 32 bits. -/
def s32 (v : Int32) : Bytes := signedLeb 10 v.toInt

/-- The length of a vector. -/
def count (n : Nat) : Bytes := u32 (UInt32.ofNat n)

/-- The low bytes of a number, lowest first. -/
def littleEndian : Nat → Nat → Bytes
  | 0, _ => []
  | size + 1, n => UInt8.ofNat n :: littleEndian size (n / 256)

/-- A word of four bytes. -/
def fixed32 (v : UInt32) : Bytes := littleEndian 4 v.toNat

/-- A word of eight bytes. -/
def fixed64 (v : UInt64) : Bytes := littleEndian 8 v.toNat

/-- A text with its length in front. -/
def name (t : Text) : Bytes := count t.length ++ t

/-- A vector: its length, then its elements. -/
def vector (element : α → Bytes) (xs : List α) : Bytes := count xs.length ++ xs.flatMap element

/-- A vector of names. -/
def names (ts : List Text) : Bytes := vector name ts

end Writer

end Suspension
