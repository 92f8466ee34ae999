import Suspension.Fault
import Suspension.Number.Ieee
import Suspension.Opcode

/-!
# Values of the machine

What a local, a stack slot, a field or an array element holds.  Strings are values, objects and arrays
are references into the heap, and no slot remembers what it was declared as.

* `Value` — the type, `Value.same` — the comparison of references.
* `Value.zero` — what a field or an element holds at first.
* `Value.arith`, `Value.convert`, … — arithmetic on values of the right kind.
-/

namespace Suspension

/-- The identity of an array of a machine. -/
abbrev ArrayId := Nat

/-- **A value.**  Floats are kept as their bits. -/
inductive Value where
  | null
  | int (v : Int32)
  | long (v : Int64)
  | float (bits : UInt32)
  | double (bits : UInt64)
  | text (t : Text)
  | object (id : ObjectId)
  | array (id : ArrayId)
deriving DecidableEq, Repr

instance : Inhabited Value := ⟨.null⟩

namespace Value

/-- The kind of a value; null is a reference. -/
def kind : Value → Kind
  | null | text _ | object _ | array _ => .ref
  | int _ => .int
  | long _ => .long
  | float _ => .float
  | double _ => .double

/-- Whether a value is null. -/
def isNull : Value → Bool
  | null => true
  | _ => false

/-- A truth value as an int. -/
def ofBool (b : Bool) : Value := int (if b then 1 else 0)

/-- What a field or an element of a type holds at first. -/
def zero (desc : Text) : Value :=
  match Descriptor.kind? desc with
  | some .int => int 0
  | some .long => long 0
  | some .float => float 0
  | some .double => double 0
  | _ => null

/-- **Whether two values are the same**: objects and arrays by identity, strings and numbers by what
they are. -/
def same : Value → Value → Bool
  | float a, float b => Single.equal a b
  | double a, double b => Double.equal a b
  | a, b => a == b

/-- What messages call the type of a value. -/
def typeName : Value → Text
  | int _ => "int32"
  | long _ => "int64"
  | float _ => "float32"
  | double _ => "float64"
  | null | text _ | object _ | array _ => "reference"

/-! ## Arithmetic -/

/-- Why an operation has no result: operands of other kinds, or a division by zero. -/
inductive ArithFault where
  | wrongKind
  | divisionByZero
deriving DecidableEq, Repr

/-- Integer arithmetic wraps; the quotient goes toward zero. -/
def intArith (op : Arith) (a b : Int32) : Except ArithFault Int32 :=
  match op with
  | .add => .ok (a + b)
  | .sub => .ok (a - b)
  | .mul => .ok (a * b)
  | .div => if b == 0 then .error .divisionByZero else .ok (a / b)

/-- Integer arithmetic on longs. -/
def longArith (op : Arith) (a b : Int64) : Except ArithFault Int64 :=
  match op with
  | .add => .ok (a + b)
  | .sub => .ok (a - b)
  | .mul => .ok (a * b)
  | .div => if b == 0 then .error .divisionByZero else .ok (a / b)

/-- The operation on floats. -/
def floatOp : Arith → Float32 → Float32 → Float32
  | .add => (· + ·)
  | .sub => (· - ·)
  | .mul => (· * ·)
  | .div => (· / ·)

/-- The operation on doubles. -/
def doubleOp : Arith → Float → Float → Float
  | .add => (· + ·)
  | .sub => (· - ·)
  | .mul => (· * ·)
  | .div => (· / ·)

/-- **The four operations**, on two values of one numeric kind. -/
def arith (op : Arith) (n : Numeric) (a b : Value) : Except ArithFault Value :=
  match n, a, b with
  | .int, int x, int y => (intArith op x y).map int
  | .long, long x, long y => (longArith op x y).map long
  | .float, float x, float y => .ok (float (Single.binary (floatOp op) x y))
  | .double, double x, double y => .ok (double (Double.binary (doubleOp op) x y))
  | _, _, _ => .error .wrongKind

/-- The remainder, of the sign of the dividend. -/
def rem (a b : Value) : Except ArithFault Value :=
  match a, b with
  | int x, int y => if y == 0 then .error .divisionByZero else .ok (int (x % y))
  | long x, long y => if y == 0 then .error .divisionByZero else .ok (long (x % y))
  | _, _ => .error .wrongKind

/-- A conversion between numeric kinds; `none` for a value of another kind. -/
def convert (c : Conversion) (v : Value) : Option Value :=
  match c, v with
  | .intToLong, int x => some (long x.toInt64)
  | .intToFloat, int x => some (float x.toFloat32.toBits)
  | .intToDouble, int x => some (double x.toFloat.toBits)
  | .longToInt, long x => some (int x.toInt32)
  | .longToDouble, long x => some (double x.toFloat.toBits)
  | .floatToInt, float b => some (int (Single.toInt b))
  | .doubleToInt, double b => some (int (Double.toInt b))
  | .doubleToLong, double b => some (long (Double.toLong b))
  | _, _ => none

/-- The three-way comparison of two longs. -/
def compareLongs (a b : Int64) : Int32 := if a < b then -1 else if b < a then 1 else 0

/-- Whether a comparison holds between two ints. -/
def holds (c : Cond) (a b : Int32) : Bool :=
  match c with
  | .eq => a == b
  | .ne => a != b
  | .lt => a < b
  | .ge => b ≤ a
  | .gt => b < a
  | .le => a ≤ b

/-- A value passed by reflection as a parameter of a kind, widened as a conversion would; `none` when
it does not fit.  Anything passes as a reference. -/
def passedAs (k : Option Kind) (v : Value) : Option Value :=
  match k, v with
  | some .int, int x => some (int x)
  | some .long, int x => some (long x.toInt64)
  | some .long, long x => some (long x)
  | some .float, int x => some (float x.toFloat32.toBits)
  | some .float, long x => some (float x.toFloat32.toBits)
  | some .float, float b => some (float b)
  | some .double, int x => some (double x.toFloat.toBits)
  | some .double, long x => some (double x.toFloat.toBits)
  | some .double, float b => some (double (Single.widen b))
  | some .double, double b => some (double b)
  | some .int, _ | some .long, _ | some .float, _ | some .double, _ => none
  | _, v => some v

end Value

end Suspension
