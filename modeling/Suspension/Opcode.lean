import Suspension.Descriptor

/-!
# Opcodes

The instruction set.  An opcode is named by what it does, with families of instructions as
constructors that take a parameter (`load .int`, `arith .add .double`, `ifInt .lt`), so that a
definition by cases over the set has about sixty cases and not one per byte.

* `Opcode.byte`, `Opcode.ofByte` — the numbering; a byte that numbers no instruction is
  `Opcode.undefined`.
* `Opcode.mnemonic`, `Opcode.ofMnemonic?` — the names in assembler text.
* `Opcode.operandKind` — which operand an instruction carries.
* `Opcode.endsBlock`, `Opcode.isReturn`, … — control flow.
-/

namespace Suspension

/-- The kinds that arithmetic works on. -/
inductive Numeric where
  | int
  | long
  | float
  | double
deriving DecidableEq, Repr, Inhabited

/-- A numeric kind as a slot kind. -/
def Numeric.kind : Numeric → Kind
  | int => .int
  | long => .long
  | float => .float
  | double => .double

/-- The arithmetic that all numeric kinds have. -/
inductive Arith where
  | add
  | sub
  | mul
  | div
deriving DecidableEq, Repr, Inhabited

/-- The comparisons of the conditional jumps. -/
inductive Cond where
  | eq
  | ne
  | lt
  | ge
  | gt
  | le
deriving DecidableEq, Repr, Inhabited

/-- The conversions between numeric kinds that have an instruction. -/
inductive Conversion where
  | intToLong
  | intToFloat
  | intToDouble
  | longToInt
  | longToDouble
  | floatToInt
  | doubleToInt
  | doubleToLong
deriving DecidableEq, Repr, Inhabited

/-- The four ways to select the method of a call. -/
inductive InvokeMode where
  | virtual
  | special
  | static
  | interface
deriving DecidableEq, Repr, Inhabited

/-- **The instruction set.**  `label` is the pseudo-instruction that marks a jump target, and
`undefined` stands for a byte that numbers no instruction. -/
inductive Opcode where
  | nop
  | pushNull
  | const (n : Numeric)
  | ldc
  | load (k : Kind)
  | arrayLoad (k : Kind)
  | store (k : Kind)
  | arrayStore (k : Kind)
  | pop
  | pop2
  | dup
  | dupX1
  | dupX2
  | dup2
  | swap
  | arith (op : Arith) (n : Numeric)
  | intRem
  | longRem
  | intNeg
  | longNeg
  | increment
  | convert (c : Conversion)
  | longCompare
  | floatCompare
  | doubleCompare
  | ifInt (c : Cond)
  | ifInts (c : Cond)
  | ifSame
  | ifNotSame
  | goto
  | tableSwitch
  | returnValue (k : Kind)
  | returnVoid
  | getStatic
  | putStatic
  | getField
  | putField
  | invoke (mode : InvokeMode)
  | new
  | newArray
  | newRefArray
  | arrayLength
  | throw
  | checkCast
  | instanceOf
  | monitorEnter
  | monitorExit
  | ifNull
  | ifNonNull
  | label
  | undefined (byte : UInt8)
deriving DecidableEq, Repr, Inhabited

/-- What stands behind the opcode of an instruction. -/
inductive OperandKind where
  | none
  | int
  | long
  | float
  | double
  | text
  | slot
  | increment
  | label
  | table
  | member
  | type
deriving DecidableEq, Repr, Inhabited

/-- The number of an operand kind in listings of the instruction set. -/
def OperandKind.number : OperandKind → Nat
  | none => 0
  | int => 1
  | long => 2
  | float => 3
  | double => 4
  | text => 5
  | slot => 6
  | increment => 7
  | label => 8
  | table => 9
  | member => 10
  | type => 11

/-! ## Position within a family -/

/-- Places of the kinds within the families that have five members. -/
def Kind.offset : Kind → UInt8
  | int => 0
  | long => 1
  | float => 2
  | double => 3
  | ref => 4

/-- Places of the numeric kinds within the arithmetic families. -/
def Numeric.offset (n : Numeric) : UInt8 := n.kind.offset

/-- Places of the comparisons within the families of conditional jumps. -/
def Cond.offset : Cond → UInt8
  | eq => 0
  | ne => 1
  | lt => 2
  | ge => 3
  | gt => 4
  | le => 5

/-- The letter that a kind contributes to a mnemonic. -/
def Kind.mnemonicLetter : Kind → String
  | int => "i"
  | long => "l"
  | float => "f"
  | double => "d"
  | ref => "a"

/-- The word that a comparison contributes to a mnemonic. -/
def Cond.mnemonicWord : Cond → String
  | eq => "eq"
  | ne => "ne"
  | lt => "lt"
  | ge => "ge"
  | gt => "gt"
  | le => "le"

namespace Opcode

/-- **The numbering.** -/
def byte : Opcode → UInt8
  | nop => 0x00
  | pushNull => 0x01
  | const .long => 0x09
  | const .float => 0x0b
  | const .double => 0x0e
  | const .int => 0x10
  | ldc => 0x12
  | load k => 0x15 + k.offset
  | arrayLoad k => 0x2e + k.offset
  | store k => 0x36 + k.offset
  | arrayStore k => 0x4f + k.offset
  | pop => 0x57
  | pop2 => 0x58
  | dup => 0x59
  | dupX1 => 0x5a
  | dupX2 => 0x5b
  | dup2 => 0x5c
  | swap => 0x5f
  | arith .add n => 0x60 + n.offset
  | arith .sub n => 0x64 + n.offset
  | arith .mul n => 0x68 + n.offset
  | arith .div n => 0x6c + n.offset
  | intRem => 0x70
  | longRem => 0x71
  | intNeg => 0x74
  | longNeg => 0x75
  | increment => 0x84
  | convert .intToLong => 0x85
  | convert .intToFloat => 0x86
  | convert .intToDouble => 0x87
  | convert .longToInt => 0x88
  | convert .longToDouble => 0x8a
  | convert .floatToInt => 0x8b
  | convert .doubleToInt => 0x8e
  | convert .doubleToLong => 0x8f
  | longCompare => 0x94
  | floatCompare => 0x95
  | doubleCompare => 0x97
  | ifInt c => 0x99 + c.offset
  | ifInts c => 0x9f + c.offset
  | ifSame => 0xa5
  | ifNotSame => 0xa6
  | goto => 0xa7
  | tableSwitch => 0xaa
  | returnValue k => 0xac + k.offset
  | returnVoid => 0xb1
  | getStatic => 0xb2
  | putStatic => 0xb3
  | getField => 0xb4
  | putField => 0xb5
  | invoke .virtual => 0xb6
  | invoke .special => 0xb7
  | invoke .static => 0xb8
  | invoke .interface => 0xb9
  | new => 0xbb
  | newArray => 0xbc
  | newRefArray => 0xbd
  | arrayLength => 0xbe
  | throw => 0xbf
  | checkCast => 0xc0
  | instanceOf => 0xc1
  | monitorEnter => 0xc2
  | monitorExit => 0xc3
  | ifNull => 0xc6
  | ifNonNull => 0xc7
  | label => 0xff
  | undefined b => b

/-- The name of an opcode in assembler text, empty for an undefined one. -/
def mnemonic : Opcode → String
  | nop => "nop"
  | pushNull => "aconst_null"
  | const n => n.kind.mnemonicLetter ++ "const"
  | ldc => "ldc"
  | load k => k.mnemonicLetter ++ "load"
  | arrayLoad k => k.mnemonicLetter ++ "aload"
  | store k => k.mnemonicLetter ++ "store"
  | arrayStore k => k.mnemonicLetter ++ "astore"
  | pop => "pop"
  | pop2 => "pop2"
  | dup => "dup"
  | dupX1 => "dup_x1"
  | dupX2 => "dup_x2"
  | dup2 => "dup2"
  | swap => "swap"
  | arith .add n => n.kind.mnemonicLetter ++ "add"
  | arith .sub n => n.kind.mnemonicLetter ++ "sub"
  | arith .mul n => n.kind.mnemonicLetter ++ "mul"
  | arith .div n => n.kind.mnemonicLetter ++ "div"
  | intRem => "irem"
  | longRem => "lrem"
  | intNeg => "ineg"
  | longNeg => "lneg"
  | increment => "iinc"
  | convert .intToLong => "i2l"
  | convert .intToFloat => "i2f"
  | convert .intToDouble => "i2d"
  | convert .longToInt => "l2i"
  | convert .longToDouble => "l2d"
  | convert .floatToInt => "f2i"
  | convert .doubleToInt => "d2i"
  | convert .doubleToLong => "d2l"
  | longCompare => "lcmp"
  | floatCompare => "fcmpl"
  | doubleCompare => "dcmpl"
  | ifInt c => "if" ++ c.mnemonicWord
  | ifInts c => "if_icmp" ++ c.mnemonicWord
  | ifSame => "if_acmpeq"
  | ifNotSame => "if_acmpne"
  | goto => "goto"
  | tableSwitch => "tableswitch"
  | returnValue k => k.mnemonicLetter ++ "return"
  | returnVoid => "return"
  | getStatic => "getstatic"
  | putStatic => "putstatic"
  | getField => "getfield"
  | putField => "putfield"
  | invoke .virtual => "invokevirtual"
  | invoke .special => "invokespecial"
  | invoke .static => "invokestatic"
  | invoke .interface => "invokeinterface"
  | new => "new"
  | newArray => "newarray"
  | newRefArray => "anewarray"
  | arrayLength => "arraylength"
  | throw => "athrow"
  | checkCast => "checkcast"
  | instanceOf => "instanceof"
  | monitorEnter => "monitorenter"
  | monitorExit => "monitorexit"
  | ifNull => "ifnull"
  | ifNonNull => "ifnonnull"
  | label => "label"
  | undefined _ => ""

/-- The mnemonic as a byte text. -/
def name (op : Opcode) : Text := Text.ofString op.mnemonic

/-- The numeric kinds. -/
def numerics : List Numeric := [.int, .long, .float, .double]

/-- The comparisons. -/
def conds : List Cond := [.eq, .ne, .lt, .ge, .gt, .le]

/-- Every defined opcode, once. -/
def all : List Opcode :=
  [nop, pushNull] ++ numerics.map const ++ [ldc] ++ Kind.all.map load ++ Kind.all.map arrayLoad
    ++ Kind.all.map store ++ Kind.all.map arrayStore
    ++ [pop, pop2, dup, dupX1, dupX2, dup2, swap]
    ++ numerics.map (arith .add) ++ numerics.map (arith .sub) ++ numerics.map (arith .mul)
    ++ numerics.map (arith .div)
    ++ [intRem, longRem, intNeg, longNeg, increment, convert .intToLong, convert .intToFloat,
        convert .intToDouble, convert .longToInt, convert .longToDouble, convert .floatToInt,
        convert .doubleToInt, convert .doubleToLong, longCompare, floatCompare, doubleCompare]
    ++ conds.map ifInt ++ conds.map ifInts
    ++ [ifSame, ifNotSame, goto, tableSwitch] ++ Kind.all.map returnValue
    ++ [returnVoid, getStatic, putStatic, getField, putField, invoke .virtual, invoke .special,
        invoke .static, invoke .interface, new, newArray, newRefArray, arrayLength, throw,
        checkCast, instanceOf, monitorEnter, monitorExit, ifNull, ifNonNull, label]

/-- **The opcode that a byte numbers**, `undefined` if it numbers none. -/
def ofByte (b : UInt8) : Opcode := (all.find? (·.byte == b)).getD (.undefined b)

/-- The opcode of a mnemonic. -/
def ofMnemonic? (s : Text) : Option Opcode := all.find? (·.name == s)

/-- Whether the opcode is part of the instruction set. -/
def isDefined : Opcode → Bool
  | undefined _ => false
  | _ => true

/-- **The operand an opcode carries**; `none` at all for an undefined one. -/
def operandKind? : Opcode → Option OperandKind
  | const .int => some .int
  | const .long => some .long
  | const .float => some .float
  | const .double => some .double
  | ldc => some .text
  | load _ | store _ => some .slot
  | increment => some .increment
  | ifInt _ | ifInts _ | ifSame | ifNotSame | ifNull | ifNonNull | goto | label => some .label
  | tableSwitch => some .table
  | getStatic | putStatic | getField | putField | invoke _ => some .member
  | new | newArray | newRefArray | checkCast | instanceOf => some .type
  | undefined _ => Option.none
  | _ => some .none

/-! ## Control flow -/

/-- Whether the opcode is one of the four calls. -/
def isInvoke : Opcode → Bool
  | invoke _ => true
  | _ => false

/-- Whether the opcode returns from the method. -/
def isReturn : Opcode → Bool
  | returnValue _ | returnVoid => true
  | _ => false

/-- Whether the opcode is a jump to one label, conditional or not. -/
def isBranch : Opcode → Bool
  | ifInt _ | ifInts _ | ifSame | ifNotSame | goto | ifNull | ifNonNull => true
  | _ => false

/-- Whether control never goes on to the next instruction. -/
def endsBlock : Opcode → Bool
  | goto | tableSwitch | throw | returnValue _ | returnVoid => true
  | _ => false

end Opcode

end Suspension
