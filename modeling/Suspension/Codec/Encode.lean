import Suspension.ClassFile
import Suspension.Codec.Writer

/-!
# The container format, written

A class file is a magic number, a version, the class's names and flags, its fields and its methods.
Writing fails only on an instruction whose opcode is undefined or whose operand is not the one the
opcode carries.
-/

namespace Suspension

/-- The first word of a class file, `\0cls`. -/
def ClassFile.magic : UInt32 := 0x736C6300

/-- The second word: the version of the format. -/
def ClassFile.version : UInt32 := 1

/-- Why an instruction cannot be written. -/
inductive EncodeCause where
  | unknownOpcode (op : Opcode)
  | unexpectedOperand (op : Opcode) (operand : Operand)
deriving DecidableEq, Repr

/-- The wording of a cause. -/
def EncodeCause.message : EncodeCause → Text
  | unknownOpcode op => Text.ofString "unknown opcode 0x" ++ Text.hexPadded 2 op.byte.toNat
  | unexpectedOperand op operand =>
    op.name ++ Text.ofString ": unexpected immediate " ++ operand.designation

/-- The instruction that cannot be written, in which method. -/
structure EncodeFailure where
  method : Text
  position : Nat
  cause : EncodeCause
deriving DecidableEq, Repr

/-- The wording of a failure. -/
def EncodeFailure.message (e : EncodeFailure) : Text :=
  Text.ofString "method " ++ e.method ++ Text.ofString ": instruction " ++ Text.ofNat e.position
    ++ Text.ofString ": " ++ e.cause.message

namespace Encode

/-- The bytes of an operand, when it is the one that the opcode carries. -/
def operand? : OperandKind → Operand → Option Bytes
  | .none, _ => some []
  | .int, .int v => some (Writer.s32 v)
  | .long, .long v => some (Writer.s64 v)
  | .float, .float b => some (Writer.fixed32 b)
  | .double, .double b => some (Writer.fixed64 b)
  | .text, .text t => some (Writer.name t)
  | .slot, .slot n => some (Writer.u32 n)
  | .increment, .increment n d => some (Writer.u32 n ++ Writer.s32 d)
  | .label, .label id => some (Writer.u32 id)
  | .table, .table low labels default =>
    some (Writer.s32 low ++ Writer.vector Writer.u32 labels ++ Writer.u32 default)
  | .member, .member m => some (Writer.name m.owner ++ Writer.name m.name ++ Writer.name m.desc)
  | .type, .type t => some (Writer.name t)
  | _, _ => none

/-- **One instruction.**  An opcode without operand ignores what it is paired with. -/
def instruction (i : Instruction) : Except EncodeCause Bytes :=
  match i.opcode.operandKind? with
  | none => .error (.unknownOpcode i.opcode)
  | some kind =>
    match operand? kind i.operand with
    | some bs => .ok (i.opcode.byte :: bs)
    | none => .error (.unexpectedOperand i.opcode i.operand)

/-- The instructions of a body from the `i`-th on; a failure carries its position. -/
def instructions : List Instruction → Nat → Except (Nat × EncodeCause) Bytes
  | [], _ => .ok []
  | instr :: rest, i =>
    match instruction instr with
    | .error e => .error (i, e)
    | .ok bs =>
      match instructions rest (i + 1) with
      | .error e => .error e
      | .ok more => .ok (bs ++ more)

/-- A protected range. -/
def range (r : ExceptionRange) : Bytes :=
  Writer.name r.type ++ Writer.u32 r.start ++ Writer.u32 r.stop ++ Writer.u32 r.handler

/-- The name of a local. -/
def localVar (v : LocalVar) : Bytes :=
  Writer.name v.name ++ Writer.name v.desc ++ Writer.u32 v.start ++ Writer.u32 v.stop
    ++ Writer.u32 v.index

/-- A field. -/
def field (f : Field) : Bytes := Writer.name f.name ++ Writer.name f.desc ++ Writer.u32 f.flags

/-- **One method.** -/
def method (m : Method) : Except EncodeFailure Bytes :=
  match instructions m.code.toList 0 with
  | .error (i, e) => .error ⟨m.key, i, e⟩
  | .ok code =>
    .ok (Writer.name m.name ++ Writer.name m.desc ++ Writer.u32 m.flags ++ Writer.names m.throws
      ++ Writer.names m.annotations ++ Writer.vector Writer.names m.paramAnnotations
      ++ Writer.u32 m.maxLocals ++ Writer.u32 m.maxStack ++ Writer.count m.code.size ++ code
      ++ Writer.vector range m.ranges ++ Writer.vector localVar m.localVars)

/-- The methods of a class, one after another. -/
def methods : List Method → Except EncodeFailure Bytes
  | [] => .ok []
  | m :: rest =>
    match method m with
    | .error e => .error e
    | .ok bs =>
      match methods rest with
      | .error e => .error e
      | .ok more => .ok (bs ++ more)

end Encode

/-- **A class as a file.** -/
def Class.encode (c : Class) : Except EncodeFailure Bytes :=
  match Encode.methods c.methods with
  | .error e => .error e
  | .ok methods =>
    .ok (Writer.fixed32 ClassFile.magic ++ Writer.fixed32 ClassFile.version ++ Writer.name c.name
      ++ Writer.name c.super ++ Writer.names c.interfaces ++ Writer.u32 c.flags
      ++ Writer.names c.annotations ++ Writer.vector Encode.field c.fields
      ++ Writer.count c.methods.length ++ methods)

end Suspension
