import Suspension.Codec.Encode
import Suspension.Codec.Reader
import Suspension.Validation

/-!
# The container format, read

The inverse of `Class.encode`: the same elements in the same order.  Every vector is guarded by the
least size of its elements, so a damaged length cannot ask for more than the file holds, and bytes
after the class are refused.
-/

namespace Suspension

namespace Decode

/-- The operand that an opcode carries. -/
def operand : OperandKind → Read Operand
  | .none => return .none
  | .int => return .int (← Reader.s32)
  | .long => return .long (← Reader.s64)
  | .float => return .float (← Reader.fixed32)
  | .double => return .double (← Reader.fixed64)
  | .text => return .text (← Reader.name)
  | .slot => return .slot (← Reader.u32)
  | .increment => do
    let n ← Reader.u32
    let d ← Reader.s32
    return .increment n d
  | .label => return .label (← Reader.u32)
  | .table => do
    let low ← Reader.s32
    let labels ← Reader.vector 1 Reader.u32
    let default ← Reader.u32
    return .table low labels default
  | .member => do
    let owner ← Reader.name
    let name ← Reader.name
    let desc ← Reader.name
    return .member ⟨owner, name, desc⟩
  | .type => return .type (← Reader.name)

/-- **One instruction.** -/
def instruction : Read Instruction := do
  let b ← Reader.byte
  let op := Opcode.ofByte b
  match op.operandKind? with
  | none =>
    Reader.fail (.unknownOpcode b)
    return default
  | some kind => return ⟨op, ← operand kind⟩

/-- A protected range. -/
def range : Read ExceptionRange := do
  let type ← Reader.name
  let start ← Reader.u32
  let stop ← Reader.u32
  let handler ← Reader.u32
  return ⟨type, start, stop, handler⟩

/-- The name of a local. -/
def localVar : Read LocalVar := do
  let name ← Reader.name
  let desc ← Reader.name
  let start ← Reader.u32
  let stop ← Reader.u32
  let index ← Reader.u32
  return ⟨name, desc, start, stop, index⟩

/-- A field. -/
def field : Read Field := do
  let name ← Reader.name
  let desc ← Reader.name
  let flags ← Reader.u32
  return ⟨name, desc, flags⟩

/-- The bytes that a method with empty names and vectors takes. -/
def leastMethodSize : Nat := 11

/-- **One method.**  Failures behind its name are attributed to it. -/
def method : Read Method := do
  let name ← Reader.name
  let desc ← Reader.name
  Reader.enter (Text.ofString "method " ++ name ++ desc)
  let flags ← Reader.u32
  let throws ← Reader.names
  let annotations ← Reader.names
  let paramAnnotations ← Reader.vector 1 Reader.names
  let maxLocals ← Reader.u32
  let maxStack ← Reader.u32
  let code ← Reader.items "instruction" 1 instruction
  let ranges ← Reader.vector 4 range
  let localVars ← Reader.vector 5 localVar
  Reader.leave
  return { name, desc, flags, throws, annotations, paramAnnotations, maxLocals, maxStack,
           code := code.toArray, ranges, localVars }

/-- The two words in front. -/
def header : Read Unit := do
  Reader.enter "header"
  if (← Reader.fixed32) != ClassFile.magic then Reader.fail .magic
  if (← Reader.fixed32) != ClassFile.version then Reader.fail .version
  Reader.leave

/-- **A class**, from the magic number to its last method. -/
def wholeClass : Read Class := do
  header
  Reader.enter "class"
  let name ← Reader.name
  let super ← Reader.name
  let interfaces ← Reader.names
  let flags ← Reader.u32
  let annotations ← Reader.names
  Reader.leave
  let fields ← Reader.items "field" 3 field
  let methods ← Reader.vector leastMethodSize method
  return { name, super, interfaces, flags, annotations, fields, methods }

end Decode

/-- **Reading a class file.** -/
def Class.decode (data : Bytes) : Except ReadFailure Class :=
  let (c, r) := (do
    let c ← Decode.wholeClass
    Reader.finish
    return c : Read Class).run (.ofBytes data)
  match r.failure with
  | some f => .error f
  | none => .ok c

/-- Why a file does not hold a valid class. -/
inductive LoadFault where
  | malformed (cause : ReadFailure)
  | invalid (cause : ClassFault)
deriving DecidableEq, Repr

/-- Reading a class file and checking the class. -/
def Class.decodeValid (data : Bytes) : Except LoadFault Class :=
  match Class.decode data with
  | .error e => .error (.malformed e)
  | .ok c =>
    match c.validate with
    | .error e => .error (.invalid e)
    | .ok () => .ok c

end Suspension
