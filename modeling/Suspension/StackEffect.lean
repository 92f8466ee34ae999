import Suspension.ClassFile

/-!
# Stack effects

What an instruction takes off the operand stack and puts on it.

* `Opcode.effect?` — the kinds, for the instructions whose effect is fixed.
* `Instruction.delta` — the numbers of slots, for all instructions; a call's depend on its
  descriptor.
-/

namespace Suspension

/-- The kinds an instruction pops, bottom to top, and those it pushes. -/
structure StackEffect where
  pops : List Kind := []
  pushes : List Kind := []
deriving DecidableEq, Repr

/-- The kinds a conversion goes from and to. -/
def Conversion.kinds : Conversion → Kind × Kind
  | intToLong => (.int, .long)
  | intToFloat => (.int, .float)
  | intToDouble => (.int, .double)
  | longToInt => (.long, .int)
  | longToDouble => (.long, .double)
  | floatToInt => (.float, .int)
  | doubleToInt => (.double, .int)
  | doubleToLong => (.double, .long)

/-- **The fixed effects.**  Field accesses and calls depend on their operand, the instructions that
shuffle the stack on what they find there: these have none. -/
def Opcode.effect? : Opcode → Option StackEffect
  | nop | label | goto | returnVoid | increment => some {}
  | pushNull | ldc | new => some { pushes := [.ref] }
  | const n => some { pushes := [n.kind] }
  | load k => some { pushes := [k] }
  | store k => some { pops := [k] }
  | returnValue k => some { pops := [k] }
  | ifInt _ | tableSwitch => some { pops := [.int] }
  | throw | monitorEnter | monitorExit | ifNull | ifNonNull => some { pops := [.ref] }
  | arrayLoad k => some { pops := [.ref, .int], pushes := [k] }
  | arrayStore k => some { pops := [.ref, .int, k] }
  | arith _ n => some { pops := [n.kind, n.kind], pushes := [n.kind] }
  | intRem => some { pops := [.int, .int], pushes := [.int] }
  | longRem => some { pops := [.long, .long], pushes := [.long] }
  | intNeg => some { pops := [.int], pushes := [.int] }
  | longNeg => some { pops := [.long], pushes := [.long] }
  | convert c => some { pops := [c.kinds.1], pushes := [c.kinds.2] }
  | longCompare => some { pops := [.long, .long], pushes := [.int] }
  | floatCompare => some { pops := [.float, .float], pushes := [.int] }
  | doubleCompare => some { pops := [.double, .double], pushes := [.int] }
  | ifInts _ => some { pops := [.int, .int] }
  | ifSame | ifNotSame => some { pops := [.ref, .ref] }
  | newArray | newRefArray => some { pops := [.int], pushes := [.ref] }
  | arrayLength => some { pops := [.ref], pushes := [.int] }
  | checkCast => some { pops := [.ref], pushes := [.ref] }
  | instanceOf => some { pops := [.ref], pushes := [.int] }
  | pop | pop2 | dup | dupX1 | dupX2 | dup2 | swap => none
  | getStatic | putStatic | getField | putField | invoke _ => none
  | undefined _ => none

/-- Why an instruction has no known effect on the height of the stack. -/
inductive DeltaError where
  | missingMember (op : Opcode)
  | descriptor (cause : Descriptor.MethodError)
  | unknownOpcode (op : Opcode)
deriving DecidableEq, Repr

/-- The wording of a missing effect. -/
def DeltaError.message : DeltaError → Text
  | missingMember op => op.name ++ Text.ofString ": missing member operand"
  | descriptor e => e.message
  | unknownOpcode op => Text.ofString "unknown opcode 0x" ++ Text.hexPadded 2 op.byte.toNat

/-- The slots of the instructions that shuffle the stack. -/
def Opcode.shuffle? : Opcode → Option (Nat × Nat)
  | pop => some (1, 0)
  | pop2 => some (2, 0)
  | dup => some (1, 2)
  | dupX1 => some (2, 3)
  | dupX2 => some (3, 4)
  | dup2 => some (2, 4)
  | swap => some (2, 2)
  | _ => none

/-- The slots of an instruction that works on a member. -/
def Opcode.memberDelta (op : Opcode) (m : Member) : Except DeltaError (Nat × Nat) :=
  match op with
  | getStatic => .ok (0, 1)
  | putStatic => .ok (1, 0)
  | getField => .ok (1, 1)
  | putField => .ok (2, 0)
  | invoke mode =>
    match Descriptor.parseMethod m.desc with
    | .error e => .error (.descriptor e)
    | .ok d =>
      let receiver := if mode == .static then 0 else 1
      .ok (d.params.length + receiver, if d.isVoid then 0 else 1)
  | _ => .error (.unknownOpcode op)

/-- **How many slots an instruction pops and pushes.** -/
def Instruction.delta (i : Instruction) : Except DeltaError (Nat × Nat) :=
  match i.opcode.effect? with
  | some e => .ok (e.pops.length, e.pushes.length)
  | none =>
    match i.opcode.shuffle? with
    | some d => .ok d
    | none =>
      match i.operand with
      | .member m => i.opcode.memberDelta m
      | _ => .error (.missingMember i.opcode)

end Suspension
