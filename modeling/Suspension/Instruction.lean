import Suspension.Opcode
import Suspension.Number.Shortest

/-!
# Instructions

An instruction is an opcode with an operand.  The two need not fit each other: a class built by a
program may pair any opcode with any operand, and encoding, validation and the analyses each say
what they make of it.

* `Operand`, `Instruction` — the data.
* `Instruction.render` — the instruction in assembler text.
* `Instruction.targets`, `Code.labelAt?`, `Code.nextLabel` — jump targets and labels.
-/

namespace Suspension

/-- The identity of a label within one method. -/
abbrev Label := UInt32

/-- A field or method reference. -/
structure Member where
  owner : Text
  name : Text
  desc : Text
deriving DecidableEq, Repr, Inhabited

/-- **What stands behind an opcode.**  Floats are kept as their bits. -/
inductive Operand where
  | none
  | int (value : Int32)
  | long (value : Int64)
  | float (bits : UInt32)
  | double (bits : UInt64)
  | text (value : Text)
  | slot (index : UInt32)
  | increment (index : UInt32) (delta : Int32)
  | label (id : Label)
  | table (low : Int32) (labels : List Label) (default : Label)
  | member (m : Member)
  | type (name : Text)
deriving DecidableEq, Repr, Inhabited

/-- The kind of an operand. -/
def Operand.kind : Operand → OperandKind
  | none => .none
  | int _ => .int
  | long _ => .long
  | float _ => .float
  | double _ => .double
  | text _ => .text
  | slot _ => .slot
  | increment _ _ => .increment
  | label _ => .label
  | table _ _ _ => .table
  | member _ => .member
  | type _ => .type

/-- How messages about an unexpected operand call it. -/
def Operand.designation : Operand → Text
  | none => "<nil>"
  | int _ => "classfile.IntImm"
  | long _ => "classfile.LongImm"
  | float _ => "classfile.FloatImm"
  | double _ => "classfile.DoubleImm"
  | text _ => "classfile.StringImm"
  | slot _ => "classfile.VarImm"
  | increment _ _ => "classfile.IincImm"
  | label _ => "classfile.LabelImm"
  | table _ _ _ => "classfile.TableSwitchImm"
  | member _ => "classfile.MemberImm"
  | type _ => "classfile.TypeImm"

/-- One instruction of a method body. -/
structure Instruction where
  opcode : Opcode
  operand : Operand := .none
deriving DecidableEq, Repr, Inhabited

namespace Instruction

/-! ## Building -/

/-- An instruction without operand. -/
def plain (op : Opcode) : Instruction := ⟨op, .none⟩

/-- A load or store. -/
def slot (op : Opcode) (index : UInt32) : Instruction := ⟨op, .slot index⟩

/-- The int constant. -/
def int (v : Int32) : Instruction := ⟨.const .int, .int v⟩

/-- The mark of a label. -/
def mark (id : Label) : Instruction := ⟨.label, .label id⟩

/-- A jump to a label. -/
def jump (op : Opcode) (id : Label) : Instruction := ⟨op, .label id⟩

/-- A field access or a call. -/
def member (op : Opcode) (owner name desc : Text) : Instruction :=
  ⟨op, .member ⟨owner, name, desc⟩⟩

/-- An instruction on a class. -/
def type (op : Opcode) (cls : Text) : Instruction := ⟨op, .type cls⟩

/-! ## Reading -/

/-- Whether the instruction is a label mark. -/
def isMark (i : Instruction) : Bool := i.opcode == .label

/-- The label that the instruction defines. -/
def markedLabel? (i : Instruction) : Option Label :=
  match i.opcode, i.operand with
  | .label, .label id => some id
  | _, _ => none

/-- **The labels that the instruction may jump to**, in the order of its operand.  The operand alone
decides, label marks apart. -/
def targets (i : Instruction) : List Label :=
  match i.operand with
  | .label id => if i.opcode == .label then [] else [id]
  | .table _ labels default => labels ++ [default]
  | _ => []

/-- A label reference in assembler text. -/
def labelName (id : Label) : Text := Text.ofString "$L" ++ Text.ofNat id.toNat

/-- The name under which an instruction is written; an undefined opcode by its number. -/
def writtenName (op : Opcode) : Text :=
  match op with
  | .undefined b => Text.ofString "op_0x" ++ Text.hexPadded 2 b.toNat
  | _ => op.name

/-- **The instruction in assembler text.** -/
def render (i : Instruction) : Text :=
  let name := writtenName i.opcode
  let sp : Text := Text.ofString " "
  match i.operand with
  | .none => name
  | .int v => name ++ sp ++ Text.ofInt v.toInt
  | .long v => name ++ sp ++ Text.ofInt v.toInt
  | .float b => name ++ sp ++ FloatFormat.single.general b.toNat
  | .double b => name ++ sp ++ FloatFormat.double.general b.toNat
  | .text t => name ++ sp ++ Quoted.encode t
  | .slot n => name ++ sp ++ Text.ofNat n.toNat
  | .increment n d => name ++ sp ++ Text.ofNat n.toNat ++ sp ++ Text.ofInt d.toInt
  | .label id =>
    if i.opcode == .label then labelName id ++ Text.ofString ":" else name ++ sp ++ labelName id
  | .table low labels default =>
    name ++ sp ++ Text.ofInt low.toInt ++ labels.flatMap (fun l => sp ++ labelName l)
      ++ Text.ofString " default " ++ labelName default
  | .member m =>
    name ++ sp ++ Quoted.encode m.owner ++ sp ++ Quoted.encode m.name ++ sp ++ Quoted.encode m.desc
  | .type t => name ++ sp ++ Quoted.encode t

end Instruction

/-! ## Labels of a body -/

/-- A method body. -/
abbrev Code := Array Instruction

/-- The part of a body that code protected by a handler occupies: from `start` up to `stop`.  An empty
`type` catches everything. -/
structure ExceptionRange where
  type : Text
  start : Label
  stop : Label
  handler : Label
deriving DecidableEq, Repr, Inhabited

namespace Code

/-- The marks of a body with their positions, the last one first, in front of `acc`. -/
def indexFrom : List Instruction → Nat → List (Label × Nat) → List (Label × Nat)
  | [], _, acc => acc
  | instr :: rest, i, acc =>
    match instr.markedLabel? with
    | some id => indexFrom rest (i + 1) ((id, i) :: acc)
    | none => indexFrom rest (i + 1) acc

/-- The positions of all labels, later marks in front. -/
def labelIndex (code : Code) : List (Label × Nat) := indexFrom code.toList 0 []

/-- **Where a label is.**  When a label is marked twice, the later mark counts. -/
def labelAt? (code : Code) (id : Label) : Option Nat := code.labelIndex.lookup id

/-- The labels marked in a body, in order. -/
def marks (code : Code) : List Label := code.toList.filterMap Instruction.markedLabel?

/-- The labels that an instruction mentions, whether it marks or references them. -/
def mentioned (i : Instruction) : List Label :=
  match i.operand with
  | .label id => [id]
  | .table _ labels default => default :: labels
  | _ => []

/-- The labels that a range mentions. -/
def rangeLabels (r : ExceptionRange) : List Label := [r.start, r.stop, r.handler]

/-- The next number after all labels seen so far; labels are 32-bit words, so it wraps. -/
def bump (next id : Label) : Label := if next ≤ id then id + 1 else next

/-- **A label that is not in use**: one more than the largest that the body or its ranges mention. -/
def nextLabel (code : Code) (ranges : List ExceptionRange) : Label :=
  let seen := code.toList.flatMap mentioned ++ ranges.flatMap rangeLabels
  seen.foldl bump 0

end Code

end Suspension
