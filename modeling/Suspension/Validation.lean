import Suspension.StackDepth

/-!
# Well-formed classes

The structural checks on a class: names, descriptors, labels, operands, local indices and the
declared stack bound.  The first violation found, in the order of the class file, is reported.

* `Method.validate`, `Class.validate` — the checks.
* `LabelFault`, `OperandFault`, `MethodFault`, `ClassFault` — what can be wrong, and its wording.
-/

namespace Suspension

/-- What is wrong with the labels of a body. -/
inductive LabelFault where
  | unnumbered (position : Nat)
  | repeated (id : Label) (first second : Nat)
  | undefinedTarget (position : Nat) (id : Label)
  | undefinedBound (range : Nat) (id : Label)
  | reversed (range : Nat)
  | undefinedScope (name : Text) (id : Label)
deriving DecidableEq, Repr

namespace LabelFault

private def refers (subject : Text) (id : Label) : Text :=
  subject ++ Text.ofString " references undefined label " ++ Text.ofNat id.toNat

/-- The wording of a label fault. -/
def message : LabelFault → Text
  | unnumbered i => Text.ofString "instruction " ++ Text.ofNat i ++ Text.ofString ": label without id"
  | repeated id a b =>
    Text.ofString "label " ++ Text.ofNat id.toNat ++ Text.ofString " defined at " ++ Text.ofNat a
      ++ Text.ofString " and " ++ Text.ofNat b
  | undefinedTarget i id => refers (Text.ofString "instruction " ++ Text.ofNat i) id
  | undefinedBound r id => refers (Text.ofString "range " ++ Text.ofNat r) id
  | reversed r => Text.ofString "range " ++ Text.ofNat r ++ Text.ofString " ends before it starts"
  | undefinedScope n id => refers (Text.ofString "local " ++ Quoted.encode n) id

end LabelFault

/-- What is wrong with an operand. -/
inductive OperandFault where
  | unknownOpcode (position : Nat) (op : Opcode)
  | slotExpected (position : Nat) (op : Opcode)
  | slotOutOfRange (position : Nat) (index maxLocals : UInt32)
  | badIncrement (position : Nat)
  | memberExpected (position : Nat) (op : Opcode)
  | descriptor (position : Nat) (cause : Descriptor.MethodError)
  | fieldDescriptor (position : Nat) (desc : Text)
  | typeExpected (position : Nat) (op : Opcode)
  | tableExpected (position : Nat)
  | labelExpected (position : Nat) (op : Opcode)
deriving DecidableEq, Repr

namespace OperandFault

private def placed (i : Nat) (rest : Text) : Text :=
  Text.ofString "instruction " ++ Text.ofNat i ++ Text.ofString ": " ++ rest

/-- The wording of an operand fault. -/
def message : OperandFault → Text
  | unknownOpcode i op => placed i (Text.ofString "unknown opcode 0x" ++ Text.hexPadded 2 op.byte.toNat)
  | slotExpected i op => placed i (op.name ++ Text.ofString " needs a local index")
  | slotOutOfRange i n max =>
    placed i (Text.ofString "local " ++ Text.ofNat n.toNat ++ Text.ofString " out of range (max "
      ++ Text.ofNat max.toNat ++ Text.ofString ")")
  | badIncrement i => placed i "bad iinc operand"
  | memberExpected i op => placed i (op.name ++ Text.ofString " needs owner and name")
  | descriptor i e => placed i e.message
  | fieldDescriptor i d => placed i (Text.ofString "bad field descriptor " ++ Quoted.encode d)
  | typeExpected i op => placed i (op.name ++ Text.ofString " needs a type")
  | tableExpected i => placed i "tableswitch needs a table"
  | labelExpected i op => placed i (op.name ++ Text.ofString " needs a label")

end OperandFault

/-- What is wrong with a method. -/
inductive MethodFault where
  | descriptor (cause : Descriptor.MethodError)
  | bodyNotExpected
  | emptyBody
  | tooFewLocals (maxLocals : UInt32) (params : Nat)
  | label (cause : LabelFault)
  | operand (cause : OperandFault)
  | depth (cause : StackDepth.Failure)
  | tooShallow (maxStack : UInt32) (need : Nat)
deriving DecidableEq, Repr

/-- The wording of a method fault. -/
def MethodFault.message : MethodFault → Text
  | descriptor e => e.message
  | bodyNotExpected => "abstract or native method has code"
  | emptyBody => "empty body"
  | tooFewLocals n p =>
    Text.ofString "max locals " ++ Text.ofNat n.toNat ++ Text.ofString " below parameter count "
      ++ Text.ofNat p
  | label e => e.message
  | operand e => e.message
  | depth e => e.message
  | tooShallow n need =>
    Text.ofString "max stack " ++ Text.ofNat n.toNat ++ Text.ofString " below required "
      ++ Text.ofNat need

/-- What is wrong with a class. -/
inductive ClassFault where
  | unnamed
  | noSuper (cls : Text)
  | fieldDescriptor (cls field desc : Text)
  | declaredTwice (cls key : Text)
  | method (cls key : Text) (cause : MethodFault)
deriving DecidableEq, Repr

/-- The wording of a class fault. -/
def ClassFault.message : ClassFault → Text
  | unnamed => "class has no name"
  | noSuper c => Text.ofString "class " ++ c ++ Text.ofString " has no superclass"
  | fieldDescriptor c f d =>
    Text.ofString "field " ++ c ++ Text.ofString "." ++ f ++ Text.ofString ": bad descriptor "
      ++ Quoted.encode d
  | declaredTwice c k =>
    Text.ofString "method " ++ c ++ Text.ofString "." ++ k ++ Text.ofString " declared twice"
  | method c k e =>
    Text.ofString "method " ++ c ++ Text.ofString "." ++ k ++ Text.ofString ": " ++ e.message

/-! ## Labels -/

namespace Validation

/-- Every label mark carries a label, and no label is marked twice. -/
def checkMarks : List Instruction → Nat → List (Label × Nat) → Except LabelFault Unit
  | [], _, _ => .ok ()
  | instr :: rest, i, seen =>
    if instr.isMark then
      match instr.markedLabel? with
      | none => .error (.unnumbered i)
      | some id =>
        match seen.lookup id with
        | some first => .error (.repeated id first i)
        | none => checkMarks rest (i + 1) ((id, i) :: seen)
    else checkMarks rest (i + 1) seen

/-- The first of some labels that is not marked. -/
def undefined? (index : List (Label × Nat)) (ids : List Label) : Option Label :=
  ids.find? fun id => (index.lookup id).isNone

/-- Every jump goes to a marked label. -/
def checkTargets (index : List (Label × Nat)) : List Instruction → Nat → Except LabelFault Unit
  | [], _ => .ok ()
  | instr :: rest, i =>
    match undefined? index instr.targets with
    | some id => .error (.undefinedTarget i id)
    | none => checkTargets index rest (i + 1)

/-- Every range has marked labels and ends no earlier than it starts. -/
def checkRanges (index : List (Label × Nat)) : List ExceptionRange → Nat → Except LabelFault Unit
  | [], _ => .ok ()
  | r :: rest, i =>
    match undefined? index [r.start, r.stop, r.handler] with
    | some id => .error (.undefinedBound i id)
    | none =>
      if (index.lookup r.stop).getD 0 < (index.lookup r.start).getD 0 then .error (.reversed i)
      else checkRanges index rest (i + 1)

/-- Every named local has marked labels. -/
def checkScopes (index : List (Label × Nat)) : List LocalVar → Except LabelFault Unit
  | [] => .ok ()
  | v :: rest =>
    match undefined? index [v.start, v.stop] with
    | some id => .error (.undefinedScope v.name id)
    | none => checkScopes index rest

/-- All checks on labels. -/
def checkLabels (m : Method) : Except LabelFault Unit := do
  checkMarks m.code.toList 0 []
  let index := m.code.labelIndex
  checkTargets index m.code.toList 0
  checkRanges index m.ranges 0
  checkScopes index m.localVars

/-! ## Operands -/

/-- The descriptor of a member fits the instruction. -/
def checkMember (i : Nat) (op : Opcode) (m : Member) : Except OperandFault Unit :=
  if m.owner.isEmpty || m.name.isEmpty then .error (.memberExpected i op)
  else if op.isInvoke then
    match Descriptor.parseMethod m.desc with
    | .error e => .error (.descriptor i e)
    | .ok _ => .ok ()
  else if Descriptor.isField m.desc then .ok ()
  else .error (.fieldDescriptor i m.desc)

/-- The operand of one instruction.  Constants, and what an instruction without operand carries, are
not looked at. -/
def checkOperand (maxLocals : UInt32) (i : Nat) (instr : Instruction) : Except OperandFault Unit :=
  match instr.opcode.operandKind? with
  | none => .error (.unknownOpcode i instr.opcode)
  | some .slot =>
    match instr.operand with
    | .slot n => if maxLocals ≤ n then .error (.slotOutOfRange i n maxLocals) else .ok ()
    | _ => .error (.slotExpected i instr.opcode)
  | some .increment =>
    match instr.operand with
    | .increment n _ => if maxLocals ≤ n then .error (.badIncrement i) else .ok ()
    | _ => .error (.badIncrement i)
  | some .member =>
    match instr.operand with
    | .member m => checkMember i instr.opcode m
    | _ => .error (.memberExpected i instr.opcode)
  | some .type =>
    match instr.operand with
    | .type t => if t.isEmpty then .error (.typeExpected i instr.opcode) else .ok ()
    | _ => .error (.typeExpected i instr.opcode)
  | some .table =>
    match instr.operand with
    | .table _ _ _ => .ok ()
    | _ => .error (.tableExpected i)
  | some .label =>
    match instr.operand with
    | .label _ => .ok ()
    | _ => .error (.labelExpected i instr.opcode)
  | some _ => .ok ()

/-- The operands of a body. -/
def checkOperands (maxLocals : UInt32) : List Instruction → Nat → Except OperandFault Unit
  | [], _ => .ok ()
  | instr :: rest, i =>
    match checkOperand maxLocals i instr with
    | .error e => .error e
    | .ok () => checkOperands maxLocals rest (i + 1)

/-- The declared stack bound is large enough. -/
def checkDepth (m : Method) : Except MethodFault Unit :=
  match m.stackNeed with
  | .error e => .error (.depth e)
  | .ok need => if m.maxStack.toNat < need then .error (.tooShallow m.maxStack need) else .ok ()

end Validation

/-! ## Methods and classes -/

/-- **The checks on one method.** -/
def Method.validate (m : Method) : Except MethodFault Unit :=
  match Descriptor.parseMethod m.desc with
  | .error e => .error (.descriptor e)
  | .ok d =>
    let params := d.params.length + m.receiverCount
    if !m.hasBody then (if m.code.isEmpty then .ok () else .error .bodyNotExpected)
    else if m.code.isEmpty then .error .emptyBody
    else if m.maxLocals.toNat < params then .error (.tooFewLocals m.maxLocals params)
    else
      match Validation.checkLabels m with
      | .error e => .error (.label e)
      | .ok () =>
        match Validation.checkOperands m.maxLocals m.code.toList 0 with
        | .error e => .error (.operand e)
        | .ok () => Validation.checkDepth m

namespace Class

/-- The checks on the methods of a class; no two may have the same key. -/
def validateMethods (cls : Text) : List Method → List Text → Except ClassFault Unit
  | [], _ => .ok ()
  | m :: rest, seen =>
    if seen.contains m.key then .error (.declaredTwice cls m.key)
    else
      match m.validate with
      | .error e => .error (.method cls m.key e)
      | .ok () => validateMethods cls rest (m.key :: seen)

/-- **The checks on a class.** -/
def validate (c : Class) : Except ClassFault Unit :=
  if c.name.isEmpty then .error .unnamed
  else if c.super.isEmpty && c.name != ClassName.object then .error (.noSuper c.name)
  else
    match c.fields.find? fun f => !Descriptor.isField f.desc with
    | some f => .error (.fieldDescriptor c.name f.name f.desc)
    | none => validateMethods c.name c.methods []

end Class

end Suspension
