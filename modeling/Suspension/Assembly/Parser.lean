import Suspension.Assembly.Token
import Suspension.Codec.Encode
import Suspension.Fault
import Suspension.Number.Literal
import Suspension.Validation

/-!
# Reading assembler text

Classes from tokens.  A class is a form `(class "name" section…)`, a method likewise, and its code is
a sequence of mnemonics with their operands and of label definitions.

**Labels.**  In the text labels have names.  A name gets a number when it is first mentioned; when the
method is complete the numbers are exchanged for the places of the definitions, 0, 1, 2, …, so the
result does not depend on the names or on who mentions them first.

* `Assembly.classes` — all classes of a text, `Assembly.single` — the only one,
  `Assembly.binary` — the only one, checked and encoded.
-/

namespace Suspension

namespace Assembly

/-- Why tokens are not a sequence of classes. -/
inductive Problem where
  | endOfInput
  | noClass
  | expected (line : Nat) (kind : TokenKind) (got : Text)
  | keywordExpected (line : Nat) (keyword got : Text)
  | unknownClassSection (line : Nat) (got : Text)
  | unknownMethodSection (line : Nat) (got : Text)
  | unknownFlag (line : Nat) (got : Text)
  | invalidInteger (line : Nat) (literal : Text)
  | invalidNumber (line : Nat) (literal : Text)
  | invalidFloat (line : Nat) (literal : Text)
  | labelExpected (line : Nat) (got : Text)
  | labelTwice (line : Nat) (name : Text)
  | unknownLabel (line : Nat) (name : Text)
  | parameterOutOfRange (line : Nat) (index : Nat)
  | catchTypeExpected (line : Nat) (got : Text)
  | instructionExpected (line : Nat) (got : Text)
  | unknownInstruction (line : Nat) (got : Text)
  | descriptor (cause : Descriptor.MethodError)
  | depth (cause : StackDepth.Failure)
  | inClass (name : Text) (cause : Problem)
  | inMethod (key : Text) (cause : Problem)
  | inInstruction (mnemonic : Text) (cause : Problem)
deriving Repr, DecidableEq

namespace Problem

private def onLine (line : Nat) (what : String) (got : Text) : Text :=
  Text.ofString "line " ++ Text.ofNat line ++ Text.ofString ": " ++ Text.ofString what ++ got

/-- The wording of a problem. -/
def message : Problem → Text
  | endOfInput => "unexpected end of input"
  | noClass => "expected 'class'"
  | expected n k got =>
    onLine n "expected " (k.name ++ Text.ofString ", got " ++ Quoted.encode got)
  | keywordExpected n k got =>
    onLine n "expected '" (k ++ Text.ofString "', got " ++ Quoted.encode got)
  | unknownClassSection n got => onLine n "unknown class section " (Quoted.encode got)
  | unknownMethodSection n got => onLine n "unknown method section " (Quoted.encode got)
  | unknownFlag n got => onLine n "unknown flag " (Quoted.encode got)
  | invalidInteger n t => onLine n "invalid integer " t
  | invalidNumber n t => onLine n "invalid number " t
  | invalidFloat n t => onLine n "invalid float " t
  | labelExpected n got => onLine n "expected label, got " (Quoted.encode got)
  | labelTwice n t => onLine n "label " (t ++ Text.ofString " defined twice")
  | unknownLabel n t => onLine n "unknown label " t
  | parameterOutOfRange n i =>
    onLine n "parameter " (Text.ofNat i ++ Text.ofString " out of range")
  | catchTypeExpected n got => onLine n "expected catch type or 'any', got " (Quoted.encode got)
  | instructionExpected n got => onLine n "expected instruction, got " (Quoted.encode got)
  | unknownInstruction n got => onLine n "unknown instruction " (Quoted.encode got)
  | descriptor e => e.message
  | depth e => e.message
  | inClass name e => Text.ofString "class " ++ name ++ Text.ofString ": " ++ e.message
  | inMethod key e => Text.ofString "method " ++ key ++ Text.ofString ": " ++ e.message
  | inInstruction name e => name ++ Text.ofString ": " ++ e.message

end Problem

/-- Reading takes tokens off the front. -/
abbrev Parse (α : Type) := StateT (List Token) (Except Problem) α

/-! ## Single tokens -/

/-- The next token, taken off. -/
def next : Parse Token := fun tokens =>
  match tokens with
  | [] => .error .endOfInput
  | t :: rest => .ok (t, rest)

/-- The next token, of a given sort. -/
def expect (kind : TokenKind) : Parse Token := do
  let t ← next
  if t.kind == kind then return t else throw (.expected t.line kind t.value)

/-- Whether the current form ends here. -/
def atClose : Parse Bool := fun tokens =>
  match tokens with
  | [] => .ok (true, tokens)
  | t :: _ => .ok (t.kind == .close, tokens)

/-- The end of a form. -/
def closeForm : Parse Unit := do
  let _ ← expect .close

/-- A given identifier. -/
def keyword (word : Text) : Parse Unit := do
  let t ← expect .ident
  if t.value == word then return () else throw (.keywordExpected t.line word t.value)

/-- A quoted string. -/
def string : Parse Text := return (← expect .string).value

/-- A signed integer of a given width. -/
def integer (width : Nat) : Parse Int := do
  let t ← expect .number
  match Literal.integer? width (Utf8.chars t.value) with
  | some v => return v
  | none => throw (.invalidInteger t.line t.value)

/-- An unsigned word. -/
def word : Parse UInt32 := do
  let t ← expect .number
  match Literal.unsigned? 32 (Utf8.chars t.value) with
  | some v => return UInt32.ofNat v
  | none => throw (.invalidNumber t.line t.value)

/-- The bits of a float. -/
def float (f : FloatFormat) : Parse Nat := do
  let t ← expect .number
  match Literal.float? f (Utf8.chars t.value) with
  | some v => return v
  | none => throw (.invalidFloat t.line t.value)

/-! ## Repetition up to the end of a form

A round takes at least one token, so the number of tokens is fuel enough. -/

/-- Quoted strings up to the end of the form. -/
def stringsUpTo : Nat → Parse (List Text)
  | 0 => return []
  | fuel + 1 => do
    if ← atClose then return []
    let s ← string
    return s :: (← stringsUpTo fuel)

/-- Quoted strings up to the end of the form. -/
def strings : Parse (List Text) := do stringsUpTo (← get).length

/-- Flag words up to the end of the form, added to the flags in `acc`. -/
def flagsUpTo : Nat → UInt32 → Parse UInt32
  | 0, acc => return acc
  | fuel + 1, acc => do
    if ← atClose then return acc
    let t ← expect .ident
    match Flag.words.lookup t.value with
    | some bit => flagsUpTo fuel (acc ||| bit)
    | none => throw (.unknownFlag t.line t.value)

/-- Flag words up to the end of the form. -/
def flags : Parse UInt32 := do flagsUpTo (← get).length 0

/-! ## Labels -/

/-- **The label names of a method**: in order of first mention, each with the line of that mention;
and the numbers of those that are defined, in order of definition. -/
structure LabelTable where
  names : List (Text × Nat) := []
  order : List Label := []
deriving Repr, DecidableEq

namespace LabelTable

/-- The place of a name among the names mentioned. -/
def find? (t : LabelTable) (name : Text) : Option Nat := t.names.findIdx? (·.1 == name)

/-- The number of a name, a new one if it was not mentioned before. -/
def mention (t : LabelTable) (name : Text) (line : Nat) : Label × LabelTable :=
  match t.find? name with
  | some i => (UInt32.ofNat i, t)
  | none => (UInt32.ofNat t.names.length, { t with names := t.names ++ [(name, line)] })

/-- The number of a name that is defined here. -/
def define (t : LabelTable) (name : Text) (line : Nat) : Except Problem (Label × LabelTable) :=
  let (id, t) := t.mention name line
  if t.order.contains id then .error (.labelTwice line name)
  else .ok (id, { t with order := t.order ++ [id] })

/-- The names from the `i`-th on of which the first is not defined. -/
def firstUndefined? (order : List Label) : List (Text × Nat) → Nat → Option (Text × Nat)
  | [], _ => none
  | entry :: rest, i =>
    if order.contains (UInt32.ofNat i) then firstUndefined? order rest (i + 1) else some entry

/-- The first name mentioned that is not defined. -/
def undefined? (t : LabelTable) : Option (Text × Nat) := firstUndefined? t.order t.names 0

/-- The place of a label among the definitions. -/
def place (t : LabelTable) (id : Label) : Label := UInt32.ofNat ((t.order.findIdx? (· == id)).getD 0)

end LabelTable

/-- A reference to a label by name. -/
def labelRef (table : LabelTable) : Parse (Label × LabelTable) := do
  let t ← expect .ident
  match t.value with
  | 0x24 :: _ :: _ => return table.mention t.value t.line
  | _ => throw (.labelExpected t.line t.value)

/-! ## Code -/

/-- The entries of a jump table up to the word `default`. -/
def tableEntries : Nat → LabelTable → Parse (List Label × LabelTable)
  | 0, table => return ([], table)
  | fuel + 1, table => do
    match (← get).head? with
    | none => throw .endOfInput
    | some t =>
      if t.kind == .ident && t.value == Text.ofString "default" then
        let _ ← next
        return ([], table)
      let (id, table) ← labelRef table
      let (ids, table) ← tableEntries fuel table
      return (id :: ids, table)

/-- **The operand that a mnemonic is followed by.** -/
def operand (table : LabelTable) : OperandKind → Parse (Operand × LabelTable)
  | .none => return (.none, table)
  | .int => return (.int (Int32.ofInt (← integer 32)), table)
  | .long => return (.long (Int64.ofInt (← integer 64)), table)
  | .float => return (.float (UInt32.ofNat (← float .single)), table)
  | .double => return (.double (UInt64.ofNat (← float .double)), table)
  | .text => return (.text (← string), table)
  | .slot => return (.slot (← word), table)
  | .increment => do
    let index ← word
    let delta ← integer 32
    return (.increment index (Int32.ofInt delta), table)
  | .label => do
    let (id, table) ← labelRef table
    return (.label id, table)
  | .table => do
    let low ← integer 32
    let (ids, table) ← tableEntries ((← get).length + 1) table
    let (default, table) ← labelRef table
    return (.table (Int32.ofInt low) ids default, table)
  | .member => do
    let owner ← string
    let name ← string
    let desc ← string
    return (.member ⟨owner, name, desc⟩, table)
  | .type => return (.type (← string), table)

/-- An instruction behind its mnemonic. -/
def instruction (table : LabelTable) (t : Token) : Parse (Instruction × LabelTable) :=
  match Opcode.ofMnemonic? t.value with
  | none | some .label => throw (.unknownInstruction t.line t.value)
  | some op => fun tokens =>
    match operand table (op.operandKind?.getD .none) tokens with
    | .error e => .error (.inInstruction t.value e)
    | .ok ((v, table), rest) => .ok ((⟨op, v⟩, table), rest)

/-- Instructions and label definitions up to the end of the form. -/
def codeUpTo : Nat → LabelTable → Parse (List Instruction × LabelTable)
  | 0, table => return ([], table)
  | fuel + 1, table => do
    if ← atClose then return ([], table)
    let t ← next
    let (instr, table) ← match t.kind with
      | .label =>
        match table.define t.value t.line with
        | .ok (id, table) => pure (Instruction.mark id, table)
        | .error e => throw e
      | .ident => instruction table t
      | _ => throw (.instructionExpected t.line t.value)
    let (more, table) ← codeUpTo fuel table
    return (instr :: more, table)

/-- A code form's contents. -/
def code (table : LabelTable) : Parse (List Instruction × LabelTable) := do
  codeUpTo (← get).length table

/-! ## Methods -/

/-- A method while its sections are read. -/
structure Draft where
  method : Method
  table : LabelTable := {}
  hasLocals : Bool := false
  hasStack : Bool := false
deriving Repr

/-- A protected range. -/
def catchForm (table : LabelTable) : Parse (ExceptionRange × LabelTable) := do
  let (start, table) ← labelRef table
  let (stop, table) ← labelRef table
  let (handler, table) ← labelRef table
  let t ← next
  if t.kind == .string then return (⟨t.value, start, stop, handler⟩, table)
  if t.kind == .ident && t.value == Text.ofString "any" then
    return (⟨[], start, stop, handler⟩, table)
  throw (.catchTypeExpected t.line t.value)

/-- The name of a local. -/
def localForm (table : LabelTable) : Parse (LocalVar × LabelTable) := do
  let name ← string
  let desc ← string
  let (start, table) ← labelRef table
  let (stop, table) ← labelRef table
  let index ← word
  return (⟨name, desc, start, stop, index⟩, table)

/-- Annotations added to those of one parameter. -/
def annotateParam (params : Nat) (i : Nat) (names : List Text) (anns : List (List Text)) :
    List (List Text) :=
  let anns := if anns.isEmpty then List.replicate params [] else anns
  anns.modify i (· ++ names)

/-- One section of a method, by its keyword. -/
def methodSection (params : Nat) (d : Draft) (kw : Token) : Parse Draft := do
  let m := d.method
  if kw.value == Text.ofString "flags" then
    return { d with method := { m with flags := ← flags } }
  if kw.value == Text.ofString "throws" then
    let names ← strings
    return { d with method := { m with throws := m.throws ++ names } }
  if kw.value == Text.ofString "annotation" then
    let names ← strings
    return { d with method := { m with annotations := m.annotations ++ names } }
  if kw.value == Text.ofString "param-annotation" then
    let i ← word
    if params ≤ i.toNat then throw (.parameterOutOfRange kw.line i.toNat)
    let names ← strings
    return { d with method :=
      { m with paramAnnotations := annotateParam params i.toNat names m.paramAnnotations } }
  if kw.value == Text.ofString "locals" then
    return { d with method := { m with maxLocals := ← word }, hasLocals := true }
  if kw.value == Text.ofString "stack" then
    return { d with method := { m with maxStack := ← word }, hasStack := true }
  if kw.value == Text.ofString "code" then
    let (instrs, table) ← fun tokens =>
      match code d.table tokens with
      | .error e => .error (.inMethod m.key e)
      | .ok r => .ok r
    return { d with method := { m with code := m.code ++ instrs.toArray }, table }
  if kw.value == Text.ofString "catch" then
    let (r, table) ← catchForm d.table
    return { d with method := { m with ranges := m.ranges ++ [r] }, table }
  if kw.value == Text.ofString "local" then
    let (v, table) ← localForm d.table
    return { d with method := { m with localVars := m.localVars ++ [v] }, table }
  throw (.unknownMethodSection kw.line kw.value)

/-- The sections of a method up to the end of its form. -/
def methodSections (params : Nat) : Nat → Draft → Parse Draft
  | 0, d => return d
  | fuel + 1, d => do
    if ← atClose then return d
    let _ ← expect .open_
    let kw ← expect .ident
    let d ← methodSection params d kw
    closeForm
    methodSections params fuel d

/-- An operand with its labels exchanged. -/
def relabelOperand (f : Label → Label) : Operand → Operand
  | .label id => .label (f id)
  | .table low ids default => .table low (ids.map f) (f default)
  | v => v

/-- A method with its labels exchanged, wherever they stand. -/
def relabel (f : Label → Label) (m : Method) : Method :=
  { m with
    code := m.code.map fun i => { i with operand := relabelOperand f i.operand }
    ranges := m.ranges.map fun r =>
      { r with start := f r.start, stop := f r.stop, handler := f r.handler }
    localVars := m.localVars.map fun v => { v with start := f v.start, stop := f v.stop } }

/-- The local that an instruction works on. -/
def localOf? (i : Instruction) : Option UInt32 :=
  match i.operand with
  | .slot n => some n
  | .increment n _ => some n
  | _ => none

/-- The locals that a method without a `locals` section has: its parameters and every local that the
body or a name mentions. -/
def inferLocals (m : Method) (params : Nat) : UInt32 :=
  let used := m.code.toList.filterMap localOf? ++ m.localVars.map (·.index)
  used.foldl (fun n i => if n < i + 1 then i + 1 else n) (UInt32.ofNat (params + m.receiverCount))

/-- The method of a complete draft: labels in order of definition, and what was not declared
inferred. -/
def Draft.finish (d : Draft) (params : Nat) : Except Problem Method :=
  match d.table.undefined? with
  | some (name, line) => .error (.unknownLabel line name)
  | none =>
    let m := relabel d.table.place d.method
    let m := if d.hasLocals then m else { m with maxLocals := inferLocals m params }
    if d.hasStack || !m.hasBody || m.code.isEmpty then .ok m
    else
      match m.stackNeed with
      | .error e => .error (.inMethod m.key (.depth e))
      | .ok need => .ok { m with maxStack := UInt32.ofNat need }

/-- **A method form** behind its keyword. -/
def method : Parse Method := do
  let name ← string
  let desc ← string
  match Descriptor.parseMethod desc with
  | .error e => throw (.descriptor e)
  | .ok d =>
    let params := d.params.length
    let draft ← methodSections params ((← get).length + 1) { method := { name, desc } }
    match draft.finish params with
    | .ok m => return m
    | .error e => throw e

/-! ## Classes -/

/-- A field form behind its keyword. -/
def field : Parse Field := do
  let name ← string
  let desc ← string
  let flags ← flags
  return ⟨name, desc, flags⟩

/-- One section of a class, by its keyword. -/
def classSection (c : Class) (kw : Token) : Parse Class := do
  if kw.value == Text.ofString "super" then return { c with super := ← string }
  if kw.value == Text.ofString "implements" then
    let names ← strings
    return { c with interfaces := c.interfaces ++ names }
  if kw.value == Text.ofString "annotation" then
    let names ← strings
    return { c with annotations := c.annotations ++ names }
  if kw.value == Text.ofString "flags" then return { c with flags := ← flags }
  if kw.value == Text.ofString "field" then
    let f ← field
    return { c with fields := c.fields ++ [f] }
  if kw.value == Text.ofString "method" then
    let m ← fun tokens =>
      match method tokens with
      | .error e => .error (.inClass c.name e)
      | .ok r => .ok r
    return { c with methods := c.methods ++ [m] }
  throw (.unknownClassSection kw.line kw.value)

/-- The sections of a class up to the end of its form. -/
def classSections : Nat → Class → Parse Class
  | 0, c => return c
  | fuel + 1, c => do
    if ← atClose then return c
    let _ ← expect .open_
    let kw ← expect .ident
    let c ← classSection c kw
    closeForm
    classSections fuel c

/-- **A class form.**  A class without a `super` section extends the root. -/
def classForm : Parse Class := do
  let _ ← expect .open_
  keyword "class"
  let name ← string
  let super := if name == ClassName.object then [] else ClassName.object
  let c ← classSections ((← get).length + 1) { name, super }
  closeForm
  return c

/-- Class forms up to the last token. -/
def classForms : Nat → Parse (List Class)
  | 0 => return []
  | fuel + 1 => do
    if (← get).isEmpty then return []
    let c ← classForm
    return c :: (← classForms fuel)

/-! ## Whole texts -/

/-- The classes that tokens denote; there must be one. -/
def ofTokens (tokens : List Token) : Except Problem (List Class) :=
  match (classForms (tokens.length + 1)).run tokens with
  | .error e => .error e
  | .ok ([], _) => .error .noClass
  | .ok (cs, _) => .ok cs

/-- A text that does not assemble. -/
def failed (reason : Text) : Fault := .parseFailed "assembly" (some (.plain reason))

/-- **All classes of a text.** -/
def classes (source : Text) : Except Fault (List Class) :=
  match Token.scan source with
  | .error e => .error (failed e.message)
  | .ok tokens =>
    match ofTokens tokens with
    | .error e => .error (failed e.message)
    | .ok cs => .ok cs

/-- The class of a text that holds exactly one. -/
def single (source : Text) : Except Fault Class :=
  match classes source with
  | .error e => .error e
  | .ok [c] => .ok c
  | .ok cs =>
    .error (.invalidInput Phase.parse
      (Text.ofString "expected one class, found " ++ Text.ofNat cs.length))

/-- **The encoding of the one class of a text**, which must be valid. -/
def binary (source : Text) : Except Fault Bytes :=
  match single source with
  | .error e => .error e
  | .ok c =>
    match c.validate with
    | .error e =>
      .error (.wrap Phase.validate FaultKind.invalidData (some (.plain e.message)) c.name)
    | .ok () =>
      match c.encode with
      | .error e =>
        .error (.wrap Phase.encode FaultKind.invalidData (some (.plain e.message)) c.name)
      | .ok data => .ok data

end Assembly

end Suspension
