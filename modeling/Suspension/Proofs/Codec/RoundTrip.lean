import Mathlib.Tactic
import Suspension.Codec.Decode
import Suspension.Proofs.Codec.Reading

/-!
# The container format, there and back

Writing and reading are inverse to each other in both directions, as far as LEB128 numbers have one
spelling.

* `Class.Holdable` — what the container can hold: well-formed texts, vectors whose length is a word,
  instructions with the operand that their opcode carries.
* `conveys_wholeClass` — the reader and the writer of classes belong together.
* **`Class.decode_encode`** — a class that the container can hold is written and read back.
* **`Class.encode_decode`** — whatever can be read is written again, and differs from what was read
  in the spelling of numbers only.
* **`Class.decode_extended`** — no file continues another.
-/

namespace Suspension

/-! ## What the container can hold -/

/-- An operand whose texts and vectors the container can hold. -/
def Operand.Holdable : Operand → Prop
  | .text t => Text.Holdable t
  | .table _ labels _ => labels.length < 2 ^ 32
  | .member m => Text.Holdable m.owner ∧ Text.Holdable m.name ∧ Text.Holdable m.desc
  | .type t => Text.Holdable t
  | _ => True

instance : DecidablePred Operand.Holdable
  | .text _ | .table _ _ _ | .member _ | .type _ => by unfold Operand.Holdable; infer_instance
  | .none | .int _ | .long _ | .float _ | .double _ | .slot _ | .increment _ _ | .label _ =>
    inferInstanceAs (Decidable True)

/-- An instruction of the set with the operand that its opcode carries. -/
def Instruction.Holdable (i : Instruction) : Prop :=
  i.opcode.operandKind? = some i.operand.kind ∧ i.operand.Holdable

instance (i : Instruction) : Decidable i.Holdable := inferInstanceAs (Decidable (_ ∧ _))

/-- A local's name that the container can hold. -/
def LocalVar.Holdable (v : LocalVar) : Prop := Text.Holdable v.name ∧ Text.Holdable v.desc

instance (v : LocalVar) : Decidable v.Holdable := inferInstanceAs (Decidable (_ ∧ _))

/-- A field that the container can hold. -/
def Field.Holdable (f : Field) : Prop := Text.Holdable f.name ∧ Text.Holdable f.desc

instance (f : Field) : Decidable f.Holdable := inferInstanceAs (Decidable (_ ∧ _))

/-- **A method that the container can hold.** -/
@[mk_iff]
structure Method.Holdable (m : Method) : Prop where
  name : Text.Holdable m.name
  desc : Text.Holdable m.desc
  throws : Text.AllHoldable m.throws
  annotations : Text.AllHoldable m.annotations
  paramAnnotations : m.paramAnnotations.length < 2 ^ 32 ∧
    ∀ ts ∈ m.paramAnnotations, Text.AllHoldable ts
  code : m.code.toList.length < 2 ^ 32 ∧ ∀ i ∈ m.code.toList, i.Holdable
  ranges : m.ranges.length < 2 ^ 32 ∧ ∀ r ∈ m.ranges, Text.Holdable r.type
  localVars : m.localVars.length < 2 ^ 32 ∧ ∀ v ∈ m.localVars, v.Holdable

instance (m : Method) : Decidable m.Holdable := decidable_of_iff _ (Method.holdable_iff m).symm

/-- **A class that the container can hold.** -/
@[mk_iff]
structure Class.Holdable (c : Class) : Prop where
  name : Text.Holdable c.name
  super : Text.Holdable c.super
  interfaces : Text.AllHoldable c.interfaces
  annotations : Text.AllHoldable c.annotations
  fields : c.fields.length < 2 ^ 32 ∧ ∀ f ∈ c.fields, f.Holdable
  methods : c.methods.length < 2 ^ 32 ∧ ∀ m ∈ c.methods, m.Holdable

instance (c : Class) : Decidable c.Holdable := decidable_of_iff _ (Class.holdable_iff c).symm

/-! ## Instructions -/

/-- A defined opcode is the one that its byte numbers. -/
lemma Opcode.ofByte_byte {op : Opcode} {kind : OperandKind} (h : op.operandKind? = some kind) :
    Opcode.ofByte op.byte = op := by
  cases op with
  | const n | load n | arrayLoad n | store n | arrayStore n | convert n | ifInt n | ifInts n
  | returnValue n | invoke n => cases n <;> decide +kernel
  | arith a n => cases a <;> cases n <;> decide +kernel
  | undefined b => simp [Opcode.operandKind?] at h
  | _ => decide +kernel

/-- The opcode that a byte numbers has that byte. -/
lemma Opcode.byte_ofByte (b : UInt8) : (Opcode.ofByte b).byte = b := by
  unfold Opcode.ofByte
  cases h : Opcode.all.find? (·.byte == b) with
  | none => rfl
  | some op => simpa using List.find?_some h

lemma conveys_operand (kind : OperandKind) :
    Conveys (Decode.operand kind) id
      fun o cs => (o.kind = kind ∧ o.Holdable) ∧ Encode.operand? kind o = some cs := by
  cases kind with
  | none =>
    refine (Conveys.pure Operand.none).congr fun o cs => ?_
    cases o <;> simp [Operand.kind, Operand.Holdable, Encode.operand?, eq_comm]
  | int =>
    refine conveys_s32.map.congr fun o cs => ?_
    cases o <;> simp [Operand.kind, Operand.Holdable, Encode.operand?, eq_comm]
  | long =>
    refine conveys_s64.map.congr fun o cs => ?_
    cases o <;> simp [Operand.kind, Operand.Holdable, Encode.operand?, eq_comm]
  | float =>
    refine conveys_fixed32.map.congr fun o cs => ?_
    cases o <;> simp [Operand.kind, Operand.Holdable, Encode.operand?, eq_comm]
  | double =>
    refine conveys_fixed64.map.congr fun o cs => ?_
    cases o <;> simp [Operand.kind, Operand.Holdable, Encode.operand?, eq_comm]
  | text =>
    refine conveys_name.map.congr fun o cs => ?_
    cases o <;> simp [Operand.kind, Operand.Holdable, Encode.operand?, eq_comm]
  | slot =>
    refine conveys_u32.map.congr fun o cs => ?_
    cases o <;> simp [Operand.kind, Operand.Holdable, Encode.operand?, eq_comm]
  | increment =>
    refine (conveys_u32.bind fun n => conveys_s32.map).congr fun o cs => ?_
    cases o <;> simp [Operand.kind, Operand.Holdable, Encode.operand?, eq_comm]
  | label =>
    refine conveys_u32.map.congr fun o cs => ?_
    cases o <;> simp [Operand.kind, Operand.Holdable, Encode.operand?, eq_comm]
  | table =>
    have hlabels : Conveys (Reader.vector 1 Reader.u32) id
        fun ls cs => ls.length < 2 ^ 32 ∧ cs = Writer.vector Writer.u32 ls := by
      refine (conveys_vector conveys_u32 ?_).congr fun ls cs => ?_
      · rintro v _ rfl
        exact length_u32_pos v
      · simp [VectorWritten, eachWritten_flatMap, Writer.vector]
    refine (conveys_s32.bind fun low => hlabels.bind fun ls => conveys_u32.map).congr fun o cs => ?_
    cases o <;> simp [Operand.kind, Operand.Holdable, Encode.operand?, eq_comm]
  | member =>
    refine (conveys_name.bind fun owner => conveys_name.bind fun name =>
      conveys_name.map).congr fun o cs => ?_
    cases o with
    | member m =>
      obtain ⟨owner, name, desc⟩ := m
      simp [Operand.kind, Operand.Holdable, Encode.operand?, eq_comm, and_assoc]
    | _ => simp [Operand.kind]
  | type =>
    refine conveys_name.map.congr fun o cs => ?_
    cases o <;> simp [Operand.kind, Operand.Holdable, Encode.operand?, eq_comm]

lemma Encode.instruction_eq_ok {i : Instruction} {cs : Bytes} :
    Encode.instruction i = .ok cs ↔ ∃ kind bs, i.opcode.operandKind? = some kind ∧
      Encode.operand? kind i.operand = some bs ∧ cs = i.opcode.byte :: bs := by
  unfold Encode.instruction
  cases hkind : i.opcode.operandKind? with
  | none => simp
  | some kind => cases hbs : Encode.operand? kind i.operand <;> simp [hbs, eq_comm]

/-- What stands behind the byte of an opcode. -/
def theRest (op : Opcode) (b : UInt8) : Option OperandKind → Read Instruction
  | none => do
    Reader.fail (.unknownOpcode b)
    return default
  | some kind => return ⟨op, ← Decode.operand kind⟩

lemma instruction_eq : Decode.instruction = Reader.byte >>= fun b =>
    theRest (Opcode.ofByte b) b (Opcode.ofByte b).operandKind? := rfl

lemma conveys_theRest (op : Opcode) (b : UInt8) (kind? : Option OperandKind) :
    Conveys (theRest op b kind?) id fun i cs => i.opcode = op ∧ i.operand.Holdable ∧
      kind? = some i.operand.kind ∧ Encode.operand? i.operand.kind i.operand = some cs := by
  match kind? with
  | none =>
    refine ((Conveys.fail (.unknownOpcode b) id).bind fun _ => Conveys.pure default).congr
      fun i cs => ?_
    simp
  | some kind =>
    refine (conveys_operand kind).map.congr fun i cs => ?_
    constructor
    · rintro ⟨rfl, hhold, hkind, hcs⟩
      obtain rfl := Option.some.inj hkind
      exact ⟨i.operand, ⟨⟨rfl, hhold⟩, hcs⟩, rfl⟩
    · rintro ⟨o, ⟨⟨rfl, hhold⟩, hcs⟩, rfl⟩
      exact ⟨rfl, hhold, rfl, hcs⟩

lemma conveys_instruction :
    Conveys Decode.instruction id fun i cs => i.Holdable ∧ Encode.instruction i = .ok cs := by
  rw [instruction_eq]
  refine (conveys_byte.bind fun b => conveys_theRest _ b _).congr fun i cs => ?_
  rw [Encode.instruction_eq_ok]
  constructor
  · rintro ⟨⟨hkind, hhold⟩, kind, bs, hkind', hbs, rfl⟩
    obtain rfl := Option.some.inj (hkind.symm.trans hkind')
    have hop := Opcode.ofByte_byte hkind
    exact ⟨i.opcode.byte, _, bs, rfl, ⟨hop.symm, hhold, by rw [hop, hkind], hbs⟩, rfl⟩
  · rintro ⟨b, _, bs, rfl, ⟨hop, hhold, hkind, hbs⟩, rfl⟩
    rw [← hop] at hkind
    refine ⟨⟨hkind, hhold⟩, _, bs, hkind, hbs, ?_⟩
    rw [hop, Opcode.byte_ofByte]
    rfl

lemma length_instruction_pos {i : Instruction} {cs : Bytes} (h : Encode.instruction i = .ok cs) :
    1 ≤ cs.length := by
  obtain ⟨_, _, -, -, rfl⟩ := Encode.instruction_eq_ok.1 h
  simp

/-! ## Ranges, locals and fields -/

lemma conveys_range : Conveys Decode.range id
    fun r cs => Text.Holdable r.type ∧ cs = Encode.range r := by
  refine (conveys_name.bind fun type => conveys_u32.bind fun start => conveys_u32.bind fun stop =>
    conveys_u32.map).congr fun r cs => ?_
  constructor
  · rintro ⟨htype, rfl⟩
    refine ⟨_, _, _, ⟨htype, rfl⟩, ⟨_, _, _, rfl, ⟨_, _, _, rfl, ⟨_, rfl, rfl⟩, rfl⟩, rfl⟩, ?_⟩
    simp [Encode.range]
  · rintro ⟨_, _, _, ⟨htype, rfl⟩, ⟨_, _, _, rfl, ⟨_, _, _, rfl, ⟨_, rfl, rfl⟩, rfl⟩, rfl⟩, rfl⟩
    exact ⟨htype, by simp [Encode.range]⟩

lemma conveys_localVar : Conveys Decode.localVar id
    fun v cs => v.Holdable ∧ cs = Encode.localVar v := by
  refine (conveys_name.bind fun name => conveys_name.bind fun desc => conveys_u32.bind fun start =>
    conveys_u32.bind fun stop => conveys_u32.map).congr fun v cs => ?_
  constructor
  · rintro ⟨⟨hname, hdesc⟩, rfl⟩
    refine ⟨_, _, _, ⟨hname, rfl⟩, ⟨_, _, _, ⟨hdesc, rfl⟩, ⟨_, _, _, rfl, ⟨_, _, _, rfl,
      ⟨_, rfl, rfl⟩, rfl⟩, rfl⟩, rfl⟩, ?_⟩
    simp [Encode.localVar]
  · rintro ⟨_, _, _, ⟨hname, rfl⟩, ⟨_, _, _, ⟨hdesc, rfl⟩, ⟨_, _, _, rfl, ⟨_, _, _, rfl,
      ⟨_, rfl, rfl⟩, rfl⟩, rfl⟩, rfl⟩, rfl⟩
    exact ⟨⟨hname, hdesc⟩, by simp [Encode.localVar]⟩

lemma conveys_field : Conveys Decode.field id fun f cs => f.Holdable ∧ cs = Encode.field f := by
  refine (conveys_name.bind fun name => conveys_name.bind fun desc =>
    conveys_u32.map).congr fun f cs => ?_
  constructor
  · rintro ⟨⟨hname, hdesc⟩, rfl⟩
    refine ⟨_, _, _, ⟨hname, rfl⟩, ⟨_, _, _, ⟨hdesc, rfl⟩, ⟨_, rfl, rfl⟩, rfl⟩, ?_⟩
    simp [Encode.field]
  · rintro ⟨_, _, _, ⟨hname, rfl⟩, ⟨_, _, _, ⟨hdesc, rfl⟩, ⟨_, rfl, rfl⟩, rfl⟩, rfl⟩
    exact ⟨⟨hname, hdesc⟩, by simp [Encode.field]⟩

lemma least_range (r : ExceptionRange) : 4 ≤ (Encode.range r).length := by
  have := length_name_pos r.type
  have := length_u32_pos r.start
  have := length_u32_pos r.stop
  have := length_u32_pos r.handler
  simp only [Encode.range, List.length_append]
  omega

lemma least_localVar (v : LocalVar) : 5 ≤ (Encode.localVar v).length := by
  have := length_name_pos v.name
  have := length_name_pos v.desc
  have := length_u32_pos v.start
  have := length_u32_pos v.stop
  have := length_u32_pos v.index
  simp only [Encode.localVar, List.length_append]
  omega

lemma least_field (f : Field) : 3 ≤ (Encode.field f).length := by
  have := length_name_pos f.name
  have := length_name_pos f.desc
  have := length_u32_pos f.flags
  simp only [Encode.field, List.length_append]
  omega

/-! ## Methods -/

/-- The writer of several instructions writes each of them. -/
lemma Encode.instructions_eq_ok {is : List Instruction} {i : Nat} {cs : Bytes} :
    Encode.instructions is i = .ok cs ↔
      EachWritten (fun i cs => Encode.instruction i = .ok cs) is cs := by
  induction is generalizing i cs with
  | nil => simp [Encode.instructions, EachWritten, eq_comm]
  | cons instr is ih =>
    rw [Encode.instructions, EachWritten]
    cases hinstr : Encode.instruction instr with
    | error e => simp
    | ok a =>
      cases hrest : Encode.instructions is (i + 1) with
      | error e => simp [← ih (i := i + 1), hrest]
      | ok b => simp [← ih (i := i + 1), hrest, @eq_comm _ cs]

/-- The writer of several methods writes each of them. -/
lemma Encode.methods_eq_ok {ms : List Method} {cs : Bytes} :
    Encode.methods ms = .ok cs ↔ EachWritten (fun m cs => Encode.method m = .ok cs) ms cs := by
  induction ms generalizing cs with
  | nil => simp [Encode.methods, EachWritten, eq_comm]
  | cons m ms ih =>
    rw [Encode.methods, EachWritten]
    cases hm : Encode.method m with
    | error e => simp
    | ok a =>
      cases hrest : Encode.methods ms with
      | error e => simp [← ih, hrest]
      | ok b => simp [← ih, hrest, @eq_comm _ cs]

lemma Encode.method_eq_ok {m : Method} {cs : Bytes} :
    Encode.method m = .ok cs ↔
      ∃ code, EachWritten (fun i cs => Encode.instruction i = .ok cs) m.code.toList code ∧
        cs = Writer.name m.name ++ (Writer.name m.desc ++ (Writer.u32 m.flags ++
          (Writer.names m.throws ++ (Writer.names m.annotations ++
          (Writer.vector Writer.names m.paramAnnotations ++ (Writer.u32 m.maxLocals ++
          (Writer.u32 m.maxStack ++ ((Writer.count m.code.toList.length ++ code) ++
          (Writer.vector Encode.range m.ranges ++
            Writer.vector Encode.localVar m.localVars))))))))) := by
  simp only [← Encode.instructions_eq_ok (i := 0)]
  unfold Encode.method
  cases Encode.instructions m.code.toList 0 <;> simp [@eq_comm _ cs]

lemma conveys_code : Conveys (Reader.items "instruction" 1 Decode.instruction) id
    (VectorWritten fun i cs => i.Holdable ∧ Encode.instruction i = .ok cs) :=
  conveys_items conveys_instruction _ fun _ _ h => length_instruction_pos h.2

lemma conveys_paramAnnotations : Conveys (Reader.vector 1 Reader.names) id fun tss cs =>
    (tss.length < 2 ^ 32 ∧ ∀ ts ∈ tss, Text.AllHoldable ts) ∧
      cs = Writer.vector Writer.names tss := by
  refine (conveys_vector conveys_names ?_).congr fun tss cs => vectorWritten_iff.symm
  rintro ts _ ⟨-, rfl⟩
  exact length_vector_pos _ ts

lemma conveys_ranges : Conveys (Reader.vector 4 Decode.range) id fun rs cs =>
    (rs.length < 2 ^ 32 ∧ ∀ r ∈ rs, Text.Holdable r.type) ∧
      cs = Writer.vector Encode.range rs := by
  refine (conveys_vector conveys_range ?_).congr fun rs cs => vectorWritten_iff.symm
  rintro r _ ⟨-, rfl⟩
  exact least_range r

lemma conveys_localVars : Conveys (Reader.vector 5 Decode.localVar) id fun vs cs =>
    (vs.length < 2 ^ 32 ∧ ∀ v ∈ vs, v.Holdable) ∧ cs = Writer.vector Encode.localVar vs := by
  refine (conveys_vector conveys_localVar ?_).congr fun vs cs => vectorWritten_iff.symm
  rintro v _ ⟨-, rfl⟩
  exact least_localVar v

lemma conveys_fields : Conveys (Reader.items "field" 3 Decode.field) id fun fs cs =>
    (fs.length < 2 ^ 32 ∧ ∀ f ∈ fs, f.Holdable) ∧ cs = Writer.vector Encode.field fs := by
  refine (conveys_items conveys_field _ ?_).congr fun fs cs => vectorWritten_iff.symm
  rintro f _ ⟨-, rfl⟩
  exact least_field f

lemma conveys_method :
    Conveys Decode.method id fun m cs => m.Holdable ∧ Encode.method m = .ok cs := by
  have hchain := conveys_name.bind fun name => conveys_name.bind fun desc =>
    Conveys.inSection (Text.ofString "method " ++ name ++ desc) (conveys_u32.bind fun flags =>
      conveys_names.bind fun throws => conveys_names.bind fun annotations =>
    conveys_paramAnnotations.bind fun paramAnnotations => conveys_u32.bind fun maxLocals =>
    conveys_u32.bind fun maxStack => conveys_code.bind fun code => conveys_ranges.bind fun ranges =>
    conveys_localVars.bind fun localVars => Conveys.leave.map (F := fun _ => Method.mk name desc
      flags throws annotations paramAnnotations maxLocals maxStack code.toArray ranges localVars))
  refine Conveys.congr (f := Decode.method) (δ := id) hchain fun m cs => ?_
  rw [Encode.method_eq_ok]
  -- the bytes of each part are determined by its value, so only the values stay
  simp only [and_assoc, exists_and_left, exists_eq_left]
  constructor
  · rintro ⟨hm, code, hcode, rfl⟩
    refine ⟨m.name, hm.name, _, ⟨m.desc, hm.desc, _, ⟨m.flags, _, ⟨m.throws, hm.throws, _,
      ⟨m.annotations, hm.annotations, _, ⟨m.paramAnnotations, hm.paramAnnotations.1,
      hm.paramAnnotations.2, _, ⟨m.maxLocals, _, ⟨m.maxStack, _, ⟨m.code.toList, _,
        ⟨hm.code.1, code, eachWritten_and.2 ⟨hm.code.2, hcode⟩, rfl⟩, _,
      ⟨m.ranges, hm.ranges.1, hm.ranges.2, _, ⟨m.localVars, hm.localVars.1, hm.localVars.2,
        ⟨(), rfl⟩, rfl⟩, rfl⟩, rfl⟩, rfl⟩, rfl⟩, rfl⟩, rfl⟩, rfl⟩, rfl⟩, rfl⟩, ?_⟩
    simp
  · rintro ⟨name, hname, _, ⟨desc, hdesc, _, ⟨flags, _, ⟨throws, hthrows, _,
      ⟨annotations, hannotations, _, ⟨paramAnnotations, hparams, hparams', _, ⟨maxLocals, _,
      ⟨maxStack, _, ⟨code, _, ⟨hlen, bs, hcode, rfl⟩, _, ⟨ranges, hranges, hranges', _,
      ⟨localVars, hvars, hvars', ⟨_, rfl⟩, h11⟩, h10⟩, h9⟩, h8⟩, h7⟩, h6⟩, h5⟩, h4⟩, h3⟩,
      h2⟩, h1⟩
    obtain ⟨hinstrs, hbs⟩ := eachWritten_and.1 hcode
    refine ⟨⟨hname, hdesc, hthrows, hannotations, ⟨hparams, hparams'⟩, ⟨hlen, hinstrs⟩,
      ⟨hranges, hranges'⟩, ⟨hvars, hvars'⟩⟩, bs, hbs, ?_⟩
    rw [h1, h2, h3, h4, h5, h6, h7, h8, h9, h10, h11, List.append_nil]

/-- A method takes at least the bytes that its names, numbers and vectors take. -/
lemma least_method {m : Method} {cs : Bytes} (h : Encode.method m = .ok cs) :
    Decode.leastMethodSize ≤ cs.length := by
  obtain ⟨code, -, rfl⟩ := Encode.method_eq_ok.1 h
  have := length_name_pos m.name
  have := length_name_pos m.desc
  have := length_u32_pos m.flags
  have := length_vector_pos Writer.name m.throws
  have := length_vector_pos Writer.name m.annotations
  have := length_vector_pos Writer.names m.paramAnnotations
  have := length_u32_pos m.maxLocals
  have := length_u32_pos m.maxStack
  have := length_u32_pos (UInt32.ofNat m.code.toList.length)
  have := length_vector_pos Encode.range m.ranges
  have := length_vector_pos Encode.localVar m.localVars
  simp only [Decode.leastMethodSize, Writer.names, Writer.count, List.length_append] at *
  omega

/-! ## Classes -/

/-- A word that has to be there, in front of a read that goes on in any case. -/
lemma conveys_expect {α : Type} {k : Read α} {δ : List Section → List Section}
    {W : α → Bytes → Prop} (hk : Conveys k δ W) (v : UInt32) (cause : ReadCause) :
    Conveys (Reader.fixed32 >>= fun w => if w != v then Reader.fail cause >>= fun _ => k else k) δ
      fun x cs => ∃ b, W x b ∧ cs = Writer.fixed32 v ++ b := by
  have hcheck (w : UInt32) :
      Conveys (if w != v then Reader.fail cause >>= fun _ => k else k) δ
        fun x cs => w = v ∧ W x cs := by
    by_cases hw : w = v
    · simp only [hw, bne_self_eq_false, Bool.false_eq_true, if_false]
      exact hk.congr fun x cs => by simp
    · simp only [bne_iff_ne, ne_eq, hw, not_false_eq_true, if_true]
      exact ((Conveys.fail cause id).bind fun _ => hk).congr fun x cs => by simp
  refine (conveys_fixed32.bind hcheck).congr fun x cs => ?_
  constructor
  · rintro ⟨b, hb, rfl⟩
    exact ⟨v, _, b, rfl, ⟨rfl, hb⟩, rfl⟩
  · rintro ⟨_, _, b, rfl, ⟨rfl, hb⟩, rfl⟩
    exact ⟨b, hb, rfl⟩

lemma conveys_header : Conveys Decode.header id
    fun _ cs => cs = Writer.fixed32 ClassFile.magic ++ Writer.fixed32 ClassFile.version := by
  have hchain := Conveys.inSection (Text.ofString "header") <|
    conveys_expect (conveys_expect Conveys.leave ClassFile.version .version) ClassFile.magic .magic
  refine Conveys.congr (f := Decode.header) hchain fun _ cs => ?_
  simp

lemma Class.encode_eq_ok {c : Class} {cs : Bytes} :
    c.encode = .ok cs ↔ ∃ ms, EachWritten (fun m cs => Encode.method m = .ok cs) c.methods ms ∧
      cs = (Writer.fixed32 ClassFile.magic ++ Writer.fixed32 ClassFile.version) ++
        (Writer.name c.name ++ (Writer.name c.super ++ (Writer.names c.interfaces ++
        (Writer.u32 c.flags ++ (Writer.names c.annotations ++
        (Writer.vector Encode.field c.fields ++
          (Writer.count c.methods.length ++ ms))))))) := by
  simp only [← Encode.methods_eq_ok]
  unfold Class.encode
  cases Encode.methods c.methods <;> simp [@eq_comm _ cs]

lemma conveys_methods : Conveys (Reader.vector Decode.leastMethodSize Decode.method) id
    (VectorWritten fun m cs => m.Holdable ∧ Encode.method m = .ok cs) :=
  conveys_vector conveys_method fun _ _ h => least_method h.2

/-- **The reader and the writer of classes belong together.** -/
theorem conveys_wholeClass :
    Conveys Decode.wholeClass id fun c cs => c.Holdable ∧ c.encode = .ok cs := by
  have hchain := conveys_header.bind fun _ => Conveys.inSection (Text.ofString "class") <|
    conveys_name.bind fun name => conveys_name.bind fun super => conveys_names.bind
    fun interfaces => conveys_u32.bind fun flags => conveys_names.bind fun annotations =>
    Conveys.leave.bind fun _ => conveys_fields.bind fun fields => conveys_methods.map
      (F := fun methods => Class.mk name super interfaces flags annotations fields methods)
  refine Conveys.congr (f := Decode.wholeClass) (δ := id) hchain fun c cs => ?_
  rw [Class.encode_eq_ok]
  simp only [and_assoc, exists_and_left, exists_eq_left]
  constructor
  · rintro ⟨hc, ms, hms, rfl⟩
    exact ⟨(), _, ⟨c.name, hc.name, _, ⟨c.super, hc.super, _, ⟨c.interfaces, hc.interfaces, _,
      ⟨c.flags, _, ⟨c.annotations, hc.annotations, _, ⟨(), _, ⟨c.fields, hc.fields.1, hc.fields.2, _,
      ⟨c.methods, ⟨hc.methods.1, ms, eachWritten_and.2 ⟨hc.methods.2, hms⟩, rfl⟩, rfl⟩,
      rfl⟩, rfl⟩, rfl⟩, rfl⟩, rfl⟩, rfl⟩, rfl⟩, rfl⟩
  · rintro ⟨_, _, ⟨name, hname, _, ⟨super, hsuper, _, ⟨interfaces, hinterfaces, _, ⟨flags, _,
      ⟨annotations, hannotations, _, ⟨_, _, ⟨fields, hfields, hfields', _,
      ⟨methods, ⟨hlen, ms, hms, h9⟩, rfl⟩, h8⟩, h7⟩, h6⟩, h5⟩, h4⟩, h3⟩, h2⟩, h1⟩
    obtain ⟨hmethods, hbs⟩ := eachWritten_and.1 hms
    refine ⟨⟨hname, hsuper, hinterfaces, hannotations, ⟨hfields, hfields'⟩, hlen, hmethods⟩, ms, hbs,
      ?_⟩
    rw [h1, h2, h3, h4, h5, h6, h7, h8, h9, List.nil_append]

/-! ## Files -/

/-- What decoding makes of a file, by what reading a class leaves. -/
lemma Class.decode_of_run {data : Bytes} {c : Class} {r : Reader}
    (h : Decode.wholeClass (.ofBytes data) = (c, r)) :
    Class.decode data = match r.failure with
      | some f => .error f
      | none =>
        if r.rest.isEmpty then .ok c
        else .error ⟨.trailing, Text.join (Text.ofString ": ") (r.sections.reverse.map Section.label),
          r.position⟩ := by
  have hrun : (do
      let c ← Decode.wholeClass
      Reader.finish
      return c : Read Class) (.ofBytes data) = (c, (Reader.finish r).2) := by
    rw [Read.bind_apply, h]
    rfl
  have hfinish : (Reader.finish r).2 =
      if r.rest.isEmpty then r else (Reader.fail .trailing r).2 := by
    unfold Reader.finish
    rw [Read.bind_apply]
    show ((if r.rest.isEmpty then pure () else Reader.fail .trailing : Read Unit) r).2 = _
    split <;> rfl
  unfold Class.decode
  simp only [StateT.run, hrun, hfinish]
  cases hfail : r.failure <;> cases hrest : r.rest.isEmpty <;>
    simp [hfail, Reader.fail, modify, modifyGet, MonadStateOf.modifyGet, StateT.modifyGet, pure]

/-- A string of bytes that the reader takes is a file, and is none with anything behind it. -/
lemma Class.decode_of_reads {data s : Bytes} {c : Class} (h : Reads Decode.wholeClass id data c) :
    Class.decode (data ++ s) =
      if s.isEmpty then .ok c else .error ⟨.trailing, [], data.length⟩ := by
  have hrun := h s 0 []
  rw [Class.decode_of_run hrun]
  simp
  rfl

/-- A file is a string of bytes that the reader takes. -/
lemma Class.reads_of_decode {data : Bytes} {c : Class} (h : Class.decode data = .ok c) :
    Reads Decode.wholeClass id data c ∧
      ∃ cs, (c.Holdable ∧ c.encode = .ok cs) ∧ Respelled data cs := by
  obtain ⟨⟨c', r⟩, hrun⟩ : ∃ p, Decode.wholeClass (.ofBytes data) = p := ⟨_, rfl⟩
  rw [Class.decode_of_run hrun] at h
  split at h
  · cases h
  · next hgood =>
    split at h
    · next hempty =>
      obtain rfl := Except.ok.inj h
      obtain ⟨-, bs, hrest, hreads, hspelled⟩ := conveys_wholeClass.accepts _ _ _ hrun hgood
      have hdata : data = bs := by simpa [Reader.ofBytes, List.isEmpty_iff.1 hempty] using hrest
      rw [hdata]
      exact ⟨hreads, hspelled⟩
    · cases h

/-! ## There and back -/

lemma exists_eachWritten {α : Type} {W : α → Bytes → Prop} {xs : List α}
    (h : ∀ x ∈ xs, ∃ cs, W x cs) : ∃ cs, EachWritten W xs cs := by
  induction xs with
  | nil => exact ⟨[], rfl⟩
  | cons x xs ih =>
    obtain ⟨a, ha⟩ := h x (by simp)
    obtain ⟨b, hb⟩ := ih fun y hy => h y (by simp [hy])
    exact ⟨a ++ b, a, b, ha, hb, rfl⟩

/-- An instruction with the operand that its opcode carries can be written. -/
lemma Instruction.written_of_kind {i : Instruction}
    (h : i.opcode.operandKind? = some i.operand.kind) : ∃ cs, Encode.instruction i = .ok cs := by
  have hoperand : ∃ bs, Encode.operand? i.operand.kind i.operand = some bs := by
    cases i.operand <;> exact ⟨_, rfl⟩
  obtain ⟨bs, hbs⟩ := hoperand
  exact ⟨_, Encode.instruction_eq_ok.2 ⟨_, bs, h, hbs, rfl⟩⟩

/-- So can a method of such instructions. -/
lemma Method.written_of_kinds {m : Method}
    (h : ∀ i ∈ m.code.toList, i.opcode.operandKind? = some i.operand.kind) :
    ∃ cs, Encode.method m = .ok cs := by
  obtain ⟨code, hcode⟩ := exists_eachWritten fun i hi => Instruction.written_of_kind (h i hi)
  exact ⟨_, Encode.method_eq_ok.2 ⟨code, hcode, rfl⟩⟩

/-- And a class of methods that can be written. -/
lemma Class.written_of_methods {c : Class} (h : ∀ m ∈ c.methods, ∃ cs, Encode.method m = .ok cs) :
    ∃ cs, c.encode = .ok cs := by
  obtain ⟨ms, hms⟩ := exists_eachWritten h
  exact ⟨_, Class.encode_eq_ok.2 ⟨ms, hms, rfl⟩⟩

lemma Class.Holdable.written {c : Class} (h : c.Holdable) : ∃ cs, c.encode = .ok cs :=
  Class.written_of_methods fun m hm =>
    Method.written_of_kinds fun i hi => ((h.methods.2 m hm).code.2 i hi).1

/-- What is written of a class that the container can hold is read back. -/
lemma Class.Holdable.decode_eq {c : Class} {data : Bytes} (h : c.Holdable)
    (hdata : c.encode = .ok data) : Class.decode data = .ok c := by
  have := Class.decode_of_reads (s := []) (conveys_wholeClass.reads ⟨h, hdata⟩)
  simpa using this

/-- **Round trip.**  A class that the container can hold is written, and read back as it was. -/
theorem Class.decode_encode (c : Class) (h : c.Holdable) :
    ∃ data, c.encode = .ok data ∧ Class.decode data = .ok c := by
  obtain ⟨data, hdata⟩ := h.written
  exact ⟨data, hdata, h.decode_eq hdata⟩

/-- A class with an operand of each kind: the extreme numbers, a signalling NaN, and texts beyond
ASCII. -/
def operands : Class where
  name := "t/Operands"
  super := "core/Object"
  interfaces := ["coro/SuspendableRunnable"]
  annotations := ["note/é"]
  fields := [⟨"count", "J", 0xffffffff⟩]
  methods := [{
    name := "run", desc := "(I)V", throws := ["coro/SuspendExecution"], maxLocals := 2, maxStack := 9
    paramAnnotations := [[], ["note/Param"]]
    code := #[.mark 4294967295, .int (-2147483648), ⟨.const .long, .long (-9223372036854775808)⟩,
      ⟨.const .float, .float 0x7fa00001⟩, ⟨.const .double, .double 0x7ff4000000000001⟩,
      ⟨.ldc, .text "→"⟩, .slot (.load .int) 128, ⟨.increment, .increment 0 (-64)⟩,
      .jump .goto 300, ⟨.tableSwitch, .table 64 [1, 128] 16384⟩,
      .member (.invoke .static) "t/Operands" "f" "()V", .type .new "t/Operands",
      .plain .returnVoid]
    ranges := [⟨"", 1, 2, 3⟩]
    localVars := [⟨"i", "I", 1, 2, 0⟩] }]

theorem operands_decode_encode :
    operands.Holdable ∧ ∃ data, operands.encode = .ok data ∧ Class.decode data = .ok operands :=
  ⟨by decide +kernel, Class.decode_encode operands (by decide +kernel)⟩

/-- A class file with the length of the name spelled in two bytes and the flags in five, of which the
last has bits beyond the word. -/
def overlong : Bytes :=
  [0x00, 0x63, 0x6c, 0x73, 1, 0, 0, 0, 0x81, 0x00, 0x41, 0, 0, 0x81, 0x80, 0x80, 0x80, 0x70, 0, 0, 0]

lemma overlong_decodes : Class.decode overlong = .ok { name := [0x41], flags := 1 } := by
  decide +kernel

/-- **No file continues another.**  Bytes behind a file are refused as trailing ones, at the position
where the file ends; hence what is cut off from a file is no file. -/
theorem Class.decode_extended (data : Bytes) (c : Class) (h : Class.decode data = .ok c) :
    (∀ s, s ≠ [] → Class.decode (data ++ s) = .error ⟨.trailing, [], data.length⟩) ∧
      ∀ p, p <+: data → p ≠ data → ∃ e, Class.decode p = .error e := by
  have hextended {data : Bytes} {c : Class} (h : Class.decode data = .ok c) (s : Bytes)
      (hs : s ≠ []) : Class.decode (data ++ s) = .error ⟨.trailing, [], data.length⟩ := by
    rw [Class.decode_of_reads (Class.reads_of_decode h).1]
    simp [hs]
  refine ⟨hextended h, ?_⟩
  rintro p ⟨s, rfl⟩ hne
  cases hp : Class.decode p with
  | error e => exact ⟨e, rfl⟩
  | ok c' =>
    have hs : s ≠ [] := fun hs => hne (by simp [hs])
    rw [hextended hp s hs] at h
    cases h

theorem overlong_decode_extended :
    Class.decode overlong = .ok { name := [0x41], flags := 1 } ∧
      (∀ s, s ≠ [] → Class.decode (overlong ++ s) = .error ⟨.trailing, [], overlong.length⟩) ∧
      ∀ p, p <+: overlong → p ≠ overlong → ∃ e, Class.decode p = .error e :=
  ⟨overlong_decodes, Class.decode_extended overlong _ overlong_decodes⟩

end Suspension
