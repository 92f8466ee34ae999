import Suspension.Proofs.Code.Validity
import Suspension.Proofs.Codec.RoundTrip

/-!
# Writing classes that pass the checks

The checks and the writer look at the operand of every instruction, each in its own way.  The writer needs
the operand that the opcode carries; the checks ask for it wherever a jump, a local, a member or a class
depends on it, and pass over constants.  So **of a class that passes the checks only a constant with an
operand of another kind cannot be written**, and that is what the writer reports.

* `Instruction.ConstantFits` — a constant with the operand that its opcode carries.
* `Instruction.Fits.written_iff` — one instruction.
* `Class.validate_encodes` — a class.
-/

namespace Suspension

/-! ## Instructions -/

/-- Whether the operand is a constant for the operand stack. -/
def OperandKind.isConstant : OperandKind → Bool
  | int | long | float | double | text => true
  | _ => false

/-- **A constant has the operand that its opcode carries.**  Any other instruction will do. -/
def Instruction.ConstantFits (i : Instruction) : Prop :=
  ∀ kind ∈ i.opcode.operandKind?, kind.isConstant = true → i.operand.kind = kind

instance (i : Instruction) : Decidable i.ConstantFits :=
  inferInstanceAs (Decidable (∀ kind ∈ i.opcode.operandKind?, _))

namespace Encode

/-- The writer of operands refuses those of another kind, unless the opcode carries none. -/
lemma operand?_eq_none_iff {kind : OperandKind} {o : Operand} :
    operand? kind o = none ↔ kind ≠ .none ∧ o.kind ≠ kind := by
  cases kind <;> cases o <;> simp [operand?, Operand.kind]

lemma instruction_eq_error {i : Instruction} {e : EncodeCause} :
    instruction i = .error e ↔
      (i.opcode.operandKind? = none ∧ e = .unknownOpcode i.opcode) ∨
      ∃ kind, i.opcode.operandKind? = some kind ∧ operand? kind i.operand = none
        ∧ e = .unexpectedOperand i.opcode i.operand := by
  unfold instruction
  cases hkind : i.opcode.operandKind? with
  | none => simp [eq_comm]
  | some kind => cases hbs : operand? kind i.operand <;> simp [hbs, eq_comm]

end Encode

namespace Instruction

variable {i : Instruction} {maxLocals : UInt32}

/-- An instruction that passes the checks has a defined opcode. -/
lemma Fits.defined (h : i.Fits maxLocals) : ∃ kind, i.opcode.operandKind? = some kind := by
  unfold Fits at h
  split at h
  · exact h.elim
  all_goals exact ⟨_, by assumption⟩

/-- **What the checks ask for** is the operand that the opcode carries, if it carries one that is no
constant. -/
lemma Fits.kind {kind : OperandKind} (h : i.Fits maxLocals) (hkind : i.opcode.operandKind? = some kind)
    (hne : kind ≠ .none) (hconstant : kind.isConstant = false) : i.operand.kind = kind := by
  unfold Fits at h
  rw [hkind] at h
  cases kind with
  | none => exact absurd rfl hne
  | int | long | float | double | text => simp [OperandKind.isConstant] at hconstant
  | slot =>
      obtain ⟨_, ho, -⟩ := h
      rw [ho, Operand.kind]
  | increment =>
      obtain ⟨_, _, ho, -⟩ := h
      rw [ho, Operand.kind]
  | member =>
      obtain ⟨_, ho, -⟩ := h
      rw [ho, Operand.kind]
  | type =>
      obtain ⟨_, ho, -⟩ := h
      rw [ho, Operand.kind]
  | table =>
      obtain ⟨_, _, _, ho⟩ := h
      rw [ho, Operand.kind]
  | label =>
      obtain ⟨_, ho⟩ := h
      rw [ho, Operand.kind]

/-- **An instruction that passes the checks is refused** only as a constant with an unexpected operand. -/
lemma Fits.refused {e : EncodeCause} (h : i.Fits maxLocals) (he : Encode.instruction i = .error e) :
    ¬ i.ConstantFits ∧ e = .unexpectedOperand i.opcode i.operand := by
  obtain ⟨kind, hkind⟩ := h.defined
  rcases Encode.instruction_eq_error.mp he with ⟨hnone, -⟩ | ⟨kind', hkind', hbs, rfl⟩
  · rw [hkind] at hnone
    cases hnone
  obtain ⟨hne, hother⟩ := Encode.operand?_eq_none_iff.mp hbs
  refine ⟨fun hfits => ?_, rfl⟩
  by_cases hconstant : kind'.isConstant = true
  · exact hother (hfits kind' hkind' hconstant)
  · exact hother (h.kind hkind' hne (by simpa using hconstant))

/-- **An instruction that passes the checks is written** exactly if its constant fits. -/
lemma Fits.written_iff (h : i.Fits maxLocals) :
    (∃ cs, Encode.instruction i = .ok cs) ↔ i.ConstantFits := by
  constructor
  · rintro ⟨cs, hcs⟩ kind hkind hconstant
    obtain ⟨kind', bs, hkind', hbs, -⟩ := Encode.instruction_eq_ok.mp hcs
    obtain rfl : kind = kind' := Option.some.inj (hkind.symm.trans hkind')
    by_contra hother
    have hne : kind ≠ .none := by
      rintro rfl
      simp [OperandKind.isConstant] at hconstant
    rw [Encode.operand?_eq_none_iff.mpr ⟨hne, hother⟩] at hbs
    cases hbs
  · intro hfits
    cases he : Encode.instruction i with
    | ok cs => exact ⟨cs, rfl⟩
    | error e => exact absurd hfits (h.refused he).1

end Instruction

/-! ## Methods and classes -/

/-- The instructions of a method that passes the checks pass them. -/
lemma Method.fits_of_validate {m : Method} (h : m.validate = .ok ()) :
    ∀ i ∈ m.code.toList, i.Fits m.maxLocals := by
  by_cases hcode : m.code = #[]
  · simp [hcode]
  · exact ((Method.validate_eq_ok_iff hcode).mp h).operands

/-- The methods of a class that passes the checks pass them. -/
lemma Class.validateMethods_eq_ok {cls : Text} {ms : List Method} {seen : List Text}
    (h : validateMethods cls ms seen = .ok ()) : ∀ m ∈ ms, m.validate = .ok () := by
  induction ms generalizing seen with
  | nil => simp
  | cons m ms ih =>
      unfold validateMethods at h
      split at h
      · cases h
      split at h
      · cases h
      · next hm => exact List.forall_mem_cons.mpr ⟨hm, ih h⟩

lemma Class.validate_methods {c : Class} (h : c.validate = .ok ()) :
    ∀ m ∈ c.methods, m.validate = .ok () := by
  unfold validate at h
  split at h
  · cases h
  split at h
  · cases h
  split at h
  · cases h
  · exact validateMethods_eq_ok h

namespace Encode

/-- The writer of several instructions reports the first one that is refused. -/
lemma instructions_eq_error {is : List Instruction} {n k : Nat} {e : EncodeCause}
    (h : instructions is n = .error (k, e)) :
    ∃ j i, k = n + j ∧ is[j]? = some i ∧ instruction i = .error e := by
  induction is generalizing n with
  | nil => cases h
  | cons instr is ih =>
      unfold instructions at h
      split at h
      · next he =>
          cases h
          exact ⟨0, instr, rfl, rfl, he⟩
      split at h
      · next hrest =>
          cases h
          obtain ⟨j, i, rfl, hi, he⟩ := ih hrest
          exact ⟨j + 1, i, by omega, hi, he⟩
      · cases h

lemma method_eq_error {m : Method} {e : EncodeFailure} (h : method m = .error e) :
    e.method = m.key ∧ ∃ i, m.code[e.position]? = some i ∧ instruction i = .error e.cause := by
  unfold method at h
  split at h
  · next he =>
      cases h
      obtain ⟨j, i, rfl, hi, he⟩ := instructions_eq_error he
      exact ⟨rfl, i, by simpa using hi, he⟩
  · cases h

lemma methods_eq_error {ms : List Method} {e : EncodeFailure} (h : methods ms = .error e) :
    ∃ m ∈ ms, method m = .error e := by
  induction ms with
  | nil => cases h
  | cons m ms ih =>
      unfold methods at h
      split at h
      · next he =>
          cases h
          exact ⟨m, List.mem_cons_self, he⟩
      split at h
      · next hrest =>
          cases h
          obtain ⟨m', hm', he⟩ := ih hrest
          exact ⟨m', List.mem_cons_of_mem m hm', he⟩
      · cases h

end Encode

/-- All constants of a class have the operands that their opcodes carry. -/
def Class.ConstantsFit (c : Class) : Prop := ∀ m ∈ c.methods, ∀ i ∈ m.code.toList, i.ConstantFits

instance (c : Class) : Decidable c.ConstantsFit :=
  inferInstanceAs (Decidable (∀ m ∈ c.methods, ∀ i ∈ m.code.toList, i.ConstantFits))

/-- **A class that passes the checks can be written** exactly if its constants fit.  If it cannot be
written, the writer names a method and a position where a constant has an unexpected operand. -/
theorem Class.validate_encodes {c : Class} (hc : c.validate = .ok ()) :
    ((∃ data, c.encode = .ok data) ↔ c.ConstantsFit)
      ∧ ∀ e, c.encode = .error e → ∃ m ∈ c.methods, ∃ i, e.method = m.key
          ∧ m.code[e.position]? = some i ∧ ¬ i.ConstantFits
          ∧ e.cause = .unexpectedOperand i.opcode i.operand := by
  have hfits : ∀ m ∈ c.methods, ∀ i ∈ m.code.toList, i.Fits m.maxLocals :=
    fun m hm => Method.fits_of_validate (Class.validate_methods hc m hm)
  have hrefused : ∀ e, c.encode = .error e → ∃ m ∈ c.methods, ∃ i, e.method = m.key
      ∧ m.code[e.position]? = some i ∧ ¬ i.ConstantFits
      ∧ e.cause = .unexpectedOperand i.opcode i.operand := by
    intro e he
    unfold encode at he
    split at he
    · next hmethods =>
        cases he
        obtain ⟨m, hm, he⟩ := Encode.methods_eq_error hmethods
        obtain ⟨hkey, i, hi, he⟩ := Encode.method_eq_error he
        have hmem : i ∈ m.code.toList := Array.mem_toList_iff.mpr (Array.mem_of_getElem? hi)
        exact ⟨m, hm, i, hkey, hi, (hfits m hm i hmem).refused he⟩
    · cases he
  refine ⟨⟨?_, fun hconstants => ?_⟩, hrefused⟩
  · rintro ⟨data, hdata⟩ m hm i hi
    obtain ⟨ms, hms, -⟩ := Class.encode_eq_ok.mp hdata
    obtain ⟨cs, hcs⟩ := EachWritten.written hms hm
    obtain ⟨code, hcode, -⟩ := Encode.method_eq_ok.mp hcs
    exact (hfits m hm i hi).written_iff.mp (EachWritten.written hcode hi)
  · cases he : c.encode with
    | ok data => exact ⟨data, rfl⟩
    | error e =>
        obtain ⟨m, hm, i, -, hi, hnot, -⟩ := hrefused e he
        exact absurd (hconstants m hm i (Array.mem_toList_iff.mpr (Array.mem_of_getElem? hi))) hnot

/-- A class of one static method that loads a constant of each kind and drops it. -/
def constants : Class where
  name := "t/Constants"
  super := "core/Object"
  methods := [{
    name := "run", desc := "()V", flags := Flag.staticBit, maxStack := 1
    code := #[.int 7, .plain .pop, ⟨.const .long, .long (-1)⟩, .plain .pop,
      ⟨.const .float, .float 0x3fc00000⟩, .plain .pop, ⟨.const .double, .double 0⟩, .plain .pop,
      ⟨.ldc, .text "→"⟩, .plain .pop, .plain .returnVoid] }]

theorem constants_encodes :
    constants.validate = .ok () ∧ constants.ConstantsFit ∧ ∃ data, constants.encode = .ok data := by
  have hvalid : constants.validate = .ok () := by decide +kernel
  have hfit : constants.ConstantsFit := by decide +kernel
  exact ⟨hvalid, hfit, (Class.validate_encodes hvalid).1.mpr hfit⟩

/-- The same with a single load, of an integer that is missing. -/
def constantless : Class where
  name := "t/Constantless"
  super := "core/Object"
  methods := [{
    name := "run", desc := "()V", flags := Flag.staticBit, maxStack := 1
    code := #[.plain (.const .int), .plain .pop, .plain .returnVoid] }]

/-- **Not every class that passes the checks can be written.** -/
theorem constantless_not_encodes :
    constantless.validate = .ok ()
      ∧ constantless.encode
        = .error ⟨"run()V", 0, .unexpectedOperand (.const .int) .none⟩ := by
  decide +kernel

end Suspension
