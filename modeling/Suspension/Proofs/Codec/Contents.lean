import Mathlib.Tactic
import Suspension.Proofs.Codec.RoundTrip

/-!
# What a class contains

The container can hold a class for two reasons, which are apart.  Its **texts** are well formed, and every
instruction has the operand that its opcode carries: such a class can be written.  And its **sizes**, the
lengths of texts and vectors, are words: exactly then what is written is read back as it was.

* `Class.texts`, `Class.sizes` — all texts of a class, and the lengths of all its vectors and texts.
* `Class.Storable`, `Class.Storable.written` — a class that can be written.
* `Class.Countable`, `Class.Storable.decode_eq_iff` — a class that is read back.
-/

namespace Suspension

/-! ## Texts and sizes -/

/-- The texts of an operand. -/
def Operand.texts : Operand → List Text
  | .text t | .type t => [t]
  | .member m => [m.owner, m.name, m.desc]
  | _ => []

/-- The lengths of the vectors of an operand. -/
def Operand.sizes : Operand → List Nat
  | .table _ labels _ => [labels.length]
  | _ => []

/-- The texts of a method that stand neither in its code nor in its ranges. -/
def Method.names (m : Method) : List Text :=
  [m.name, m.desc] ++ m.throws ++ m.annotations ++ m.paramAnnotations.flatten
    ++ m.localVars.flatMap fun v => [v.name, v.desc]

/-- The texts of a method. -/
def Method.texts (m : Method) : List Text :=
  m.names ++ m.code.toList.flatMap (·.operand.texts) ++ m.ranges.map (·.type)

/-- The lengths of the vectors of a method. -/
def Method.sizes (m : Method) : List Nat :=
  [m.throws.length, m.annotations.length, m.paramAnnotations.length, m.code.toList.length,
    m.ranges.length, m.localVars.length]
    ++ m.paramAnnotations.map (·.length) ++ m.code.toList.flatMap (·.operand.sizes)

/-- The texts of a class that stand in none of its methods. -/
def Class.names (c : Class) : List Text :=
  [c.name, c.super] ++ c.interfaces ++ c.annotations ++ c.fields.flatMap fun f => [f.name, f.desc]

/-- **The texts of a class.** -/
def Class.texts (c : Class) : List Text := c.names ++ c.methods.flatMap Method.texts

/-- **The lengths of the vectors and the texts of a class.** -/
def Class.sizes (c : Class) : List Nat :=
  [c.interfaces.length, c.annotations.length, c.fields.length, c.methods.length]
    ++ c.methods.flatMap Method.sizes ++ c.texts.map (·.length)

/-! ## Classes that can be written -/

/-- **An instruction that can be written**: it has the operand that its opcode carries, with well-formed
texts. -/
@[mk_iff]
structure Instruction.Storable (i : Instruction) : Prop where
  kind : i.opcode.operandKind? = some i.operand.kind
  texts : ∀ t ∈ i.operand.texts, Utf8.valid t = true

/-- **A method that can be written.** -/
@[mk_iff]
structure Method.Storable (m : Method) : Prop where
  names : ∀ t ∈ m.names, Utf8.valid t = true
  code : ∀ i ∈ m.code.toList, i.Storable
  ranges : ∀ r ∈ m.ranges, Utf8.valid r.type = true

/-- **A class that can be written.** -/
@[mk_iff]
structure Class.Storable (c : Class) : Prop where
  names : ∀ t ∈ c.names, Utf8.valid t = true
  methods : ∀ m ∈ c.methods, m.Storable

lemma Method.Storable.written {m : Method} (h : m.Storable) : ∃ cs, Encode.method m = .ok cs :=
  Method.written_of_kinds fun i hi => (h.code i hi).kind

/-- **What can be written is written.** -/
lemma Class.Storable.written {c : Class} (h : c.Storable) : ∃ cs, c.encode = .ok cs :=
  Class.written_of_methods fun m hm => (h.methods m hm).written

/-! ## Classes that are read back -/

/-- **A class whose sizes are words.** -/
def Class.Countable (c : Class) : Prop := ∀ n ∈ c.sizes, n < 2 ^ 32

instance (c : Class) : Decidable c.Countable := inferInstanceAs (Decidable (∀ n ∈ c.sizes, n < 2 ^ 32))

lemma Text.allHoldable_iff {ts : List Text} : Text.AllHoldable ts ↔
    (∀ t ∈ ts, Utf8.valid t = true) ∧ ts.length < 2 ^ 32 ∧ ∀ t ∈ ts, t.length < 2 ^ 32 := by
  simp only [Text.AllHoldable, Text.Holdable, forall_and]
  tauto

lemma Instruction.holdable_iff {i : Instruction} : i.Holdable ↔
    i.Storable ∧ (∀ n ∈ i.operand.sizes, n < 2 ^ 32) ∧ ∀ t ∈ i.operand.texts, t.length < 2 ^ 32 := by
  obtain ⟨op, operand⟩ := i
  rw [Instruction.storable_iff]
  cases operand <;>
    simp [Instruction.Holdable, Operand.Holdable, Operand.texts, Operand.sizes, Text.Holdable] <;> tauto

/-- **A method is held** if it can be written and its sizes are words. -/
lemma Method.holdable_iff_storable {m : Method} : m.Holdable ↔
    m.Storable ∧ (∀ n ∈ m.sizes, n < 2 ^ 32) ∧ ∀ t ∈ m.texts, t.length < 2 ^ 32 := by
  rw [Method.holdable_iff, Method.storable_iff]
  simp only [Text.allHoldable_iff, Instruction.holdable_iff, LocalVar.Holdable, Text.Holdable,
    Method.names, Method.sizes, Method.texts, List.forall_mem_append, List.forall_mem_cons,
    List.forall_mem_map, List.forall_mem_flatMap, List.forall_mem_flatten, forall_and,
    List.not_mem_nil, IsEmpty.forall_iff, implies_true, and_true]
  tauto

/-- **A class is held** if it can be written and its sizes are words. -/
lemma Class.holdable_iff_storable {c : Class} : c.Holdable ↔ c.Storable ∧ c.Countable := by
  rw [Class.holdable_iff, Class.storable_iff]
  simp only [Class.Countable, Text.allHoldable_iff, Method.holdable_iff_storable, Field.Holdable,
    Text.Holdable, Class.names, Class.sizes, Class.texts, List.forall_mem_append,
    List.forall_mem_cons, List.forall_mem_map, List.forall_mem_flatMap, forall_and,
    List.not_mem_nil, IsEmpty.forall_iff, implies_true, and_true]
  tauto

/-- **What is written is read back** if and only if its sizes are words. -/
lemma Class.Storable.decode_eq_iff {c : Class} {data : Bytes} (h : c.Storable)
    (hdata : c.encode = .ok data) : Class.decode data = .ok c ↔ c.Countable := by
  constructor
  · intro hdecode
    obtain ⟨-, _, ⟨hholdable, -⟩, -⟩ := Class.reads_of_decode hdecode
    exact (Class.holdable_iff_storable.mp hholdable).2
  · exact fun hc => (Class.holdable_iff_storable.mpr ⟨h, hc⟩).decode_eq hdata

end Suspension
