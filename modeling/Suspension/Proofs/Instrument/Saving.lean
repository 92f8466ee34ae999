import Mathlib.Logic.Relation
import Suspension.Proofs.Instrument.Runtime
import Suspension.Proofs.Instrument.Slots

/-!
# Saving and restoring a frame

The code that saves a frame puts the values of its slots into the record of the method, and the code that
restores it fetches them again.  **What is fetched is what was put**, for every value that is what its slot
says, and the casts of the restored references then let them pass.

* `SlotType.Admits` — the values that a slot can hold.
* `FilledSlot` — a slot with its value, `FilledSlot.keptIn_putAll` — a frame stack that they are put in.
* `Running.Proceeds` — the steps that depend on nothing but the classes of objects.
* `Running.Acts`, `Running.Works`, `Running.Does` — what generated code does, wherever it stands, and
  which operations on the frame stack it asks for.
* `Running.does_save`, `Running.does_restore` — saving and restoring all slots of a point.
-/

namespace Suspension

/-! ## Slots with their values -/

/-- **The values that a slot can hold**, if `inst` tells which references are instances of which class.
Null is all that a slot of the null type can hold; an unusable slot is said to hold nothing. -/
def SlotType.Admits (inst : Value → Text → Prop) : SlotType → Value → Prop
  | .unusable, _ => False
  | .int, v => v.kind = .int
  | .long, v => v.kind = .long
  | .float, v => v.kind = .float
  | .double, v => v.kind = .double
  | .ref c, v => v.kind = .ref ∧ (v = .null ∨ c ≠ ClassName.null ∧ inst v c)
  | .pending _ c _, v => v.kind = .ref ∧ (v = .null ∨ inst v c)

namespace SlotType.Admits

variable {inst : Value → Text → Prop} {t : SlotType} {v : Value}

/-- A value has the kind of its slot. -/
lemma kind {k : Kind} (h : t.Admits inst v) (hk : t.kind? = some k) : v.kind = k := by
  cases t <;> cases hk <;> first | exact h | exact h.1

lemma usable (h : t.Admits inst v) : t ≠ .unusable := by
  rintro rfl
  exact h

lemma eq_null (h : t.Admits inst v) (hnull : t.isNull = true) : v = .null := by
  obtain rfl : t = .null := by simpa [SlotType.isNull] using hnull
  exact h.2.resolve_right fun hne => hne.1 rfl

/-- **A reference passes the cast to the class of its slot.** -/
lemma castable (h : t.Admits inst v) (hk : t.kind? = some .ref) : v = .null ∨ inst v t.typeName := by
  cases t with
  | ref c => exact h.2.imp_right And.right
  | pending n c copied => exact h.2
  | _ => cases hk

end SlotType.Admits

/-- The values that may be in a slot: any, if the slot is unusable. -/
def SlotType.Allows (inst : Value → Text → Prop) (t : SlotType) (v : Value) : Prop :=
  t ≠ .unusable → t.Admits inst v

lemma SlotType.Admits.allows {inst : Value → Text → Prop} {t : SlotType} {v : Value}
    (h : t.Admits inst v) : t.Allows inst v := fun _ => h

/-- What a slot type says of a value in a world is that the slot can hold it. -/
lemma World.Holds.allows {W : World} {t : SlotType} {v : Value} (h : W.Holds t v) :
    t.Allows W.inst v := by
  intro ht
  cases t with
  | unusable => exact absurd rfl ht
  | ref c =>
      refine ⟨h.1, h.2.imp_right fun hv => ⟨?_, hv⟩⟩
      rintro rfl
      exact W.not_inst_null v hv
  | pending n c copied =>
      obtain ⟨o, rfl, ho⟩ := h
      exact ⟨rfl, Or.inr (W.inst_of_made ho)⟩
  | _ => exact h

/-- **A slot of a frame, where it is kept, and the value that it holds.** -/
structure FilledSlot where
  type : SlotType
  keep : Keep
  value : Value

namespace FilledSlot

/-- The slot of the record that the value is kept in. -/
def place? (e : FilledSlot) : Option (Kind × Nat) := Emit.place? e.type e.keep

/-- **The record keeps the value**, if it has a place for it. -/
def KeptIn (r : FrameRecord Value) (e : FilledSlot) : Prop :=
  ∀ k i, e.place? = some (k, i) → r.fetch k i = some e.value

/-- The value may be in the slot. -/
def Holds (inst : Value → Text → Prop) (e : FilledSlot) : Prop := e.type.Allows inst e.value

/-- The operation that puts the value into the record. -/
def write (e : FilledSlot) : List (FrameStack.Op Value) :=
  match e.place? with
  | some (k, i) => (Native.saveOp k i e.value).toList
  | none => []

/-- The operation that fetches it again; null is made anew. -/
def read (e : FilledSlot) : List (FrameStack.Op Value) :=
  if e.type.isNull then []
  else
    match e.place? with
    | some (k, i) => [Native.restoreOp k i]
    | none => []

/-- A frame stack with the value put into the current record. -/
def putIn (s : FrameStack Value) (e : FilledSlot) : FrameStack Value :=
  match e.place? with
  | some (k, i) => s.setCurrent (s.topRecord.store k i e.value)
  | none => s

/-- **The current record has a place for the value.** -/
structure FitsIn (s : FrameStack Value) (e : FilledSlot) : Prop where
  room : ∀ k i, e.place? = some (k, i) → i < s.topRecord.room k ∧ i < 2147483648
  kind : ∀ k i, e.place? = some (k, i) → e.type.kind? = some k ∧ e.value.kind = k
  prim : ∀ i, e.keep = .prim i → e.type.kind? ≠ none

/-- Two values are kept in different places. -/
def Apart (e e' : FilledSlot) : Prop :=
  ∀ k i k' i', e.place? = some (k, i) → e'.place? = some (k', i') → (k = .ref ↔ k' = .ref) → i ≠ i'

lemma Apart.symm {e e' : FilledSlot} (h : Apart e e') : Apart e' e :=
  fun k i k' i' he he' hk heq => h k' i' k i he' he hk.symm heq.symm

variable {s : FrameStack Value} {e e' : FilledSlot} {l : List FilledSlot}

@[simp] lemma depth_putIn : (putIn s e).depth = s.depth := by
  unfold putIn
  split <;> rfl

@[simp] lemma room_putIn : (putIn s e).room = s.room := by
  unfold putIn
  split <;> rfl

@[simp] lemma entry_putIn : (putIn s e).topRecord.entry = s.topRecord.entry := by
  unfold putIn
  split <;> simp

@[simp] lemma slots_putIn (k : Kind) : (putIn s e).topRecord.room k = s.topRecord.room k := by
  unfold putIn
  split <;> simp

lemma FitsIn.putIn (h : FitsIn s e) : FitsIn (putIn s e') e :=
  ⟨fun k i hp => by simpa using h.room k i hp, h.kind, h.prim⟩

/-- A value that is put into the record is kept in it. -/
lemma FitsIn.keptIn (h : FitsIn s e) : KeptIn (FilledSlot.putIn s e).topRecord e := by
  intro k i hp
  unfold FilledSlot.putIn
  rw [hp]
  simp only [FrameStack.topRecord_setCurrent]
  exact FrameRecord.fetch_store_self (h.kind k i hp).2 (h.room k i hp).1

/-- It stays there while others are put elsewhere. -/
lemma KeptIn.putIn (h : KeptIn s.topRecord e) (ha : Apart e e') :
    KeptIn (FilledSlot.putIn s e').topRecord e := by
  intro k i hp
  unfold FilledSlot.putIn
  split
  · next k' i' hp' =>
      rw [FrameStack.topRecord_setCurrent, FrameRecord.fetch_store_of_ne, h k i hp]
      exact fun hk => ha k i k' i' hp hp' hk.symm
  · exact h k i hp

/-- **A frame stack with values put into the current record**, one after the other. -/
def putAll (s : FrameStack Value) (l : List FilledSlot) : FrameStack Value := l.foldl putIn s

lemma putAll_cons : putAll s (e :: l) = putAll (putIn s e) l := rfl

lemma putAll_append {l' : List FilledSlot} : putAll s (l ++ l') = putAll (putAll s l) l' :=
  List.foldl_append

@[simp] lemma depth_putAll : (putAll s l).depth = s.depth := by
  induction l generalizing s with
  | nil => rfl
  | cons e l ih => rw [putAll_cons, ih, depth_putIn]

@[simp] lemma room_putAll : (putAll s l).room = s.room := by
  induction l generalizing s with
  | nil => rfl
  | cons e l ih => rw [putAll_cons, ih, room_putIn]

@[simp] lemma entry_putAll : (putAll s l).topRecord.entry = s.topRecord.entry := by
  induction l generalizing s with
  | nil => rfl
  | cons e l ih => rw [putAll_cons, ih, entry_putIn]

@[simp] lemma slots_putAll (k : Kind) : (putAll s l).topRecord.room k = s.topRecord.room k := by
  induction l generalizing s with
  | nil => rfl
  | cons e l ih => rw [putAll_cons, ih, slots_putIn]

lemma FitsIn.putAll (h : FitsIn s e) : FitsIn (putAll s l) e := by
  induction l generalizing s with
  | nil => exact h
  | cons e' l ih => exact ih h.putIn

lemma KeptIn.putAll (h : KeptIn s.topRecord e) (ha : ∀ e' ∈ l, Apart e e') :
    KeptIn (putAll s l).topRecord e := by
  induction l generalizing s with
  | nil => exact h
  | cons e' l ih =>
      exact ih (h.putIn (ha e' List.mem_cons_self)) fun x hx => ha x (List.mem_cons_of_mem e' hx)

/-- **Values that are put in different places are all kept.** -/
lemma keptIn_putAll (hfits : ∀ e ∈ l, FitsIn s e) (hapart : l.Pairwise Apart) :
    ∀ e ∈ l, KeptIn (putAll s l).topRecord e := by
  induction l generalizing s with
  | nil => simp
  | cons e l ih =>
      obtain ⟨he, hl⟩ := List.pairwise_cons.mp hapart
      have hfits' : ∀ x ∈ l, FitsIn (FilledSlot.putIn s e) x :=
        fun x hx => (hfits x (List.mem_cons_of_mem e hx)).putIn
      have hrest := ih hfits' hl
      intro x hx
      rcases List.mem_cons.mp hx with rfl | hx
      · exact (hfits x List.mem_cons_self).keptIn.putAll he
      · exact hrest x hx

end FilledSlot

/-! ### Operands and locals -/

namespace FilledSlot

/-- The slot, without its value. -/
def slot (e : FilledSlot) : SlotType × Keep := (e.type, e.keep)

/-- What stands for a slot on the operand stack: a construction that is redone later is not there. -/
def operand (e : FilledSlot) : List Value := if e.keep = .deferred then [] else [e.value]

/-- What is pushed for a slot when a frame is restored. -/
def pushed (e : FilledSlot) : List Value :=
  if e.keep = .deferred ∨ e.type = .unusable then [] else [e.value]

/-- Whether a local is set when a frame is restored. -/
def isSet (e : FilledSlot) : Bool := e.type.isNull || e.place?.isSome

/-- The locals with one of them set. -/
def setIn (L : Array Value) (index : Nat) (e : FilledSlot) : Array Value :=
  if e.isSet then L.set! index e.value else L

/-- **The locals with those set that are restored**, from an index on. -/
def setAll (L : Array Value) : Nat → List FilledSlot → Array Value
  | _, [] => L
  | index, e :: l => setAll (setIn L index e) (index + 1) l

variable {L : Array Value} {index : Nat} {e : FilledSlot} {l : List FilledSlot}

@[simp] lemma size_setIn : (setIn L index e).size = L.size := by
  unfold setIn
  split <;> simp

lemma getElem?_setIn_of_ne {j : Nat} (h : j ≠ index) : (setIn L index e)[j]? = L[j]? := by
  unfold setIn
  split
  · rw [Array.set!_eq_setIfInBounds, Array.getElem?_setIfInBounds_ne (Ne.symm h)]
  · rfl

@[simp] lemma size_setAll : (setAll L index l).size = L.size := by
  induction l generalizing L index with
  | nil => rfl
  | cons e l ih => rw [setAll, ih, size_setIn]

/-- The other locals stay. -/
lemma getElem?_setAll_of_outside {j : Nat} (h : j < index ∨ index + l.length ≤ j) :
    (setAll L index l)[j]? = L[j]? := by
  induction l generalizing L index with
  | nil => rfl
  | cons e l ih =>
      rw [List.length_cons] at h
      rw [setAll, ih (by omega), getElem?_setIn_of_ne (by omega)]

/-- A local that is not set stays. -/
lemma getElem?_setAll_of_not_isSet {i : Nat} (he : l[i]? = some e) (hset : e.isSet = false) :
    (setAll L index l)[index + i]? = L[index + i]? := by
  induction l generalizing L index i with
  | nil => cases he
  | cons e' l ih =>
      cases i with
      | zero =>
          cases he
          rw [setAll, getElem?_setAll_of_outside (by omega), setIn, if_neg (by simp [hset])]
      | succ i =>
          rw [setAll, show index + (i + 1) = index + 1 + i by omega, ih (by simpa using he),
            getElem?_setIn_of_ne (by omega)]

/-- **A local that is set holds its value.** -/
lemma getElem?_setAll {i : Nat} (he : l[i]? = some e) (hset : e.isSet = true)
    (hsize : index + i < L.size) : (setAll L index l)[index + i]? = some e.value := by
  induction l generalizing L index i with
  | nil => simp at he
  | cons e' l ih =>
      cases i with
      | zero =>
          cases he
          rw [setAll, getElem?_setAll_of_outside (by omega), setIn, if_pos hset,
            Array.set!_eq_setIfInBounds, Nat.add_zero,
            Array.getElem?_setIfInBounds_self_of_lt (by simpa using hsize)]
      | succ i =>
          rw [setAll, show index + (i + 1) = index + 1 + i by omega]
          refine ih (by simpa using he) ?_
          rw [size_setIn]
          omega

end FilledSlot

namespace FilledSlot

variable {inst : Value → Text → Prop}

/-- Slots that have a value on the operand stack, with these values. -/
lemma exists_operands {slots : List (SlotType × Keep)} {vs : List Value}
    (h : List.Forall₂ (SlotType.Allows inst) ((slots.filter fun x => x.2 ≠ .deferred).map Prod.fst) vs) :
    ∃ l : List FilledSlot, l.map FilledSlot.slot = slots ∧ l.flatMap FilledSlot.operand = vs
      ∧ ∀ e ∈ l, e.keep ≠ .deferred → e.Holds inst := by
  induction slots generalizing vs with
  | nil =>
      cases h
      exact ⟨[], rfl, rfl, by simp⟩
  | cons x slots ih =>
      obtain ⟨t, keep⟩ := x
      by_cases hkeep : keep = .deferred
      · rw [List.filter_cons_of_neg (by simp [hkeep])] at h
        obtain ⟨l, hl, hvs, hholds⟩ := ih h
        refine ⟨⟨t, keep, .null⟩ :: l, by simp [hl, FilledSlot.slot], ?_, ?_⟩
        · rw [List.flatMap_cons, hvs]
          simp [FilledSlot.operand, hkeep]
        · intro e he hne
          rcases List.mem_cons.mp he with rfl | he
          · exact absurd hkeep hne
          · exact hholds e he hne
      · rw [List.filter_cons_of_pos (by simp [hkeep])] at h
        cases h with
        | cons hv hrest =>
            next v vs =>
            obtain ⟨l, hl, hvs, hholds⟩ := ih hrest
            refine ⟨⟨t, keep, v⟩ :: l, by simp [hl, FilledSlot.slot], ?_, ?_⟩
            · rw [List.flatMap_cons, hvs]
              simp [FilledSlot.operand, hkeep]
            · intro e he hne
              rcases List.mem_cons.mp he with rfl | he
              · exact hv
              · exact hholds e he hne

/-- Locals with their values. -/
lemma exists_locals {slots : List (SlotType × Keep)} {L : Array Value} {index : Nat}
    (h : ∀ (l : Nat) (x : SlotType × Keep), slots[l]? = some x →
      ∃ v, L[index + l]? = some v ∧ x.1.Allows inst v) :
    ∃ l : List FilledSlot, l.map FilledSlot.slot = slots
      ∧ (∀ (i : Nat) (e : FilledSlot), l[i]? = some e → L[index + i]? = some e.value)
      ∧ ∀ e ∈ l, e.Holds inst := by
  induction slots generalizing index with
  | nil => exact ⟨[], rfl, by simp, by simp⟩
  | cons x slots ih =>
      obtain ⟨v, hv, hx⟩ := h 0 x rfl
      have hrest : ∀ (l : Nat) (y : SlotType × Keep), slots[l]? = some y →
          ∃ v, L[index + 1 + l]? = some v ∧ y.1.Allows inst v := by
        intro l y hy
        rw [show index + 1 + l = index + (l + 1) by omega]
        exact h (l + 1) y (by simpa using hy)
      obtain ⟨l, hl, hvalues, hholds⟩ := ih hrest
      refine ⟨⟨x.1, x.2, v⟩ :: l, by simp [hl, FilledSlot.slot], fun i e he => ?_, fun e he => ?_⟩
      · cases i with
        | zero =>
            cases he
            exact hv
        | succ i =>
            rw [show index + (i + 1) = index + 1 + i by omega]
            exact hvalues i e (by simpa using he)
      · rcases List.mem_cons.mp he with rfl | he
        · exact hx
        · exact hholds e he

end FilledSlot

/-! ## What generated code does -/

namespace Running

/-- **The steps that depend on nothing but the classes of objects**: those that depend on nothing, and
casts that let a value pass. -/
inductive Proceeds (C : Classes) (S : Surroundings) (p : Plan) (nm : Method) :
    Running → Running → Prop where
  | advances {c c' : Running} (h : Advances S p nm c c') : Proceeds C S p nm c c'
  | cast {a b : Activation} {s : FrameStack Value} {v : Value} {cls : Text}
      (h : a.step (.ofMethod nm) = .asks (.cast v cls) b) (hv : C.inst v cls) :
      Proceeds C S p nm ⟨a, s⟩ ⟨b.answered none, s⟩

/-- **A step of generated code**, with the operation on the frame stack that it asks for, if any: an
instruction that asks for nothing, a call that the runtime answers, and a cast that lets a value pass. -/
inductive Acts (inst : Value → Text → Prop) (S : Surroundings) (nm : Method) :
    Running → List (FrameStack.Op Value) → Running → Prop where
  | next {a a' : Activation} {s : FrameStack Value} (h : a.step (.ofMethod nm) = .next a') :
      Acts inst S nm ⟨a, s⟩ [] ⟨a', s⟩
  | served {a a' : Activation} {s s' : FrameStack Value} {r : Request} {v : Option Value}
      (h : a.step (.ofMethod nm) = .asks r a') (hserve : S.serve s r = some (some (v, s'))) :
      Acts inst S nm ⟨a, s⟩ r.stackOp?.toList ⟨a'.answered v, s'⟩
  | cast {a b : Activation} {s : FrameStack Value} {v : Value} {cls : Text}
      (h : a.step (.ofMethod nm) = .asks (.cast v cls) b) (hv : inst v cls) :
      Acts inst S nm ⟨a, s⟩ [] ⟨b.answered none, s⟩

/-- **A run of the code between two positions**, with the operations on the frame stack that it asks for,
one after the other. -/
inductive Works (inst : Value → Text → Prop) (S : Surroundings) (nm : Method) (low high : Nat) :
    Running → List (FrameStack.Op Value) → Running → Prop where
  | done {c : Running} : Works inst S nm low high c [] c
  | step {c c' c'' : Running} {ops ops' : List (FrameStack.Op Value)}
      (hin : low ≤ c.act.pc ∧ c.act.pc < high) (h : Acts inst S nm c ops c')
      (hrest : Works inst S nm low high c' ops' c'') : Works inst S nm low high c (ops ++ ops') c''

/-- What generated code works on. -/
structure Scene where
  locals : Array Value
  operands : List Value
  stack : FrameStack Value

/-- The scene at a position. -/
def Scene.at (x : Scene) (q : Nat) : Running := ⟨⟨q, x.locals, x.operands⟩, x.stack⟩

/-- **What generated code does**, wherever it stands. -/
def Does (inst : Value → Text → Prop) (S : Surroundings) (nm : Method) (l : List Instruction)
    (ops : List (FrameStack.Op Value)) (x y : Scene) : Prop :=
  ∀ q, nm.code.Has q l → Works inst S nm q (q + l.length) (x.at q) ops (y.at (q + l.length))

variable {inst : Value → Text → Prop} {C : Classes} {S : Surroundings} {p : Plan} {nm : Method}
  {low high : Nat} {c c' c'' : Running} {ops ops' : List (FrameStack.Op Value)}

lemma Acts.proceeds (h : Acts C.inst S nm c ops c') (hown : p.Own c.act.pc) :
    Proceeds C S p nm c c' := by
  cases h with
  | next h => exact .advances (.next h)
  | served h hserve => exact .advances (.served hown h hserve)
  | cast h hv => exact .cast h hv

/-- **A run among the transformation's own positions** depends on nothing but the classes. -/
lemma Works.proceeds (h : Works C.inst S nm low high c ops c')
    (hown : ∀ q, low ≤ q → q < high → p.Own q) :
    Relation.ReflTransGen (Proceeds C S p nm) c c' := by
  induction h with
  | done => exact .refl
  | step hin h _ ih => exact .head (h.proceeds (hown _ hin.1 hin.2)) ih

lemma Works.trans (h : Works inst S nm low high c ops c') (h' : Works inst S nm low high c' ops' c'') :
    Works inst S nm low high c (ops ++ ops') c'' := by
  induction h with
  | done => exact h'
  | step hin h _ ih =>
      rw [List.append_assoc]
      exact .step hin h (ih h')

lemma Works.widen {low' high' : Nat} (h : Works inst S nm low high c ops c') (hlow : low' ≤ low)
    (hhigh : high ≤ high') : Works inst S nm low' high' c ops c' := by
  induction h with
  | done => exact .done
  | step hin h _ ih => exact .step ⟨by omega, by omega⟩ h ih

variable {l l' : List Instruction} {x y z : Scene}

lemma Does.nil : Does inst S nm [] [] x x := fun _ _ => .done

lemma Does.append (h : Does inst S nm l ops x y) (h' : Does inst S nm l' ops' y z) :
    Does inst S nm (l ++ l') (ops ++ ops') x z := by
  intro q hcode
  rw [Code.has_append] at hcode
  have hsecond := h' (q + l.length) hcode.2
  rw [List.length_append, ← Nat.add_assoc]
  exact ((h q hcode.1).widen (Nat.le_refl q) (by omega)).trans (hsecond.widen (by omega) (Nat.le_refl _))

lemma Does.single {instr : Instruction} (h : ∀ q, nm.code[q]? = some instr →
    Acts inst S nm (x.at q) ops (y.at (q + 1))) : Does inst S nm [instr] ops x y := by
  intro q hcode
  rw [Code.has_cons] at hcode
  have hstep : Works inst S nm q (q + 1) (x.at q) (ops ++ []) (y.at (q + 1)) :=
    .step ⟨Nat.le_refl q, Nat.lt_succ_self q⟩ (h q hcode.1) .done
  rw [List.append_nil] at hstep
  exact hstep

variable {L L' : Array Value} {vs vs' : List Value} {s s' : FrameStack Value}

/-- An instruction that asks for nothing, in front of others. -/
lemma Does.after {instr : Instruction} (h : ∀ q, nm.code[q]? = some instr →
    Activation.step (.ofMethod nm) ⟨q, L, vs⟩ = .next ⟨q + 1, L', vs'⟩)
    (h' : Does inst S nm l ops ⟨L', vs', s⟩ z) : Does inst S nm (instr :: l) ops ⟨L, vs, s⟩ z :=
  have hfirst : Does inst S nm [instr] [] ⟨L, vs, s⟩ ⟨L', vs', s⟩ :=
    Does.single fun q hat => .next (h q hat)
  Does.append hfirst h'

/-- A call that the runtime answers. -/
lemma Does.call {mode : InvokeMode} {m : Member} (d : Descriptor.Method) (args : List Value)
    (v : Option Value) {op : FrameStack.Op Value} (hd : Descriptor.parseMethod m.desc = .ok d)
    (hlen : args.length = d.params.length + (if mode == .static then 0 else 1))
    (hserve : S.serve s (.invoke mode m args.reverse d.isVoid) = some (some (v, s')))
    (hop : (Request.invoke mode m args.reverse d.isVoid).stackOp? = some op) :
    Does inst S nm [⟨.invoke mode, .member m⟩] [op] ⟨L, args ++ vs, s⟩ ⟨L, v.toList ++ vs, s'⟩ :=
  Does.single fun q hat => by
    have hstep : Acts inst S nm ⟨⟨q, L, args ++ vs⟩, s⟩ _ _ :=
      .served (step_call d args hat hd hlen) hserve
    rw [hop] at hstep
    exact hstep

/-- The frame stack of a method that is being executed: there is a current record. -/
def Entered (s : FrameStack Value) : Prop := s.current? = some s.topRecord

lemma entered_iff : Entered s ↔ 0 < s.depth ∧ s.depth ≤ s.room := by
  unfold Entered FrameStack.current? FrameStack.topRecord FrameStack.record? FrameStack.recordAt
  cases s.depth with
  | zero => exact ⟨(fun h => by cases h), fun h => absurd h.1 (Nat.lt_irrefl 0)⟩
  | succ n =>
      dsimp only
      by_cases hn : n < s.room
      · rw [if_pos hn]
        exact ⟨fun _ => ⟨Nat.succ_pos n, hn⟩, fun _ => rfl⟩
      · rw [if_neg hn]
        exact ⟨(fun h => by cases h), fun h => absurd h.2 hn⟩

lemma Entered.putIn {e : FilledSlot} (h : Entered s) : Entered (e.putIn s) := by
  rw [entered_iff] at h ⊢
  simpa using h

/-! ### One value -/

lemma saveOp_isSome {k : Kind} {v : Value} (hv : v.kind = k) (slot : Int) :
    ∃ op, Native.saveOp k slot v = some op := by
  cases v <;> cases hv <;> exact ⟨_, rfl⟩

variable {stackVar : UInt32}

/-- **From the operand stack into the record.** -/
lemma does_put {k : Kind} {i : Nat} {v : Value} {op : FrameStack.Op Value}
    (hL : L[stackVar.toNat]? = some (.object S.handle)) (hs : Entered s)
    (hi : i < s.topRecord.room k) (hsmall : i < 2147483648) (hop : Native.saveOp k i v = some op) :
    Does inst S nm (Emit.put stackVar k i) [op] ⟨L, v :: vs, s⟩
      ⟨L, vs, s.setCurrent (s.topRecord.store k i v)⟩ := by
  have hslot : (Int32.ofNat i).toInt = i := toInt_ofNat hsmall
  have hop' : Native.saveOp k (Int32.ofNat i).toInt v = some op := by rw [hslot, hop]
  have hdone : s.apply op = (.done, s.setCurrent (s.topRecord.store k i v)) := by
    have hs : s.current? = some s.topRecord := hs
    rw [FrameStack.apply_saveOp hop, hs, Option.bind_some, FrameStack.slot?_eq_some.mpr ⟨rfl, hi⟩]
    rfl
  refine Does.after (fun _ hat => step_load hat hL) (Does.after (fun _ hat => step_int hat) ?_)
  exact Does.call _ [.int (Int32.ofNat i), .object S.handle, v] none (parse_putMember k) rfl
    (serve_put hop' hdone) ((stackOp?_eq (lookup_putMember k) rfl).trans hop')

/-- **From the record onto the operand stack.** -/
lemma does_get {v : SlotType} {k : Kind} {i : Nat} {w : Value}
    (hL : L[stackVar.toNat]? = some (.object S.handle)) (hs : Entered s)
    (hsmall : i < 2147483648) (hw : s.topRecord.fetch k i = some w)
    (hcast : k = .ref → w = .null ∨ inst w v.typeName) :
    Does inst S nm (Emit.get stackVar v k i) [Native.restoreOp k i] ⟨L, vs, s⟩ ⟨L, w :: vs, s⟩ := by
  obtain ⟨hans, hv⟩ := FrameStack.apply_restoreOp hs hw
  have hslot : (Int32.ofNat i).toInt = i := toInt_ofNat hsmall
  have hserve : S.serve s (.invoke .virtual (getMember k) [.object S.handle, .int (Int32.ofNat i)] false)
      = some (some (some w, s)) := by
    rw [← hslot] at hans hv
    exact serve_get hans hv
  rw [← isVoid_accessor k] at hserve
  have hfetch : Does inst S nm [.slot (.load .ref) stackVar, .int (Int32.ofNat i),
      ⟨.invoke .virtual, .member (getMember k)⟩] [Native.restoreOp k i] ⟨L, vs, s⟩ ⟨L, w :: vs, s⟩ := by
    refine Does.after (fun _ hat => step_load hat hL) (Does.after (fun _ hat => step_int hat) ?_)
    refine Does.call _ [.int (Int32.ofNat i), .object S.handle] (some w) (parse_getMember k) rfl hserve ?_
    rw [← hslot]
    exact stackOp?_eq (lookup_getMember k) rfl
  suffices hpass : Does inst S nm (if k == .ref && v.typeName != ClassName.object then
      [Instruction.type .checkCast v.typeName] else []) [] ⟨L, w :: vs, s⟩ ⟨L, w :: vs, s⟩ from
    Does.append hfetch hpass
  split
  · next hk =>
      simp only [Bool.and_eq_true, beq_iff_eq] at hk
      refine Does.single fun q hat => ?_
      have hstep : Activation.step (.ofMethod nm) ⟨q, L, w :: vs⟩ = _ := step_eq hat
      rcases hcast hk.1 with rfl | hinst
      · exact .next (hstep.trans rfl)
      · by_cases hnull : w.isNull = true
        · refine .next (hstep.trans ?_)
          simp only [Activation.execute, Instruction.type, Activation.typed, hnull, if_true]
          rfl
        · refine Acts.cast (b := ⟨q, L, w :: vs⟩) (hstep.trans ?_) hinst
          simp only [Activation.execute, Instruction.type, Activation.typed, hnull]
          rfl
  · exact Does.nil

/-! ### Saving -/

variable {e : FilledSlot} {slots : List FilledSlot} {index : Nat}

/-- The value of a slot is put into its place. -/
lemma does_write (hL : L[stackVar.toNat]? = some (.object S.handle)) (hs : Entered s)
    (he : e.FitsIn s) {k : Kind} {i : Nat} (hp : e.place? = some (k, i)) :
    Does inst S nm (Emit.put stackVar k i) e.write ⟨L, e.value :: vs, s⟩ ⟨L, vs, e.putIn s⟩ := by
  obtain ⟨op, hop⟩ := saveOp_isSome (he.kind k i hp).2 i
  unfold FilledSlot.write FilledSlot.putIn
  simp only [hp, hop]
  exact does_put hL hs (he.room k i hp).1 (he.room k i hp).2 hop

lemma does_saveSlot (hL : L[stackVar.toNat]? = some (.object S.handle)) (hs : Entered s)
    (he : e.FitsIn s) : Does inst S nm (Emit.saveSlot stackVar e.type e.keep) e.write
      ⟨L, e.operand ++ vs, s⟩ ⟨L, vs, e.putIn s⟩ := by
  have hput : ∀ k i, e.place? = some (k, i) →
      Does inst S nm (Emit.put stackVar k i) e.write ⟨L, e.value :: vs, s⟩ ⟨L, vs, e.putIn s⟩ :=
    fun k i hp => does_write hL hs he hp
  obtain ⟨t, keep, v⟩ := e
  cases keep with
  | nothing => exact Does.after (fun _ hat => step_pop hat) Does.nil
  | deferred => exact Does.nil
  | object i => exact hput .ref i rfl
  | prim i =>
      unfold Emit.saveSlot
      cases hk : t.kind? with
      | none => exact absurd hk (he.prim i rfl)
      | some k =>
          have hp : Emit.place? t (.prim i) = some (k, i) := by simp [Emit.place?, hk]
          simp only [hp]
          exact hput k i hp

/-- **Saving the operand stack**, from the top down. -/
lemma does_saveSlots (hL : L[stackVar.toNat]? = some (.object S.handle)) (hs : Entered s)
    (hfits : ∀ e ∈ slots, e.FitsIn s) : Does inst S nm
      ((slots.map FilledSlot.slot).flatMap fun x => Emit.saveSlot stackVar x.1 x.2)
      (slots.flatMap FilledSlot.write)
      ⟨L, slots.flatMap FilledSlot.operand ++ vs, s⟩ ⟨L, vs, FilledSlot.putAll s slots⟩ := by
  induction slots generalizing s with
  | nil => exact Does.nil
  | cons e slots ih =>
      rw [List.map_cons, List.flatMap_cons, List.flatMap_cons, List.flatMap_cons, List.append_assoc]
      exact Does.append (does_saveSlot hL hs (hfits e List.mem_cons_self))
        (ih hs.putIn fun x hx => (hfits x (List.mem_cons_of_mem e hx)).putIn)

lemma does_saveLocal (hL : L[stackVar.toNat]? = some (.object S.handle)) (hs : Entered s)
    (he : e.FitsIn s) (hindex : index < 4294967296) (hv : L[index]? = some e.value) :
    Does inst S nm (Emit.saveLocal stackVar index e.type e.keep) e.write
      ⟨L, vs, s⟩ ⟨L, vs, e.putIn s⟩ := by
  cases hp : e.place? with
  | none =>
      have hcode : Emit.saveLocal stackVar index e.type e.keep = [] := by
        unfold FilledSlot.place? at hp
        simp only [Emit.saveLocal, hp]
      have hput : e.putIn s = s := by simp only [FilledSlot.putIn, hp]
      have hwrite : e.write = [] := by simp only [FilledSlot.write, hp]
      rw [hcode, hput, hwrite]
      exact Does.nil
  | some place =>
      obtain ⟨k, i⟩ := place
      have hload : Emit.loadOf e.type (UInt32.ofNat index) = .slot (.load k) (UInt32.ofNat index) := by
        simp [Emit.loadOf, (he.kind k i hp).1]
      have hto : (UInt32.ofNat index).toNat = index := UInt32.toNat_ofNat_of_lt' hindex
      have hcode : Emit.saveLocal stackVar index e.type e.keep
          = .slot (.load k) (UInt32.ofNat index) :: Emit.put stackVar k i := by
        unfold FilledSlot.place? at hp
        simp only [Emit.saveLocal, hp, hload]
      rw [hcode]
      exact Does.after (fun _ hat => step_load hat (by rw [hto, hv])) (does_write hL hs he hp)

/-- **Saving the locals.** -/
lemma does_saveLocals (hL : L[stackVar.toNat]? = some (.object S.handle)) (hs : Entered s)
    (hfits : ∀ e ∈ slots, e.FitsIn s) (hindex : index + slots.length ≤ 4294967296)
    (hvalues : ∀ i e, slots[i]? = some e → L[index + i]? = some e.value) :
    Does inst S nm (Emit.locals (Emit.saveLocal stackVar) index (slots.map FilledSlot.slot))
      (slots.flatMap FilledSlot.write) ⟨L, vs, s⟩ ⟨L, vs, FilledSlot.putAll s slots⟩ := by
  induction slots generalizing s index with
  | nil => exact Does.nil
  | cons e slots ih =>
      rw [List.length_cons] at hindex
      have hv : L[index]? = some e.value := hvalues 0 e rfl
      refine Does.append (does_saveLocal hL hs (hfits e List.mem_cons_self) (by omega) hv) ?_
      refine ih hs.putIn (fun x hx => (hfits x (List.mem_cons_of_mem e hx)).putIn) (by omega) ?_
      intro i x hx
      rw [show index + 1 + i = index + (i + 1) by omega]
      exact hvalues (i + 1) x (by simpa using hx)

/-! ### Restoring -/

/-- **A slot that can be restored**: its value is what it says, and the record keeps it.  A construction
that is redone later has no value yet. -/
structure Restorable (inst : Value → Text → Prop) (s : FrameStack Value) (e : FilledSlot) : Prop where
  holds : e.keep ≠ .deferred → e.Holds inst
  kept : e.KeptIn s.topRecord
  small : ∀ k i, e.place? = some (k, i) → i < 2147483648
  kind : ∀ k i, e.place? = some (k, i) → e.type.kind? = some k

lemma Restorable.admits (he : Restorable inst s e) {k : Kind} {i : Nat} (hp : e.place? = some (k, i)) :
    e.type.Admits inst e.value := by
  refine he.holds (fun hkeep => ?_) fun htype => ?_
  · simp [FilledSlot.place?, Emit.place?, hkeep] at hp
  · have := he.kind k i hp
    rw [htype] at this
    cases this

/-- Its value is fetched and passes the cast. -/
lemma does_fetch (hL : L[stackVar.toNat]? = some (.object S.handle)) (hs : Entered s)
    (he : Restorable inst s e) (hnull : e.type.isNull = false) {k : Kind} {i : Nat}
    (hp : e.place? = some (k, i)) : Does inst S nm (Emit.get stackVar e.type k i) e.read
      ⟨L, vs, s⟩ ⟨L, e.value :: vs, s⟩ := by
  have hread : e.read = [Native.restoreOp k i] := by simp [FilledSlot.read, hnull, hp]
  rw [hread]
  refine does_get hL hs (he.small k i hp) (he.kept k i hp) fun hk => (he.admits hp).castable ?_
  rw [← hk]
  exact he.kind k i hp

lemma Restorable.eq_null (he : Restorable inst s e) (hkeep : e.keep ≠ .deferred)
    (hnull : e.type.isNull = true) : e.value = .null := by
  refine (he.holds hkeep fun htype => ?_).eq_null hnull
  rw [htype] at hnull
  cases hnull

lemma does_null : Does inst S nm [.plain .pushNull] [] ⟨L, vs, s⟩ ⟨L, .null :: vs, s⟩ :=
  Does.after (fun _ hat => (step_eq hat).trans rfl) Does.nil

/-- Slots that are not kept are null or hold nothing. -/
lemma does_restoreSlot (hL : L[stackVar.toNat]? = some (.object S.handle)) (hs : Entered s)
    (he : Restorable inst s e) (hskip : e.keep = .nothing → e.type.isSkipped = true)
    (hprim : ∀ i, e.keep = .prim i → e.type.kind? ≠ none) :
    Does inst S nm (Emit.restoreSlot stackVar e.type e.keep) e.read
      ⟨L, vs, s⟩ ⟨L, e.pushed ++ vs, s⟩ := by
  have hnone : e.place? = none → e.read = [] := fun hp => by simp [FilledSlot.read, hp]
  by_cases hdeferred : e.keep = .deferred
  · have hcode : Emit.restoreSlot stackVar e.type e.keep = [] := by rw [hdeferred]; rfl
    have hpush : e.pushed = [] := if_pos (Or.inl hdeferred)
    have hread : e.read = [] := hnone (by simp [FilledSlot.place?, Emit.place?, hdeferred])
    rw [hcode, hpush, hread]
    exact Does.nil
  by_cases hnull : e.type.isNull = true
  · have hcode : Emit.restoreSlot stackVar e.type e.keep = [.plain .pushNull] := by
      cases hk : e.keep <;> simp_all [Emit.restoreSlot]
    have hne : e.type ≠ .unusable := by
      intro h
      rw [h] at hnull
      cases hnull
    have hpush : e.pushed = [e.value] := if_neg (by simp [hdeferred, hne])
    have hread : e.read = [] := if_pos hnull
    rw [hcode, hpush, hread, he.eq_null hdeferred hnull]
    exact does_null
  cases hp : e.place? with
  | none =>
      have hun : e.type = .unusable := by
        cases hk : e.keep with
        | nothing => simpa [SlotType.isSkipped, hnull] using hskip hk
        | deferred => exact absurd hk hdeferred
        | object i => simp [FilledSlot.place?, Emit.place?, hk] at hp
        | prim i =>
            have := hprim i hk
            simp [FilledSlot.place?, Emit.place?, hk] at hp
            exact absurd hp this
      have hcode : Emit.restoreSlot stackVar e.type e.keep = [] := by
        unfold FilledSlot.place? at hp
        cases hk : e.keep <;> simp_all [Emit.restoreSlot]
      have hpush : e.pushed = [] := if_pos (Or.inr hun)
      rw [hcode, hpush, hnone hp]
      exact Does.nil
  | some place =>
      obtain ⟨k, i⟩ := place
      have hcode : Emit.restoreSlot stackVar e.type e.keep = Emit.get stackVar e.type k i := by
        unfold FilledSlot.place? at hp
        cases hk : e.keep <;> simp_all [Emit.restoreSlot]
      have hpush : e.pushed = [e.value] := if_neg (by simp [hdeferred, (he.admits hp).usable])
      rw [hcode, hpush]
      exact does_fetch hL hs he (by simpa using hnull) hp

/-- **Restoring the operand stack**, from the bottom up. -/
lemma does_restoreSlots (hL : L[stackVar.toNat]? = some (.object S.handle)) (hs : Entered s)
    (he : ∀ e ∈ slots, Restorable inst s e)
    (hskip : ∀ e ∈ slots, e.keep = .nothing → e.type.isSkipped = true)
    (hprim : ∀ e ∈ slots, ∀ i, e.keep = .prim i → e.type.kind? ≠ none) :
    Does inst S nm ((slots.map FilledSlot.slot).flatMap fun x => Emit.restoreSlot stackVar x.1 x.2)
      (slots.flatMap FilledSlot.read)
      ⟨L, vs, s⟩ ⟨L, slots.reverse.flatMap FilledSlot.pushed ++ vs, s⟩ := by
  induction slots generalizing vs with
  | nil => exact Does.nil
  | cons e slots ih =>
      have hmem : ∀ x ∈ slots, x ∈ e :: slots := fun x => List.mem_cons_of_mem e
      rw [List.map_cons, List.flatMap_cons, List.flatMap_cons, List.reverse_cons, List.flatMap_append,
        List.flatMap_singleton, List.append_assoc]
      exact Does.append (does_restoreSlot hL hs (he e List.mem_cons_self) (hskip e List.mem_cons_self)
          (hprim e List.mem_cons_self))
        (ih (fun x hx => he x (hmem x hx)) (fun x hx => hskip x (hmem x hx))
          fun x hx => hprim x (hmem x hx))

lemma does_restoreLocal (hL : L[stackVar.toNat]? = some (.object S.handle)) (hs : Entered s)
    (he : Restorable inst s e) (hkeep : e.keep ≠ .deferred) (hindex : index < L.size)
    (hsmall : index < 4294967296) :
    Does inst S nm (Emit.restoreLocal stackVar index e.type e.keep) e.read
      ⟨L, vs, s⟩ ⟨e.setIn L index, vs, s⟩ := by
  have hto : (UInt32.ofNat index).toNat = index := UInt32.toNat_ofNat_of_lt' hsmall
  have hstore : ∀ k v, Does inst S nm
      [.slot (.store k) (UInt32.ofNat index)] [] ⟨L, v :: vs, s⟩ ⟨L.set! index v, vs, s⟩ := by
    intro k v
    refine Does.after (fun q hat => ?_) Does.nil
    have hset : Activation.step (.ofMethod nm) ⟨q, L, v :: vs⟩ = _ :=
      step_store hat (by rw [hto]; exact hindex)
    rw [hto] at hset
    exact hset
  unfold Emit.restoreLocal FilledSlot.setIn FilledSlot.isSet
  by_cases hnull : e.type.isNull = true
  · have hread : e.read = [] := if_pos hnull
    simp only [hnull, if_true, Bool.true_or]
    rw [hread, he.eq_null hkeep hnull]
    exact Does.append does_null (hstore .ref .null)
  simp only [hnull, Bool.false_or]
  cases hp : e.place? with
  | none =>
      have hread : e.read = [] := by simp [FilledSlot.read, hp]
      unfold FilledSlot.place? at hp
      simp only [hp, hread]
      exact Does.nil
  | some place =>
      obtain ⟨k, i⟩ := place
      have hfetch : Does inst S nm _ _ ⟨L, vs, s⟩ _ := does_fetch hL hs he (by simpa using hnull) hp
      have hcode : Emit.storeOf e.type (UInt32.ofNat index) = .slot (.store k) (UInt32.ofNat index) := by
        simp [Emit.storeOf, he.kind k i hp]
      unfold FilledSlot.place? at hp
      simp only [hp, hcode]
      have hboth := Does.append hfetch (hstore k e.value)
      rw [List.append_nil] at hboth
      exact hboth

/-- **Restoring the locals.** -/
lemma does_restoreLocals (hL : L[stackVar.toNat]? = some (.object S.handle)) (hs : Entered s)
    (he : ∀ e ∈ slots, Restorable inst s e) (hkeep : ∀ e ∈ slots, e.keep ≠ .deferred)
    (hindex : ∀ i, i < slots.length → index + i < stackVar.toNat) :
    Does inst S nm (Emit.locals (Emit.restoreLocal stackVar) index (slots.map FilledSlot.slot))
      (slots.flatMap FilledSlot.read) ⟨L, vs, s⟩ ⟨FilledSlot.setAll L index slots, vs, s⟩ := by
  induction slots generalizing L index with
  | nil => exact Does.nil
  | cons e slots ih =>
      have hfirst := hindex 0 (by simp)
      have hsize := (Array.getElem?_eq_some_iff.mp hL).1
      have hlt := stackVar.toNat_lt
      refine Does.append (does_restoreLocal hL hs (he e List.mem_cons_self)
        (hkeep e List.mem_cons_self) (by omega) (by omega)) ?_
      refine ih ?_ (fun x hx => he x (List.mem_cons_of_mem e hx))
        (fun x hx => hkeep x (List.mem_cons_of_mem e hx)) fun i hi => ?_
      · rw [FilledSlot.getElem?_setIn_of_ne (by omega)]
        exact hL
      · have := hindex (i + 1) (by simpa using hi)
        omega

end Running

/-! ## Points -/

namespace SuspensionPoint

/-- **The slots of a point with their values**, those of the stack from the top down, and the locals. -/
structure Filled (inst : Value → Text → Prop) (pt : SuspensionPoint) (stack locals : List FilledSlot) :
    Prop where
  stack_eq : stack.map FilledSlot.slot = pt.plan.stack.reverse
  locals_eq : locals.map FilledSlot.slot = pt.plan.locals
  holds : ∀ e ∈ stack ++ locals, e.keep ≠ .deferred → e.Holds inst

/-- **A record that keeps them**, under the entry of the point. -/
structure SavedIn (pt : SuspensionPoint) (r : FrameRecord Value) (stack locals : List FilledSlot) :
    Prop where
  entry : r.entry = pt.entry
  kept : ∀ e ∈ stack ++ locals, e.KeptIn r

/-- The record of a point before anything is saved in it. -/
def record (pt : SuspensionPoint) : FrameRecord Value :=
  ⟨pt.entry, Array.replicate pt.plan.counts.objects default, Array.replicate pt.plan.counts.prims 0⟩

variable {inst : Value → Text → Prop} {sub : Subject} {pt : SuspensionPoint}
  {stack locals : List FilledSlot}

namespace Filled

lemma slot_mem (h : pt.Filled inst stack locals) {e : FilledSlot} (he : e ∈ stack ++ locals) :
    e.slot ∈ pt.plan.stack ++ pt.plan.locals := by
  rw [← h.locals_eq, List.mem_append]
  rcases List.mem_append.mp he with he | he
  · refine Or.inl (List.mem_reverse.mp ?_)
    rw [← h.stack_eq]
    exact List.mem_map_of_mem he
  · exact Or.inr (List.mem_map_of_mem he)

lemma local_slot (h : pt.Filled inst stack locals) {l : Nat} {e : FilledSlot}
    (he : locals[l]? = some e) : pt.plan.locals[l]? = some (e.type, e.keep) := by
  rw [← h.locals_eq, List.getElem?_map, he]
  rfl

/-- There is one for every local of the frame. -/
lemma exists_local (h : pt.Filled inst stack locals) (hf : pt.LaidOut sub) {l : Nat} {t : SlotType}
    (ht : pt.frame.locals[l]? = some t) : ∃ e, locals[l]? = some e ∧ e.type = t := by
  have hmap : locals.map FilledSlot.type = pt.frame.locals.toList := by
    rw [← hf.locals_eq, ← h.locals_eq, List.map_map]
    rfl
  have hslot : (locals.map FilledSlot.type)[l]? = some t := by
    rw [hmap]
    simpa using ht
  rw [List.getElem?_map] at hslot
  exact Option.map_eq_some_iff.mp hslot

/-- Their places are in the range that the point asks for. -/
lemma place?_range (h : pt.Filled inst stack locals) (hf : pt.LaidOut sub) {e : FilledSlot}
    (he : e ∈ stack ++ locals) {k : Kind} {i : Nat} (hp : e.place? = some (k, i)) :
    e.type.kind? = some k ∧ (k = .ref → i < pt.plan.counts.objects)
      ∧ (k ≠ .ref → i < pt.plan.counts.prims) := by
  obtain ⟨hkind, hobjects, hprims⟩ := hf.placing.place?_range (h.slot_mem he) hp
  exact ⟨hkind, fun hk => (hobjects hk).2, fun hk => (hprims hk).2⟩

lemma prim_kind (h : pt.Filled inst stack locals) (hf : pt.LaidOut sub) {e : FilledSlot}
    (he : e ∈ stack ++ locals) (i : Nat) (hk : e.keep = .prim i) : e.type.kind? ≠ none := by
  have hmem : (e.type, e.keep) ∈ pt.plan.stack ++ pt.plan.locals := h.slot_mem he
  rw [hk] at hmem
  obtain ⟨k, hkind, -⟩ := hf.placing.kind_of_prim hmem
  simp [hkind]

/-- A slot with a place holds a value of its kind. -/
lemma kind (h : pt.Filled inst stack locals) (hf : pt.LaidOut sub) {e : FilledSlot}
    (he : e ∈ stack ++ locals) {k : Kind} {i : Nat} (hp : e.place? = some (k, i)) :
    e.type.kind? = some k ∧ e.value.kind = k := by
  have hkind := (h.place?_range hf he hp).1
  refine ⟨hkind, (h.holds e he (fun hkeep => ?_) fun htype => ?_).kind hkind⟩
  · simp [FilledSlot.place?, Emit.place?, hkeep] at hp
  · rw [htype] at hkind
    cases hkind

/-- There is room for all of them in the record of the point. -/
lemma fitsIn (h : pt.Filled inst stack locals) (hf : pt.LaidOut sub)
    (hslots : pt.plan.counts.objects < 2147483648 ∧ pt.plan.counts.prims < 2147483648)
    {s : FrameStack Value} (hs : s.topRecord = pt.record) : ∀ e ∈ stack ++ locals, e.FitsIn s := by
  intro e he
  refine ⟨fun k i hp => ?_, fun k i hp => h.kind hf he hp, h.prim_kind hf he⟩
  obtain ⟨-, hobjects, hprims⟩ := h.place?_range hf he hp
  rw [hs]
  by_cases hk : k = .ref
  · have := hobjects hk
    subst hk
    exact ⟨by simpa [FrameRecord.room, record] using this, by omega⟩
  · have := hprims hk
    refine ⟨?_, by omega⟩
    cases k <;> simp_all [FrameRecord.room, record]

/-- No two of them have the same place. -/
lemma apart (h : pt.Filled inst stack locals) (hf : pt.LaidOut sub) :
    (stack ++ locals).Pairwise FilledSlot.Apart := by
  have hmap : (stack.reverse ++ locals).map FilledSlot.slot = pt.plan.stack ++ pt.plan.locals := by
    rw [List.map_append, List.map_reverse, h.stack_eq, h.locals_eq, List.reverse_reverse]
  have hpair : (stack.reverse ++ locals).Pairwise FilledSlot.Apart := by
    have := hf.placing.apart
    rw [← hmap, List.pairwise_map] at this
    exact this
  exact ((List.reverse_perm stack).append_right locals).pairwise hpair fun h => h.symm

/-- They can be restored from a record that keeps them. -/
lemma restorable (h : pt.Filled inst stack locals) (hf : pt.LaidOut sub)
    (hslots : pt.plan.counts.objects < 2147483648 ∧ pt.plan.counts.prims < 2147483648)
    {s : FrameStack Value} (hs : pt.SavedIn s.topRecord stack locals) :
    ∀ e ∈ stack ++ locals, Running.Restorable inst s e := by
  intro e he
  refine ⟨h.holds e he, hs.kept e he, fun k i hp => ?_, fun k i hp => (h.place?_range hf he hp).1⟩
  obtain ⟨-, hobjects, hprims⟩ := h.place?_range hf he hp
  by_cases hk : k = .ref
  · have := hobjects hk
    omega
  · have := hprims hk
    omega

/-- A local that is not unusable and not supplied by the caller is set again. -/
lemma isSet (h : pt.Filled inst stack locals) (hf : pt.LaidOut sub) {l : Nat} {e : FilledSlot}
    (he : locals[l]? = some e) (husable : e.type ≠ .unusable) (hl : sub.firstLocal ≤ l) :
    e.isSet = true := by
  obtain ⟨hdeferred, -, hskip⟩ := hf.local_keep (h.local_slot he)
  unfold FilledSlot.isSet FilledSlot.place?
  cases hkeep : e.keep with
  | nothing =>
      have := hskip hl hkeep
      simp_all [SlotType.isSkipped]
  | deferred => exact absurd hkeep hdeferred
  | object j => simp [Emit.place?]
  | prim j =>
      have := h.prim_kind hf (List.mem_append_right stack (List.mem_of_getElem? he)) j hkeep
      simp only [Emit.place?, Option.isSome_map]
      cases hk : e.type.kind? with
      | none => exact absurd hk this
      | some k => simp

/-- **The locals of a frame that has been restored.** -/
lemma getElem?_restored (h : pt.Filled inst stack locals) (hf : pt.LaidOut sub) {L : Array Value}
    (hsize : locals.length ≤ L.size) {l : Nat} {e : FilledSlot} (he : locals[l]? = some e)
    (husable : e.type ≠ .unusable) (hl : sub.firstLocal ≤ l) :
    (FilledSlot.setAll L sub.firstLocal (locals.drop sub.firstLocal))[l]? = some e.value := by
  have hlt := (List.getElem?_eq_some_iff.mp he).1
  have hindex : sub.firstLocal + (l - sub.firstLocal) = l := by omega
  have hdrop : (locals.drop sub.firstLocal)[l - sub.firstLocal]? = some e := by
    rw [List.getElem?_drop, hindex, he]
  have hget : (FilledSlot.setAll L sub.firstLocal (locals.drop sub.firstLocal))[
      sub.firstLocal + (l - sub.firstLocal)]? = some e.value :=
    FilledSlot.getElem?_setAll hdrop (h.isSet hf he husable hl) (by omega)
  rw [hindex] at hget
  exact hget

/-- A local that is unusable is left alone. -/
lemma getElem?_unusable (h : pt.Filled inst stack locals) (hf : pt.LaidOut sub) {L : Array Value}
    {l : Nat} (ht : pt.frame.locals[l]? = some .unusable) :
    (FilledSlot.setAll L sub.firstLocal (locals.drop sub.firstLocal))[l]? = L[l]? := by
  by_cases hl : l < sub.firstLocal
  · exact FilledSlot.getElem?_setAll_of_outside (Or.inl hl)
  obtain ⟨e, he, htype⟩ := h.exists_local hf ht
  have hset : e.isSet = false := by
    unfold FilledSlot.isSet
    rw [htype, Bool.or_eq_false_iff]
    refine ⟨rfl, ?_⟩
    cases hp : e.place? with
    | none => rfl
    | some place =>
        have hkind := (h.place?_range hf (List.mem_append_right stack (List.mem_of_getElem? he)) hp).1
        rw [htype] at hkind
        cases hkind
  have hdrop : (locals.drop sub.firstLocal)[l - sub.firstLocal]? = some e := by
    rw [List.getElem?_drop, show sub.firstLocal + (l - sub.firstLocal) = l by omega, he]
  have hindex : sub.firstLocal + (l - sub.firstLocal) = l := by omega
  rw [← hindex]
  exact FilledSlot.getElem?_setAll_of_not_isSet hdrop hset

end Filled

/-- **The slots of a point at which there are values** that may be in them. -/
lemma LaidOut.exists_filled (hf : pt.LaidOut sub) {L : Array Value} {vs : List Value}
    (hoperands : List.Forall₂ (SlotType.Allows inst)
      (pt.frame.stack.filter fun t => !sub.isDeferred t) vs)
    (hlocals : ∀ (l : Nat) (t : SlotType), pt.frame.locals[l]? = some t →
      ∃ v, L[l]? = some v ∧ t.Allows inst v) :
    ∃ stack locals, pt.Filled inst stack locals ∧ vs = stack.flatMap FilledSlot.operand
      ∧ ∀ (i : Nat) (e : FilledSlot), locals[i]? = some e → L[i]? = some e.value := by
  rw [← hf.operands_eq] at hoperands
  obtain ⟨stack, hslots, hvs, hholds⟩ := FilledSlot.exists_operands hoperands
  have hat : ∀ (l : Nat) (x : SlotType × Keep), pt.plan.locals[l]? = some x →
      ∃ v, L[0 + l]? = some v ∧ x.1.Allows inst v := by
    intro l x hx
    rw [Nat.zero_add]
    refine hlocals l x.1 ?_
    have hfst : (pt.plan.locals.map Prod.fst)[l]? = some x.1 := by simp [hx]
    rw [hf.locals_eq] at hfst
    simpa using hfst
  obtain ⟨locals, hlocals, hvalues, hholds'⟩ := FilledSlot.exists_locals hat
  refine ⟨stack, locals, ⟨hslots, hlocals, fun e he hne => ?_⟩, hvs.symm, fun i e he => ?_⟩
  · rcases List.mem_append.mp he with he | he
    · exact hholds e he hne
    · exact hholds' e he
  · rw [← Nat.zero_add i]
    exact hvalues i e he

end SuspensionPoint

namespace Running

variable {inst : Value → Text → Prop} {S : Surroundings} {stackVar : UInt32} {nm : Method} {sub : Subject}
  {pt : SuspensionPoint} {stack locals : List FilledSlot} {L : Array Value} {vs : List Value}
  {s : FrameStack Value}

/-- **The frame stack in which the slots of a point have been saved.** -/
def saved (pt : SuspensionPoint) (s : FrameStack Value) (slots : List FilledSlot) : FrameStack Value :=
  FilledSlot.putAll (s.setCurrent pt.record) slots

@[simp] lemma depth_saved (slots : List FilledSlot) : (saved pt s slots).depth = s.depth := by
  simp [saved]

@[simp] lemma room_saved (slots : List FilledSlot) : (saved pt s slots).room = s.room := by
  simp [saved]

/-- The record has the sizes that the point asks for. -/
lemma slots_saved (slots : List FilledSlot) (k : Kind) :
    (saved pt s slots).topRecord.room k = pt.record.room k := by
  simp [saved]

lemma Entered.saved (hs : Entered s) (slots : List FilledSlot) : Entered (saved pt s slots) := by
  rw [entered_iff] at hs ⊢
  simpa using hs

/-- The record then keeps them. -/
lemma savedIn_saved (hf : pt.LaidOut sub) (hfilled : pt.Filled inst stack locals)
    (hslots : pt.plan.counts.objects < 2147483648 ∧ pt.plan.counts.prims < 2147483648) :
    pt.SavedIn (saved pt s (stack ++ locals)).topRecord stack locals where
  entry := by simp [saved, SuspensionPoint.record]
  kept := FilledSlot.keptIn_putAll (hfilled.fitsIn hf hslots (by simp)) (hfilled.apart hf)

/-- The numbers of a record on the operand stack. -/
lemma does_numbers {entry objects prims : Int32} (hL : L[stackVar.toNat]? = some (.object S.handle)) :
    Does inst S nm [.slot (.load .ref) stackVar, .int entry, .int objects, .int prims] []
      ⟨L, vs, s⟩ ⟨L, .int prims :: .int objects :: .int entry :: .object S.handle :: vs, s⟩ := by
  refine Does.after (fun _ hat => step_load hat hL) (Does.after (fun _ hat => step_int hat) ?_)
  exact Does.after (fun _ hat => step_int hat) (Does.after (fun _ hat => step_int hat) Does.nil)

/-- **A record is asked for by its numbers**, which are words of 32 bits. -/
lemma does_pushMethod (entry objects prims : Int32) {s' : FrameStack Value}
    (hL : L[stackVar.toNat]? = some (.object S.handle))
    (hpush : s.push entry.toInt objects.toInt prims.toInt = (true, s')) :
    Does inst S nm [.slot (.load .ref) stackVar, .int entry, .int objects, .int prims, Emit.pushMethod]
      [.push entry.toInt objects.toInt prims.toInt] ⟨L, vs, s⟩ ⟨L, vs, s'⟩ :=
  Does.append (does_numbers hL)
    (Does.call ⟨["I", "I", "I"], "V"⟩ [.int prims, .int objects, .int entry, .object S.handle] none
      rfl rfl (serve_pushMethod hpush) (stackOp?_eq (n := .pushMethod) rfl rfl))

/-- A record that is refused is the end of the run. -/
lemma not_acts_pushMethod {entry objects prims : Int32} {q : Nat} {s' : FrameStack Value}
    {ops : List (FrameStack.Op Value)} {c : Running} (hat : nm.code[q]? = some Emit.pushMethod)
    (hpush : s.push entry.toInt objects.toInt prims.toInt = (false, s')) :
    ¬Acts inst S nm
      ⟨⟨q, L, .int prims :: .int objects :: .int entry :: .object S.handle :: vs⟩, s⟩ ops c := by
  have hstep : Activation.step (.ofMethod nm) _ = .asks _ ⟨q, L, vs⟩ := step_call ⟨["I", "I", "I"], "V"⟩
    [.int prims, .int objects, .int entry, .object S.handle] hat rfl rfl
  have hserve : S.serve s (.invoke .virtual ⟨ClassName.frameStack, "pushMethod", "(III)V"⟩
      [.object S.handle, .int entry, .int objects, .int prims] true) = some none := by
    refine (serve_op (n := .pushMethod) rfl rfl).trans ?_
    simp only [Option.bind_some, FrameStack.apply, hpush]
    rfl
  intro h
  cases h with
  | next h => cases hstep.symm.trans h
  | served h hanswer =>
      cases hstep.symm.trans h
      cases hserve.symm.trans hanswer
  | cast h => cases hstep.symm.trans h

/-- **Saving a frame.** -/
lemma does_save (hf : pt.LaidOut sub) (hfilled : pt.Filled inst stack locals)
    (hslots : pt.plan.counts.objects < 2147483648 ∧ pt.plan.counts.prims < 2147483648)
    (hentry : pt.entry < 2147483648) (hlen : pt.plan.locals.length ≤ 4294967296)
    (hL : L[stackVar.toNat]? = some (.object S.handle)) (hs : Entered s)
    (hvalues : ∀ (i : Nat) (e : FilledSlot), locals[i]? = some e → L[i]? = some e.value) :
    Does inst S nm (Emit.save stackVar pt)
      (.push pt.entry pt.plan.counts.objects pt.plan.counts.prims
        :: (stack ++ locals).flatMap FilledSlot.write)
      ⟨L, stack.flatMap FilledSlot.operand ++ vs, s⟩ ⟨L, vs, saved pt s (stack ++ locals)⟩ := by
  have hnumbers : (Int32.ofNat pt.entry).toInt = pt.entry
      ∧ (Int32.ofNat pt.plan.counts.objects).toInt = pt.plan.counts.objects
      ∧ (Int32.ofNat pt.plan.counts.prims).toInt = pt.plan.counts.prims :=
    ⟨toInt_ofNat hentry, toInt_ofNat hslots.1, toInt_ofNat hslots.2⟩
  have hpush : s.push (Int32.ofNat pt.entry).toInt (Int32.ofNat pt.plan.counts.objects).toInt
      (Int32.ofNat pt.plan.counts.prims).toInt = (true, s.setCurrent pt.record) := by
    rw [hnumbers.1, hnumbers.2.1, hnumbers.2.2]
    exact FrameStack.push_of_fits hs (FrameStack.fits_of_lt (by decide) hslots.1)
      (FrameStack.fits_of_lt (by decide) hslots.2)
  have hrecord : Does inst S nm _ _ ⟨L, stack.flatMap FilledSlot.operand ++ vs, s⟩ _ :=
    does_pushMethod _ _ _ hL hpush
  rw [hnumbers.1, hnumbers.2.1, hnumbers.2.2] at hrecord
  have hs' : Entered (s.setCurrent pt.record) := by
    rw [entered_iff] at hs ⊢
    exact hs
  have hfits := hfilled.fitsIn hf hslots (s.topRecord_setCurrent pt.record)
  unfold Emit.save saved
  rw [← hfilled.stack_eq, ← hfilled.locals_eq, FilledSlot.putAll_append, List.flatMap_append,
    ← List.cons_append]
  refine Does.append (y := ⟨L, vs, FilledSlot.putAll (s.setCurrent pt.record) stack⟩)
    (Does.append hrecord ?_) ?_
  · exact does_saveSlots hL hs' fun e he => hfits e (List.mem_append_left _ he)
  · refine does_saveLocals hL ?_ (fun e he => (hfits e (List.mem_append_right _ he)).putAll) ?_ ?_
    · rw [entered_iff] at hs' ⊢
      simpa using hs'
    · rw [← hfilled.locals_eq, List.length_map] at hlen
      omega
    · intro i e he
      rw [Nat.zero_add]
      exact hvalues i e he

/-- **Restoring a frame.** -/
lemma does_restore (hf : pt.LaidOut sub) (hfilled : pt.Filled inst stack locals)
    (hslots : pt.plan.counts.objects < 2147483648 ∧ pt.plan.counts.prims < 2147483648)
    (hvar : pt.plan.locals.length ≤ stackVar.toNat)
    (hL : L[stackVar.toNat]? = some (.object S.handle)) (hs : Entered s)
    (hsaved : pt.SavedIn s.topRecord stack locals) :
    Does inst S nm (Emit.restore stackVar sub.firstLocal pt)
      ((locals.drop sub.firstLocal ++ stack.reverse).flatMap FilledSlot.read) ⟨L, vs, s⟩
      ⟨FilledSlot.setAll L sub.firstLocal (locals.drop sub.firstLocal),
        stack.flatMap FilledSlot.pushed ++ vs, s⟩ := by
  have hrest := hfilled.restorable hf hslots hsaved
  have hstack : pt.plan.stack = stack.reverse.map FilledSlot.slot := by
    rw [List.map_reverse, hfilled.stack_eq, List.reverse_reverse]
  have hcount : locals.length = pt.plan.locals.length := by
    rw [← hfilled.locals_eq, List.length_map]
  have hindex : ∀ i, i < (locals.drop sub.firstLocal).length →
      sub.firstLocal + i < stackVar.toNat := by
    intro i hi
    rw [List.length_drop] at hi
    omega
  unfold Emit.restore
  rw [hstack, ← hfilled.locals_eq, ← List.map_drop, List.flatMap_append]
  refine Does.append (y := ⟨FilledSlot.setAll L sub.firstLocal (locals.drop sub.firstLocal), vs, s⟩) ?_ ?_
  · refine does_restoreLocals hL hs
      (fun e he => hrest e (List.mem_append_right _ (List.mem_of_mem_drop he))) (fun e he => ?_) hindex
    obtain ⟨i, hi⟩ := List.getElem?_of_mem (List.mem_of_mem_drop he)
    exact (hf.local_keep (hfilled.local_slot hi)).1
  · have hL' : (FilledSlot.setAll L sub.firstLocal (locals.drop sub.firstLocal))[stackVar.toNat]?
        = some (.object S.handle) := by
      refine (FilledSlot.getElem?_setAll_of_outside ?_).trans hL
      rcases Nat.eq_zero_or_pos (locals.drop sub.firstLocal).length with hzero | hpos
      · omega
      · have := hindex _ (Nat.sub_lt hpos Nat.one_pos)
        omega
    have hbelow : Does inst S nm _ _ ⟨_, vs, s⟩ _ := does_restoreSlots hL' hs
      (fun e he => hrest e (List.mem_append_left _ (List.mem_reverse.mp he))) (fun e he hkeep => ?_)
      fun e he => hfilled.prim_kind hf (List.mem_append_left _ (List.mem_reverse.mp he))
    · rw [List.reverse_reverse] at hbelow
      exact hbelow
    · have hmem : (e.type, e.keep) ∈ pt.plan.stack := by
        rw [hstack]
        exact List.mem_map_of_mem he
      rw [hkeep] at hmem
      exact hf.skipped hmem

end Running

end Suspension
