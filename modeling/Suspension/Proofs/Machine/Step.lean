import Mathlib.Tactic.Common
import Suspension.Machine.Activation
import Suspension.StackEffect

/-!
# Steps, the rest of the stack, and handlers

**An instruction does not see what lies below the slots it pops.**  A step on a higher stack is the
step on the slots that matter, with the rest of the stack under its outcome.

* `Step.over` — an outcome with more stack under it.
* `Activation.execute_over` — the frame rule of a step.
* `Activation.execute_alike` — an instruction does the same wherever it stands.
* `Method.rangeFor` — the range that catches an exception.
-/

namespace Suspension

/-- **The outcome of a step on a higher stack.** -/
def Step.over (rest : List Value) : Step → Step
  | .next a => .next { a with stack := a.stack ++ rest }
  | .asks r a => .asks r { a with stack := a.stack ++ rest }
  | .returns v => .returns v
  | .crash => .crash
  | .fellOff => .fellOff

/-- **The instruction that a request comes from**: what the request names is in its operand. -/
def Request.ComesFrom (instr : Instruction) : Request → Prop
  | .getStatic m => instr.operand = .member m
  | .putStatic _ _ => instr.opcode = .putStatic
  | .getField _ _ => ∃ m, instr.operand = .member m
  | .getElement _ _ => ∃ k, instr.opcode = .arrayLoad k
  | .create c => instr.operand = .type c
  | .createArray elem _ => ∃ t, instr.operand = .type t ∧ (elem = t ∨ elem = Descriptor.ofClass t)
  | .cast _ c => instr.operand = .type c
  | .invoke _ m _ isVoid => instr.operand = .member m
      ∧ ∃ d, Descriptor.parseMethod m.desc = .ok d ∧ isVoid = d.isVoid
  | _ => True

namespace Activation

variable {pc : Nat} {locals : Array Value} {vs rest : List Value} {target : Label → Nat}

lemma ask_over (a : Activation) (vs rest : List Value) (r : Request) :
    (a.ask vs r).over rest = a.ask (vs ++ rest) r := rfl

lemma branch_over (a : Activation) (vs rest : List Value) (operand : Operand) (taken : Bool) :
    (a.branch target vs operand taken).over rest = a.branch target (vs ++ rest) operand taken := by
  unfold branch
  split
  · split <;> rfl
  · rfl

lemma arithResult_over (a : Activation) (vs rest : List Value) (r : Except Value.ArithFault Value) :
    (a.arithResult vs r).over rest = a.arithResult (vs ++ rest) r := by
  cases r with
  | ok v => rfl
  | error e => cases e <;> rfl

lemma load_over (operand : Operand) :
    load ⟨pc, locals, vs ++ rest⟩ operand = (load ⟨pc, locals, vs⟩ operand).over rest := by
  unfold load
  split
  · simp only
    split <;> rfl
  · rfl

lemma increment_over (operand : Operand) :
    increment ⟨pc, locals, vs ++ rest⟩ operand = (increment ⟨pc, locals, vs⟩ operand).over rest := by
  unfold increment
  split
  · simp only
    split <;> rfl
  · rfl

lemma constant_over (n : Numeric) (operand : Operand) :
    constant ⟨pc, locals, vs ++ rest⟩ n operand
      = (constant ⟨pc, locals, vs⟩ n operand).over rest := by
  unfold constant
  split <;> rfl

lemma store_over (v : Value) (operand : Operand) :
    store ⟨pc, locals, v :: vs ++ rest⟩ operand
      = (store ⟨pc, locals, v :: vs⟩ operand).over rest := by
  cases operand with
  | slot i =>
      simp only [store, List.cons_append]
      split <;> rfl
  | _ => rfl

lemma invoke_over {mode : InvokeMode} {m : Member} {d : Descriptor.Method}
    (hd : Descriptor.parseMethod m.desc = .ok d)
    (hlen : d.params.length + (if mode == .static then 0 else 1) ≤ vs.length) :
    invoke ⟨pc, locals, vs ++ rest⟩ mode (.member m)
      = (invoke ⟨pc, locals, vs⟩ mode (.member m)).over rest := by
  simp only [invoke, hd]
  generalize d.params.length + (if mode == .static then 0 else 1) = n at hlen ⊢
  have hlong : ¬ (vs ++ rest).length < n := by
    rw [List.length_append]
    omega
  rw [if_neg hlong, if_neg (by omega), ask_over, List.drop_append_of_le_length hlen,
    List.take_append_of_le_length hlen]
  rfl

lemma exists_two {vs : List Value} (h : 2 ≤ vs.length) : ∃ v w rest, vs = v :: w :: rest := by
  match vs, h with
  | v :: w :: rest, _ => exact ⟨v, w, rest, rfl⟩

lemma exists_three {vs : List Value} (h : 3 ≤ vs.length) :
    ∃ v w u rest, vs = v :: w :: u :: rest := by
  match vs, h with
  | v :: w :: u :: rest, _ => exact ⟨v, w, u, rest, rfl⟩

/-- **The frame rule of a step**: below the slots that an instruction pops the stack may be anything. -/
lemma execute_over {instr : Instruction} {pops pushes : Nat}
    (hdelta : instr.delta = .ok (pops, pushes)) (hlen : pops ≤ vs.length) :
    execute target ⟨pc, locals, vs ++ rest⟩ instr
      = (execute target ⟨pc, locals, vs⟩ instr).over rest := by
  obtain ⟨op, operand⟩ := instr
  unfold Instruction.delta at hdelta
  cases op <;> simp only [Opcode.effect?, Opcode.shuffle?, Except.ok.injEq, Prod.mk.injEq,
    List.length_nil, List.length_cons] at hdelta
  case nop | label | pushNull | returnVoid => rfl
  case const => exact constant_over _ _
  case load => exact load_over _
  case increment => exact increment_over _
  case goto => exact (branch_over _ _ _ _ _).symm
  case ldc | new => cases operand <;> rfl
  -- one slot
  case store =>
    obtain ⟨rfl, -⟩ := hdelta
    obtain ⟨v, vs, rfl⟩ := List.exists_cons_of_length_pos hlen
    exact store_over v _
  case pop | dup | returnValue | arrayLength =>
    obtain ⟨rfl, -⟩ := hdelta
    obtain ⟨v, vs, rfl⟩ := List.exists_cons_of_length_pos hlen
    rfl
  case intNeg | longNeg | throw =>
    obtain ⟨rfl, -⟩ := hdelta
    obtain ⟨v, vs, rfl⟩ := List.exists_cons_of_length_pos hlen
    cases v <;> rfl
  case convert | monitorEnter | monitorExit =>
    obtain ⟨rfl, -⟩ := hdelta
    obtain ⟨v, vs, rfl⟩ := List.exists_cons_of_length_pos hlen
    simp only [execute, List.cons_append]
    split <;> rfl
  case ifInt =>
    obtain ⟨rfl, -⟩ := hdelta
    obtain ⟨v, vs, rfl⟩ := List.exists_cons_of_length_pos hlen
    cases v <;> first | exact (branch_over _ _ _ _ _).symm | rfl
  case ifNull | ifNonNull =>
    obtain ⟨rfl, -⟩ := hdelta
    obtain ⟨v, vs, rfl⟩ := List.exists_cons_of_length_pos hlen
    exact (branch_over _ _ _ _ _).symm
  case tableSwitch =>
    obtain ⟨rfl, -⟩ := hdelta
    obtain ⟨v, vs, rfl⟩ := List.exists_cons_of_length_pos hlen
    cases operand <;> try rfl
    cases v <;> try rfl
    simp only [execute, switch, List.cons_append]
    split <;> rfl
  case newArray | newRefArray =>
    obtain ⟨rfl, -⟩ := hdelta
    obtain ⟨v, vs, rfl⟩ := List.exists_cons_of_length_pos hlen
    cases v <;> try rfl
    simp only [execute, createArray, List.cons_append]
    split
    · rfl
    · split <;> rfl
  case checkCast | instanceOf =>
    obtain ⟨rfl, -⟩ := hdelta
    obtain ⟨v, vs, rfl⟩ := List.exists_cons_of_length_pos hlen
    cases operand <;> try rfl
    simp only [execute, typed, List.cons_append]
    split <;> rfl
  -- two slots
  case pop2 | dupX1 | dup2 | swap =>
    obtain ⟨rfl, -⟩ := hdelta
    obtain ⟨v, w, vs, rfl⟩ := exists_two hlen
    rfl
  case arith =>
    obtain ⟨rfl, -⟩ := hdelta
    obtain ⟨v, w, vs, rfl⟩ := exists_two hlen
    exact (arithResult_over _ _ _ _).symm
  case intRem | longRem =>
    obtain ⟨rfl, -⟩ := hdelta
    obtain ⟨v, w, vs, rfl⟩ := exists_two hlen
    cases v <;> cases w <;> first | exact (arithResult_over _ _ _ _).symm | rfl
  case longCompare | floatCompare | doubleCompare | arrayLoad =>
    obtain ⟨rfl, -⟩ := hdelta
    obtain ⟨v, w, vs, rfl⟩ := exists_two hlen
    cases v <;> cases w <;> rfl
  case ifInts =>
    obtain ⟨rfl, -⟩ := hdelta
    obtain ⟨v, w, vs, rfl⟩ := exists_two hlen
    cases v <;> cases w <;> first | exact (branch_over _ _ _ _ _).symm | rfl
  case ifSame | ifNotSame =>
    obtain ⟨rfl, -⟩ := hdelta
    obtain ⟨v, w, vs, rfl⟩ := exists_two hlen
    exact (branch_over _ _ _ _ _).symm
  -- three slots
  case dupX2 =>
    obtain ⟨rfl, -⟩ := hdelta
    obtain ⟨v, w, u, vs, rfl⟩ := exists_three hlen
    rfl
  case arrayStore =>
    obtain ⟨rfl, -⟩ := hdelta
    obtain ⟨v, w, u, vs, rfl⟩ := exists_three hlen
    cases w <;> rfl
  -- slots that depend on the member
  all_goals
    cases operand <;> try cases hdelta
  case getStatic => rfl
  case putStatic | getField =>
    obtain ⟨v, vs, rfl⟩ := List.exists_cons_of_length_pos hlen
    rfl
  case putField =>
    obtain ⟨v, w, vs, rfl⟩ := exists_two hlen
    rfl
  case invoke.member mode m =>
    simp only [Opcode.memberDelta] at hdelta
    split at hdelta
    · cases hdelta
    · next d hd =>
        cases hdelta
        exact invoke_over hd hlen

/-! ## Where requests come from -/

lemma branch_ne_asks {a a' : Activation} {vs : List Value} {operand : Operand} {taken : Bool}
    {r : Request} : a.branch target vs operand taken ≠ .asks r a' := by
  unfold branch
  split
  · split <;> simp [jumpTo]
  · simp [goOn]

/-- **A request names what its instruction names.** -/
lemma execute_comesFrom {a a' : Activation} {instr : Instruction} {r : Request}
    (h : a.execute target instr = .asks r a') : r.ComesFrom instr := by
  obtain ⟨op, operand⟩ := instr
  obtain ⟨pc, locals, stack⟩ := a
  cases op <;> simp only [execute] at h
  case ifInt | ifInts | ifSame | ifNotSame | ifNull | ifNonNull | goto =>
    repeat' first
      | exact absurd h branch_ne_asks
      | split at h
      | cases h
  case invoke =>
    unfold invoke at h
    split at h
    · next m =>
        split at h
        · cases h
          trivial
        · next d hd =>
            generalize d.params.length + _ = n at h
            dsimp only at h
            split at h
            · cases h
            · cases h
              exact ⟨rfl, d, hd, rfl⟩
    · cases h
  case newArray | newRefArray =>
    unfold createArray at h
    split at h
    · split at h
      · cases h
        trivial
      · split at h
        · cases h
          simp [Request.ComesFrom]
        · cases h
    · cases h
  case arith | intRem | longRem =>
    split at h
    · unfold arithResult at h
      split at h <;> cases h
      trivial
    · cases h
  case getStatic | putStatic | getField | putField =>
    unfold field at h
    split at h <;> cases h <;> first | rfl | exact ⟨_, rfl⟩ | trivial
  case new | checkCast | instanceOf =>
    unfold typed at h
    split at h
    · cases h
      rfl
    · split at h <;> cases h
      rfl
    · split at h <;> cases h
      trivial
    · cases h
  case arrayLoad =>
    split at h <;> cases h
    exact ⟨_, rfl⟩
  case load | store | increment | const | tableSwitch =>
    simp only [load, store, increment, constant, switch, jumpTo] at h
    repeat' first
      | cases h
      | split at h
  all_goals
    repeat' first
      | (cases h; first | done | trivial)
      | split at h

/-- **A call has as many arguments as it is declared to have.** -/
lemma length_of_invoke {a a' : Activation} {mode mode' : InvokeMode} {m m' : Member}
    {d : Descriptor.Method} {args : List Value} {isVoid : Bool} (hd : Descriptor.parseMethod m.desc = .ok d)
    (h : a.invoke mode (.member m) = .asks (.invoke mode' m' args isVoid) a') :
    args.length = d.params.length + (if mode == .static then 0 else 1) := by
  simp only [invoke, hd] at h
  generalize d.params.length + (if mode == .static then 0 else 1) = n at h ⊢
  split at h
  · cases h
  · cases h
    rw [List.length_reverse, List.length_take]
    omega

/-- A static field is only written with nothing where the stack is empty. -/
lemma stack_eq_nil_of_putStatic {a a' : Activation} {instr : Instruction} {x : Member}
    (h : a.execute target instr = .asks (.putStatic x none) a') : a.stack = [] := by
  have hop : instr.opcode = .putStatic := execute_comesFrom h
  simp only [execute, hop, field] at h
  split at h
  case h_3 hstack => exact hstack
  all_goals simp [ask] at h

end Activation

/-! ## One instruction in two places -/

/-- A request that ends in an exception or a fault, whatever the surroundings do. -/
def Request.isExit : Request → Bool
  | .fail _ | .raise _ _ | .throw _ => true
  | _ => false

/-- **One instruction in two places.**  The activations hold the same stack, and as far as the
instruction looks at them the same locals. -/
structure Instruction.Alike (instr : Instruction) (a b : Activation) : Prop where
  stack : a.stack = b.stack
  load : ∀ {k : Kind} {n : UInt32}, instr.opcode = .load k → instr.operand = .slot n →
    a.locals[n.toNat]? = b.locals[n.toNat]?
  increment : ∀ {n : UInt32} {delta : Int32}, instr.opcode = .increment →
    instr.operand = .increment n delta → a.locals[n.toNat]? = b.locals[n.toNat]?
  store : ∀ {k : Kind} {n : UInt32}, instr.opcode = .store k → instr.operand = .slot n →
    (n.toNat < a.locals.size ↔ n.toNat < b.locals.size)

/-- The local that an instruction changes. -/
def Instruction.changes? (instr : Instruction) : Option UInt32 :=
  match instr.opcode, instr.operand with
  | .store _, .slot n => some n
  | .increment, .increment n _ => some n
  | _, _ => none

/-- **The outcomes of one instruction in two places** agree, but for the places themselves. -/
inductive Step.Alike (instr : Instruction) (t t' : Label → Nat) (a b : Activation) :
    Step → Step → Prop where
  | next {s : List Value} (hend : instr.opcode.endsBlock = false) :
      Alike instr t t' a b (.next ⟨a.pc + 1, a.locals, s⟩) (.next ⟨b.pc + 1, b.locals, s⟩)
  | changes {s : List Value} {n : UInt32} {v : Value} (hn : instr.changes? = some n)
      (ha : n.toNat < a.locals.size) (hb : n.toNat < b.locals.size)
      (hend : instr.opcode.endsBlock = false) :
      Alike instr t t' a b (.next ⟨a.pc + 1, a.locals.set! n.toNat v, s⟩)
        (.next ⟨b.pc + 1, b.locals.set! n.toNat v, s⟩)
  | jumps {s : List Value} {id : Label} (hid : id ∈ instr.targets) :
      Alike instr t t' a b (.next ⟨t id, a.locals, s⟩) (.next ⟨t' id, b.locals, s⟩)
  | returns {v : Value} (hret : instr.opcode.isReturn = true) :
      Alike instr t t' a b (.returns v) (.returns v)
  | asks {s : List Value} {r : Request} (hend : instr.opcode.endsBlock = true → r.isExit = true) :
      Alike instr t t' a b (.asks r ⟨a.pc, a.locals, s⟩) (.asks r ⟨b.pc, b.locals, s⟩)
  | crash : Alike instr t t' a b .crash .crash

namespace Activation

variable {t t' : Label → Nat} {a b : Activation} {instr : Instruction}

lemma branch_alike (rest : List Value) (operand : Operand) (taken : Bool)
    (hop : instr.operand = operand) (hmark : instr.opcode ≠ .label)
    (hend : taken = false → instr.opcode.endsBlock = false) :
    Step.Alike instr t t' a b (a.branch t rest operand taken) (b.branch t' rest operand taken) := by
  unfold branch
  split
  · split
    · next id _ =>
        refine .jumps ?_
        simp [Instruction.targets, hop, hmark]
    · exact .crash
  · next htaken => exact .next (hend (by simpa using htaken))

lemma arithResult_alike (rest : List Value) (r : Except Value.ArithFault Value)
    (hend : instr.opcode.endsBlock = false) :
    Step.Alike instr t t' a b (a.arithResult rest r) (b.arithResult rest r) := by
  cases r with
  | ok v => exact .next hend
  | error e =>
      cases e with
      | divisionByZero => exact .asks fun _ => rfl
      | wrongKind => exact .crash

/-- **An instruction does the same wherever it stands.** -/
lemma execute_alike (h : instr.Alike a b) :
    Step.Alike instr t t' a b (a.execute t instr) (b.execute t' instr) := by
  obtain ⟨pc, L, stack⟩ := a
  obtain ⟨pc', L', stack'⟩ := b
  obtain ⟨hstack, hload, hincr, hstore⟩ := h
  obtain ⟨op, operand⟩ := instr
  simp only at hstack hload hincr hstore
  subst hstack
  cases op <;> simp only [execute]
  case nop | label | pushNull => exact .next rfl
  case const =>
    unfold constant
    split <;> first | exact .next rfl | exact .crash
  case load =>
    cases operand <;> try exact .crash
    simp only [load, hload rfl rfl]
    split
    · exact .next rfl
    · exact .crash
  case store =>
    cases operand <;> try exact .crash
    cases stack <;> try exact .crash
    simp only [store]
    split
    · next hn =>
        rw [if_pos ((hstore rfl rfl).mp hn)]
        exact .changes rfl hn ((hstore rfl rfl).mp hn) rfl
    · next hn =>
        rw [if_neg fun hn' => hn ((hstore rfl rfl).mpr hn')]
        exact .crash
  case increment =>
    cases operand <;> try exact .crash
    simp only [increment, hincr rfl rfl]
    split
    · next v hv =>
        have hn := (Array.getElem?_eq_some_iff.mp hv).1
        have hn' := (Array.getElem?_eq_some_iff.mp ((hincr rfl rfl).trans hv)).1
        exact .changes rfl hn' hn rfl
    · exact .crash
  case ifInt | ifInts | ifSame | ifNotSame | ifNull | ifNonNull =>
    split
    · exact branch_alike _ _ _ rfl (by simp) fun _ => rfl
    · exact .crash
  case goto => exact branch_alike _ _ _ rfl (by simp) fun h => by cases h
  case tableSwitch =>
    cases operand <;> try exact .crash
    next low labels default =>
    rcases stack with _ | ⟨v, rest⟩
    · exact .crash
    cases v <;> try exact .crash
    simp only [switch]
    split
    · refine .jumps ?_
      generalize (Int.toNat _) = key
      rw [List.getD_eq_getElem?_getD]
      simp only [Instruction.targets, List.mem_append, List.mem_singleton]
      cases hget : labels[key]? with
      | none => exact Or.inr rfl
      | some id => exact Or.inl (List.mem_of_getElem? hget)
    · exact .jumps (by simp [Instruction.targets])
  case arith | intRem | longRem =>
    split
    · exact arithResult_alike _ _ rfl
    · exact .crash
  case invoke =>
    cases operand <;> try exact .crash
    simp only [invoke]
    split
    · exact .asks fun _ => rfl
    · generalize List.length _ + _ = n
      split
      · exact .crash
      · exact .asks fun h => by cases h
  case getStatic | putStatic | getField | putField =>
    cases operand <;> try exact .crash
    rcases stack with _ | ⟨v, _ | ⟨w, rest⟩⟩ <;>
      first | exact .crash | exact .asks fun h => by cases h
  case newArray | newRefArray =>
    rcases stack with _ | ⟨v, rest⟩
    · exact .crash
    cases v <;> try exact .crash
    simp only [createArray]
    split
    · exact .asks fun _ => rfl
    · cases operand <;> first | exact .crash | exact .asks fun h => by cases h
  case new | checkCast | instanceOf =>
    cases operand <;> try exact .crash
    cases stack <;> simp only [typed]
    repeat' first
      | exact .crash
      | exact .next rfl
      | exact .asks fun h => by cases h
      | split
  case returnVoid => exact .returns rfl
  all_goals
    repeat' first
      | exact .crash
      | exact .next rfl
      | exact .returns rfl
      | exact .asks fun _ => rfl
      | exact .asks fun h => by cases h
      | split

/-- Where an instruction may lead, and what it may change. -/
lemma execute_flows (t : Label → Nat) (a : Activation) (instr : Instruction) :
    Step.Alike instr t t a a (a.execute t instr) (a.execute t instr) :=
  execute_alike ⟨rfl, fun _ _ => rfl, fun _ _ => rfl, fun _ _ => Iff.rfl⟩

end Activation

/-! ## The range that catches -/

/-- Where a label of a method is; one that is not marked counts as the beginning. -/
def Method.labelPosition (m : Method) (id : Label) : Nat := (m.code.labelAt? id).getD 0

/-- **The range that catches an exception** at a position: the first one that covers the position and
whose type is that of the exception. -/
def Method.rangeFor (m : Method) (catches : Text → Bool) (pc : Nat) : Option ExceptionRange :=
  m.ranges.find? fun r =>
    m.labelPosition r.start ≤ pc && pc < m.labelPosition r.stop && (r.type.isEmpty || catches r.type)

/-- The handler of an exception is the one of the range that catches it. -/
lemma Body.handlerFor_ofMethod (m : Method) (catches : Text → Bool) (pc : Nat) :
    (Body.ofMethod m).handlerFor catches pc
      = (m.rangeFor catches pc).map fun r => m.labelPosition r.handler := by
  unfold Body.handlerFor Body.ofMethod Method.rangeFor
  simp only [List.find?_map, Option.map_map]
  rfl

end Suspension
