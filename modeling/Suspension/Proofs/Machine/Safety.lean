import Mathlib.Algebra.Ring.Nat
import Mathlib.Logic.Relation
import Suspension.Machine.Execution
import Suspension.Proofs.Code.Closure
import Suspension.Proofs.Code.Deepest
import Suspension.Proofs.Code.Validity
import Suspension.Proofs.Machine.Run

/-!
# Runs of validated methods

**A method that passes its checks runs within its bounds.**  Nothing is assumed of the values that a run
gets from its surroundings: arguments, fields, elements and results may be anything, and any request may
end in any exception.  At every instruction that a run reaches the operand stack is as high as the pass
over depths says, the instruction finds what it pops, its local is there, and so are the labels that it
may jump to.

* `Activation.Moves` — one move of an activation in arbitrary surroundings.
* `Exec.loop_moves` — the machine goes from move to move.
* `Activation.execute_leaves` — a step changes the height of the stack by the effect of its instruction.
* `Method.validate_safe`, `Method.validate_unsafe` — the bounds of all runs, and what they do not bound.
-/

namespace Suspension

open Machine

/-! ## Moves -/

/-- The requests whose answer is pushed. -/
def Request.pushes : Request → Bool
  | .getStatic _ | .getField _ _ | .getElement _ _ | .length _ => true
  | .create _ | .createArray _ _ | .isInstance _ _ => true
  | .invoke _ _ _ isVoid => !isVoid
  | _ => false

/-- **One move of an activation in arbitrary surroundings**: a step that goes on, a request with any
answer, or a request that ends in any exception, if a handler catches it. -/
inductive Activation.Moves (b : Body) : Activation → Activation → Prop where
  | next {a a' : Activation} (hstep : a.step b = .next a') : Moves b a a'
  | answered {a a' : Activation} {r : Request} {v : Option Value} (hstep : a.step b = .asks r a')
      (hr : r.isExit = false) (hv : v.isSome = r.pushes) : Moves b a (a'.answered v)
  | caught {a a' : Activation} {r : Request} {catches : Text → Bool} {pc : Nat} {obj : ObjectId}
      (hstep : a.step b = .asks r a') (hpc : b.handlerFor catches a'.pc = some pc) :
      Moves b a (a'.caught pc obj)

namespace Exec

variable {call : Caller}

/-- **The machine's answers are pushed as the request says.** -/
lemma answer_pushes {r : Request} {s s' : Machine} {v : Option Value}
    (h : (answer call r).run s = (.ok v, s')) : r.isExit = false ∧ v.isSome = r.pushes := by
  unfold answer at h
  cases r with
  | fail f => cases h
  | raise cls message => exact absurd h raise_ne_ok
  | throw obj => cases h
  | getField obj name | getElement arr index | length arr | create cls | createArray elem size
  | isInstance w cls | putElement k arr index w =>
      obtain ⟨_, _, -, h⟩ := run_bind_ok h
      cases h
      exact ⟨rfl, rfl⟩
  | getStatic x | putField obj name w =>
      obtain ⟨_, _, -, h⟩ := run_bind_ok h
      obtain ⟨_, _, -, h⟩ := run_bind_ok h
      cases h
      exact ⟨rfl, rfl⟩
  | putStatic x w =>
      obtain ⟨_, _, -, h⟩ := run_bind_ok h
      obtain ⟨_, _, -, h⟩ := run_bind_ok h
      obtain ⟨_, _, -, h⟩ := run_bind_ok h
      cases h
      exact ⟨rfl, rfl⟩
  | cast w cls =>
      obtain ⟨_, _, -, h⟩ := run_bind_ok h
      split at h
      · cases h
        exact ⟨rfl, rfl⟩
      · exact absurd h castFailed_ne_ok
  | invoke mode x args isVoid =>
      obtain ⟨_, _, -, h⟩ := run_bind_ok h
      obtain ⟨_, _, -, h⟩ := run_bind_ok h
      cases h
      cases isVoid <;> exact ⟨rfl, rfl⟩

/-- **The machine goes from move to move**, whatever methods are called and however: a round of its loop
ends the activation, or is a move. -/
lemma loop_moves (call : Caller) (m : LoadedMethod) (a : Activation) (s : Machine) :
    (∃ out, ∀ fuel, loop call m (fuel + 1) a s = out) ∨
    ∃ a' s', a.Moves m.body a' ∧ ∀ fuel, loop call m (fuel + 1) a s = loop call m fuel a' s' := by
  cases hstep : a.step m.body with
  | next a' => exact Or.inr ⟨a', s, .next hstep, fun fuel => by simp only [loop, hstep]⟩
  | returns v | crash | fellOff => exact Or.inl ⟨_, fun fuel => by simp only [loop, hstep]; rfl⟩
  | asks r a' =>
      obtain ⟨out, s', hanswer⟩ : ∃ out s', (answer call r).run s = (out, s') := ⟨_, _, rfl⟩
      cases out with
      | ok v =>
          obtain ⟨hr, hv⟩ := answer_pushes hanswer
          exact Or.inr ⟨_, s', .answered hstep hr hv, fun fuel => by
            simp only [loop, hstep, hanswer]⟩
      | error e =>
          cases e with
          | fault f =>
              cases hcaught : handled m a' f s' with
              | none =>
                  exact Or.inl ⟨_, fun fuel => by simp only [loop, hstep, hanswer, hcaught]; rfl⟩
              | some a'' =>
                  refine Or.inr ⟨a'', s', ?_, fun fuel => by
                    simp only [loop, hstep, hanswer, hcaught]⟩
                  unfold handled at hcaught
                  split at hcaught
                  · cases hcaught
                  · obtain ⟨pc, hpc, rfl⟩ := Option.map_eq_some_iff.mp hcaught
                    exact .caught hstep hpc
          | crash | exhausted =>
              exact Or.inl ⟨_, fun fuel => by simp only [loop, hstep, hanswer]; rfl⟩

end Exec

/-! ## The height of the stack -/

/-- **The height that a step leaves**, with the answer if it asks for one. -/
def Step.Leaves (n : Nat) : Step → Prop
  | .next a => a.stack.length = n
  | .asks r a => r.isExit = false → a.stack.length + r.pushes.toNat = n
  | _ => True

lemma Step.Leaves.over {n : Nat} {o : Step} (h : o.Leaves n) (rest : List Value) :
    (o.over rest).Leaves (n + rest.length) := by
  cases o with
  | next a =>
      simp only [Step.Leaves, Step.over, List.length_append] at h ⊢
      omega
  | asks r a =>
      intro hr
      have hr := h hr
      simp only [List.length_append]
      omega
  | returns v | crash | fellOff => trivial

namespace Activation

variable {pc : Nat} {locals : Array Value} {vs : List Value} {target : Label → Nat}

lemma branch_leaves (a : Activation) (vs : List Value) (operand : Operand) (taken : Bool) :
    (a.branch target vs operand taken).Leaves vs.length := by
  unfold branch
  split
  · split
    · rfl
    · trivial
  · rfl

lemma arithResult_leaves (a : Activation) (vs : List Value) (r : Except Value.ArithFault Value) :
    (a.arithResult vs r).Leaves (vs.length + 1) := by
  cases r with
  | ok v => rfl
  | error e =>
      cases e with
      | divisionByZero => intro hr; cases hr
      | wrongKind => trivial

/-- An instruction that finds exactly what it pops leaves exactly what it pushes. -/
lemma execute_leaves_of_length {instr : Instruction} {pops pushes : Nat}
    (hdelta : instr.delta = .ok (pops, pushes)) (hlen : vs.length = pops) :
    (execute target ⟨pc, locals, vs⟩ instr).Leaves pushes := by
  obtain ⟨op, operand⟩ := instr
  unfold Instruction.delta at hdelta
  cases op <;> simp only [Opcode.effect?, Opcode.shuffle?, Except.ok.injEq, Prod.mk.injEq,
    List.length_nil, List.length_cons] at hdelta
  -- no slot
  case nop | label | pushNull | returnVoid =>
    obtain ⟨rfl, rfl⟩ := hdelta
    obtain rfl := List.length_eq_zero_iff.mp hlen
    first | rfl | trivial
  case goto =>
    obtain ⟨rfl, rfl⟩ := hdelta
    exact hlen ▸ branch_leaves _ _ _ _
  case const | ldc | load | increment | new =>
    obtain ⟨rfl, rfl⟩ := hdelta
    obtain rfl := List.length_eq_zero_iff.mp hlen
    simp only [execute, constant, load, increment, typed]
    repeat' first
      | trivial
      | (intro _; rfl)
      | split
  -- one slot
  case pop | dup | returnValue | arrayLength =>
    obtain ⟨rfl, rfl⟩ := hdelta
    obtain ⟨v, rfl⟩ := List.length_eq_one_iff.mp hlen
    first | trivial | (intro _; rfl)
  case store =>
    obtain ⟨rfl, rfl⟩ := hdelta
    obtain ⟨v, rfl⟩ := List.length_eq_one_iff.mp hlen
    cases operand <;> try trivial
    simp only [execute, store]
    split <;> trivial
  case intNeg | longNeg | throw =>
    obtain ⟨rfl, rfl⟩ := hdelta
    obtain ⟨v, rfl⟩ := List.length_eq_one_iff.mp hlen
    cases v <;> first | trivial | (intro hr; cases hr)
  case convert =>
    obtain ⟨rfl, rfl⟩ := hdelta
    obtain ⟨v, rfl⟩ := List.length_eq_one_iff.mp hlen
    simp only [execute]
    split <;> trivial
  case monitorEnter | monitorExit =>
    obtain ⟨rfl, rfl⟩ := hdelta
    obtain ⟨v, rfl⟩ := List.length_eq_one_iff.mp hlen
    simp only [execute]
    split
    · intro hr
      cases hr
    · rfl
  case ifInt =>
    obtain ⟨rfl, rfl⟩ := hdelta
    obtain ⟨v, rfl⟩ := List.length_eq_one_iff.mp hlen
    cases v <;> first | trivial | exact branch_leaves _ _ _ _
  case ifNull | ifNonNull =>
    obtain ⟨rfl, rfl⟩ := hdelta
    obtain ⟨v, rfl⟩ := List.length_eq_one_iff.mp hlen
    exact branch_leaves _ _ _ _
  case tableSwitch =>
    obtain ⟨rfl, rfl⟩ := hdelta
    obtain ⟨v, rfl⟩ := List.length_eq_one_iff.mp hlen
    cases operand <;> try trivial
    cases v <;> try trivial
    simp only [execute, switch]
    split <;> rfl
  case newArray | newRefArray =>
    obtain ⟨rfl, rfl⟩ := hdelta
    obtain ⟨v, rfl⟩ := List.length_eq_one_iff.mp hlen
    cases v <;> try trivial
    simp only [execute, createArray]
    split
    · intro hr
      cases hr
    · split <;> first | trivial | (intro _; rfl)
  case checkCast | instanceOf =>
    obtain ⟨rfl, rfl⟩ := hdelta
    obtain ⟨v, rfl⟩ := List.length_eq_one_iff.mp hlen
    cases operand <;> try trivial
    simp only [execute, typed]
    split <;> first | trivial | (intro _; rfl)
  -- two slots
  case pop2 | dupX1 | dup2 | swap =>
    obtain ⟨rfl, rfl⟩ := hdelta
    obtain ⟨v, w, rfl⟩ := List.length_eq_two.mp hlen
    rfl
  case arith =>
    obtain ⟨rfl, rfl⟩ := hdelta
    obtain ⟨v, w, rfl⟩ := List.length_eq_two.mp hlen
    exact arithResult_leaves _ _ _
  case intRem | longRem =>
    obtain ⟨rfl, rfl⟩ := hdelta
    obtain ⟨v, w, rfl⟩ := List.length_eq_two.mp hlen
    cases v <;> cases w <;> first | trivial | exact arithResult_leaves _ _ _
  case longCompare | floatCompare | doubleCompare | arrayLoad =>
    obtain ⟨rfl, rfl⟩ := hdelta
    obtain ⟨v, w, rfl⟩ := List.length_eq_two.mp hlen
    cases v <;> cases w <;> first | trivial | (intro _; rfl)
  case ifInts =>
    obtain ⟨rfl, rfl⟩ := hdelta
    obtain ⟨v, w, rfl⟩ := List.length_eq_two.mp hlen
    cases v <;> cases w <;> first | trivial | exact branch_leaves _ _ _ _
  case ifSame | ifNotSame =>
    obtain ⟨rfl, rfl⟩ := hdelta
    obtain ⟨v, w, rfl⟩ := List.length_eq_two.mp hlen
    exact branch_leaves _ _ _ _
  -- three slots
  case dupX2 =>
    obtain ⟨rfl, rfl⟩ := hdelta
    obtain ⟨v, w, u, rfl⟩ := List.length_eq_three.mp hlen
    rfl
  case arrayStore =>
    obtain ⟨rfl, rfl⟩ := hdelta
    obtain ⟨v, w, u, rfl⟩ := List.length_eq_three.mp hlen
    cases w <;> first | trivial | (intro _; rfl)
  -- slots that depend on the member
  all_goals
    cases operand <;> try cases hdelta
  case getStatic =>
    obtain rfl := List.length_eq_zero_iff.mp hlen
    intro _
    rfl
  case putStatic | getField =>
    obtain ⟨v, rfl⟩ := List.length_eq_one_iff.mp hlen
    intro _
    rfl
  case putField =>
    obtain ⟨v, w, rfl⟩ := List.length_eq_two.mp hlen
    intro _
    rfl
  case invoke.member mode m =>
    simp only [Opcode.memberDelta] at hdelta
    split at hdelta
    · cases hdelta
    · next d hd =>
        cases hdelta
        simp only [execute, invoke, hd, ← hlen, Nat.lt_irrefl, if_false, List.drop_length]
        intro _
        simp only [Request.pushes, List.length_nil]
        cases d.isVoid <;> rfl

/-- **A step changes the height of the stack by the effect of its instruction.** -/
lemma execute_leaves {a : Activation} {instr : Instruction} {pops pushes : Nat}
    (hdelta : instr.delta = .ok (pops, pushes)) (hlen : pops ≤ a.stack.length) :
    (a.execute target instr).Leaves (a.stack.length - pops + pushes) := by
  obtain ⟨pc, locals, stack⟩ := a
  -- what the instruction pops, and the rest, which it does not see
  have htaken : (stack.take pops).length = pops := List.length_take_of_le hlen
  have hover : execute target ⟨pc, locals, stack.take pops ++ stack.drop pops⟩ instr
      = (execute target ⟨pc, locals, stack.take pops⟩ instr).over (stack.drop pops) :=
    execute_over hdelta (Nat.le_of_eq htaken.symm)
  have hleaves : (execute target ⟨pc, locals, stack.take pops⟩ instr).Leaves pushes :=
    execute_leaves_of_length hdelta htaken
  have hleaves := hleaves.over (stack.drop pops)
  rw [← hover, List.take_append_drop] at hleaves
  simpa [Nat.add_comm] using hleaves

end Activation

/-! ## Whole runs -/

/-- The local that an instruction reads or writes. -/
def Instruction.local? (instr : Instruction) : Option UInt32 :=
  match instr.opcode, instr.operand with
  | .load _, .slot n => some n
  | .store _, .slot n => some n
  | .increment, .increment n _ => some n
  | _, _ => none

/-- **An activation that keeps to the depths of a pass.** -/
structure Activation.Tracks (m : Method) (p : StackDepth.Pass) (a : Activation) : Prop where
  locals : a.locals.size = m.maxLocals.toNat
  height : a.stack.length ≤ p.deepest
  found : a.pc < m.code.size → p.Found a.pc a.stack.length

namespace Activation

variable {m : Method} {p : StackDepth.Pass} {a a' : Activation} {instr : Instruction}

/-- Entering a method makes all its locals. -/
lemma size_locals_enter (m : Method) (args : List Value) :
    (enter m args).locals.size = m.maxLocals.toNat := by
  simp only [enter, List.size_toArray, List.length_append, List.length_take, List.length_replicate]
  omega

/-- The labels of a well-formed body are where the machine looks for them. -/
lemma target_ofMethod {id : Label} {t : Nat} (h : m.code.labelAt? id = some t) :
    (Body.ofMethod m).target id = t := by
  have hlookup : m.code.labelIndex.lookup id = some t := h
  simp [Body.target, Body.ofMethod, hlookup]

/-- A move is made from an instruction. -/
lemma Moves.fetches (h : a.Moves (.ofMethod m) a') : ∃ instr, m.code[a.pc]? = some instr := by
  cases hcode : m.code[a.pc]? with
  | some instr => exact ⟨instr, rfl⟩
  | none =>
      have hnone : a.step (.ofMethod m) = .fellOff := by
        have hcode' : (Body.ofMethod m).code[a.pc]? = none := hcode
        simp only [step, hcode']
      cases h with
      | next hstep | answered hstep | caught hstep => simp [hnone] at hstep

lemma step_ofMethod (hcode : m.code[a.pc]? = some instr) :
    a.step (.ofMethod m) = a.execute (Body.ofMethod m).target instr := by
  have hcode' : (Body.ofMethod m).code[a.pc]? = some instr := hcode
  simp only [step, hcode']

/-- **One move keeps to the depths of a successful pass.**  A step and an answer lead along an edge of
the control flow, an exception to a handler. -/
lemma Tracks.move (hrun : StackDepth.run m.code m.ranges = .ok p) (ha : a.Tracks m p)
    (h : a.Moves (.ofMethod m) a') : a'.Tracks m p := by
  obtain ⟨instr, hcode⟩ := h.fetches
  obtain ⟨hlt, -⟩ := Array.getElem?_eq_some_iff.mp hcode
  obtain ⟨hlabelling, hdeepest, -⟩ := StackDepth.run_labelling hrun (by omega)
  have hfound := ha.found hlt
  obtain ⟨pops, pushes, hdelta, hpops, htargets, hnext⟩ := hlabelling.step hfound hcode
  obtain ⟨-, hafter⟩ := hdeepest hfound hcode hdelta
  have hleaves : (a.execute (Body.ofMethod m).target instr).Leaves
      (a.stack.length - pops + pushes) := execute_leaves hdelta hpops
  have hflows := execute_flows (Body.ofMethod m).target a instr
  have hstep' := step_ofMethod hcode
  cases h with
  | next hstep =>
      rw [← hstep', hstep] at hleaves hflows
      have hheight : a'.stack.length = a.stack.length - pops + pushes := hleaves
      rw [← hheight] at hafter htargets hnext
      cases hflows with
      | next hend => exact ⟨ha.locals, hafter, hnext hend⟩
      | changes hn _ _ hend => exact ⟨by simpa using ha.locals, hafter, hnext hend⟩
      | jumps hid =>
          obtain ⟨t, ht, hf⟩ := htargets _ hid
          refine ⟨ha.locals, hafter, fun _ => ?_⟩
          rwa [target_ofMethod ht]
  | answered hstep hr hv =>
      next b r v =>
      rw [← hstep', hstep] at hleaves hflows
      have hheight : (b.answered v).stack.length = a.stack.length - pops + pushes := by
        rw [← hleaves hr, ← hv]
        cases v <;> simp [answered]
      rw [← hheight] at hafter hnext
      cases hflows with
      | asks hend =>
          refine ⟨ha.locals, hafter, hnext ?_⟩
          by_contra hne
          simp [hend (by simpa using hne)] at hr
  | caught hstep hpc =>
      next b r catches pc obj =>
      rw [← hstep', hstep] at hflows
      rw [Body.handlerFor_ofMethod] at hpc
      obtain ⟨range, hrange, rfl⟩ := Option.map_eq_some_iff.mp hpc
      obtain ⟨t, ht, hf⟩ := hlabelling.handlers range (List.mem_of_find?_eq_some hrange)
      have hone : p.Found (m.labelPosition range.handler) 1 := by
        simpa [Method.labelPosition, ht] using hf
      have hhandler := Array.getElem?_eq_getElem (Code.labelAt?_lt ht)
      obtain ⟨_, _, hdelta', -⟩ := hlabelling.step hf hhandler
      have hlocals : b.locals = a.locals := by
        cases hflows
        rfl
      exact ⟨(congrArg Array.size hlocals).trans ha.locals, (hdeepest hf hhandler hdelta').1,
        fun _ => hone⟩

/-- **A whole run keeps to the depths of a successful pass.** -/
lemma Tracks.run (hrun : StackDepth.run m.code m.ranges = .ok p) (ha : a.Tracks m p)
    (h : Relation.ReflTransGen (Moves (.ofMethod m)) a a') : a'.Tracks m p := by
  induction h with
  | refl => exact ha
  | tail _ hmove ih => exact ih.move hrun hmove

end Activation

/-- **An activation at an instruction that keeps within its bounds.** -/
structure Activation.Bounded (m : Method) (a : Activation) (instr : Instruction) : Prop where
  /-- the stack is as high as the pass over depths says, and at a handler it holds the exception -/
  depth : ∃ p, StackDepth.run m.code m.ranges = .ok p
    ∧ p.depths[a.pc]? = some (some a.stack.length)
    ∧ ∀ r ∈ m.ranges, ∃ t, m.code.labelAt? r.handler = some t ∧ p.depths[t]? = some (some 1)
  /-- there is what the instruction pops -/
  pops : ∃ pops pushes, instr.delta = .ok (pops, pushes) ∧ pops ≤ a.stack.length
  /-- what lies under the stack does not matter to the step -/
  above : ∀ rest, step (.ofMethod m) { a with stack := a.stack ++ rest }
    = (a.step (.ofMethod m)).over rest
  locals : ∀ n, instr.local? = some n → n.toNat < a.locals.size
  targets : ∀ id ∈ instr.targets, ∃ t, m.code.labelAt? id = some t
  ranges : ∀ r ∈ m.ranges, Validation.RangeFits m.code r

/-- A local of an instruction that fits is there. -/
lemma Instruction.Fits.local?_lt {maxLocals n : UInt32} {instr : Instruction}
    (h : instr.Fits maxLocals) (hn : instr.local? = some n) : n.toNat < maxLocals.toNat := by
  obtain ⟨op, operand⟩ := instr
  cases op <;> cases operand <;> simp only [Instruction.local?, reduceCtorEq] at hn
  all_goals
    cases hn
    simp only [Instruction.Fits, Opcode.operandKind?] at h
  case load.slot | store.slot =>
    obtain ⟨_, heq, hlt⟩ := h
    cases heq
    exact hlt
  case increment.increment =>
    obtain ⟨_, _, heq, hlt⟩ := h
    cases heq
    exact hlt

/-- **A method that passes its checks runs within its bounds**, whatever its surroundings do.  However
far a run gets, all its locals are there; the stack is no higher than the deepest one that the pass over
depths finds, which as a number of 32 bits is within the declared bound, and so is the stack itself unless
there are so many instructions that the deepest one exceeds 32 bits; and the next instruction, if there is
one, finds its operands, its local and its labels. -/
theorem Method.validate_safe {m : Method} (h : m.validate = .ok ()) {args : List Value}
    {a : Activation}
    (hrun : Relation.ReflTransGen (Activation.Moves (.ofMethod m)) (.enter m args) a) :
    a.locals.size = m.maxLocals.toNat
      ∧ (∀ p, StackDepth.run m.code m.ranges = .ok p →
          a.stack.length ≤ p.deepest ∧ (UInt32.ofNat p.deepest).toNat ≤ m.maxStack.toNat)
      ∧ (m.code.size < 2 ^ 31 → a.stack.length ≤ m.maxStack.toNat)
      ∧ ∀ instr, m.code[a.pc]? = some instr → a.Bounded m instr := by
  by_cases hcode : m.code = #[]
  · -- nothing moves
    have hstay : a = .enter m args := by
      rcases Relation.ReflTransGen.cases_head hrun with heq | ⟨b, hmove, -⟩
      · exact heq.symm
      · obtain ⟨instr, hinstr⟩ := hmove.fetches
        simp [hcode] at hinstr
    subst hstay
    refine ⟨Activation.size_locals_enter m args, fun p hp => ⟨Nat.zero_le _, ?_⟩, fun _ => Nat.zero_le _,
      by simp [hcode]⟩
    have hdeepest := StackDepth.run_deepest_le hp
    rw [hcode] at hdeepest
    rw [Nat.le_zero.mp hdeepest]
    exact Nat.zero_le _
  have hwf := (Method.validate_eq_ok_iff hcode).mp h
  obtain ⟨need, hneed, hmax⟩ := hwf.depth
  unfold Method.stackNeed at hneed
  split at hneed
  case h_2 => cases hneed
  next p hp =>
  cases hneed
  have hsize : 0 < m.code.size := Array.size_pos_iff.mpr hcode
  obtain ⟨hlabelling, -, hdeepest⟩ := StackDepth.run_labelling hp hsize
  have henter : (Activation.enter m args).Tracks m p :=
    ⟨Activation.size_locals_enter m args, Nat.zero_le _, fun _ => hlabelling.entry⟩
  have ha := henter.run hp hrun
  refine ⟨ha.locals, fun p' hp' => ?_, fun hsmall => ?_, fun instr hinstr => ?_⟩
  · obtain rfl : p = p' := Except.ok.inj (hp.symm.trans hp')
    exact ⟨ha.height, hmax⟩
  · have hfits : (UInt32.ofNat p.deepest).toNat = p.deepest := by
      rw [UInt32.toNat_ofNat']
      exact Nat.mod_eq_of_lt (by omega)
    exact Nat.le_trans ha.height (hfits ▸ hmax)
  · obtain ⟨hlt, -⟩ := Array.getElem?_eq_some_iff.mp hinstr
    have hmem : instr ∈ m.code.toList := Array.mem_toList_iff.mpr (Array.mem_of_getElem? hinstr)
    obtain ⟨pops, pushes, hdelta, hpops, -⟩ := hlabelling.step (ha.found hlt) hinstr
    refine ⟨⟨p, hp, ha.found hlt, hlabelling.handlers⟩, ⟨pops, pushes, hdelta, hpops⟩, fun rest => ?_,
      fun n hn => ?_, hwf.targets instr hmem, hwf.ranges⟩
    · rw [Activation.step_ofMethod (a := a) hinstr,
        Activation.step_ofMethod (a := { a with stack := a.stack ++ rest }) hinstr]
      exact Activation.execute_over hdelta hpops
    · rw [ha.locals]
      exact (hwf.operands instr hmem).local?_lt hn

/-- A call under a handler that answers for it. -/
def answeredCall : Method where
  name := "f"
  desc := "(I)I"
  flags := Flag.staticBit
  maxLocals := 1
  maxStack := 1
  code := #[.mark 0, ⟨.load .int, .slot 0⟩, .member (.invoke .static) "A" "g" "(I)I", .mark 1,
    .plain (.returnValue .int), .mark 2, .plain .pop, ⟨.load .int, .slot 0⟩,
    .plain (.returnValue .int)]
  ranges := [⟨"", 0, 1, 2⟩]

/-- The theorem where the handler has been entered. -/
theorem answeredCall_safe :
    answeredCall.validate = .ok () ∧
      Activation.Bounded answeredCall ⟨5, #[.int 3], [.object 7]⟩ (.mark 2) := by
  have hvalid : answeredCall.validate = .ok () := by decide +kernel
  have hrun : Relation.ReflTransGen (Activation.Moves (.ofMethod answeredCall))
      (.enter answeredCall [.int 3]) ⟨5, #[.int 3], [.object 7]⟩ := by
    refine .head (b := ⟨1, #[.int 3], []⟩) (.next rfl) ?_
    refine .head (b := ⟨2, #[.int 3], [.int 3]⟩) (.next rfl) (.single ?_)
    exact @Activation.Moves.caught _ _ ⟨2, #[.int 3], []⟩ _ (fun _ => false) _ 7 rfl rfl
  exact ⟨hvalid, (Method.validate_safe hvalid hrun).2.2.2 _ rfl⟩

/-- A body that pushes two values and copies the two on top so many times. -/
def doubling (n : Nat) : Method where
  name := "f"
  desc := "()V"
  flags := Flag.staticBit
  maxStack := 2
  code := (.plain .pushNull :: .plain .pushNull ::
    (List.replicate n (.plain .dup2) ++ [.plain .returnVoid])).toArray

namespace Doubling

variable {n i : Nat} {instr : Instruction}

lemma size_code (n : Nat) : (doubling n).code.size = n + 3 := by simp [doubling]

/-- The height of its stack at a position. -/
def height (i : Nat) : Nat := max i (2 * i - 2)

/-- Its instructions, by position. -/
lemma code_cases (h : (doubling n).code[i]? = some instr) :
    (i < 2 ∧ instr = .plain .pushNull) ∨ (2 ≤ i ∧ i < n + 2 ∧ instr = .plain .dup2)
      ∨ (i = n + 2 ∧ instr = .plain .returnVoid) := by
  rw [doubling, List.getElem?_toArray] at h
  match i, h with
  | 0, h | 1, h => exact Or.inl ⟨by omega, (Option.some.inj h).symm⟩
  | i + 2, h =>
      rw [List.getElem?_cons_succ, List.getElem?_cons_succ] at h
      refine Or.inr ?_
      rcases Nat.lt_trichotomy i n with hlt | rfl | hlt
      · rw [List.getElem?_append_left (by simpa using hlt), List.getElem?_replicate, if_pos hlt] at h
        exact Or.inl ⟨by omega, by omega, (Option.some.inj h).symm⟩
      · rw [List.getElem?_append_right (by simp)] at h
        simp only [List.length_replicate, Nat.sub_self, List.getElem?_cons_zero, Option.some.injEq] at h
        exact Or.inr ⟨rfl, h.symm⟩
      · rw [List.getElem?_eq_none (by simp; omega)] at h
        cases h

/-- **Each instruction but the last raises the stack** to the height at the next one. -/
lemma effect (h : (doubling n).code[i]? = some instr) :
    ∃ pops pushes, instr.delta = .ok (pops, pushes) ∧ pops ≤ height i ∧ instr.targets = []
      ∧ (i < n + 2 → instr.opcode.endsBlock = false ∧ height i - pops + pushes = height (i + 1))
      ∧ (i = n + 2 → instr.opcode.endsBlock = true ∧ height i - pops + pushes = height i) := by
  unfold height
  rcases code_cases h with ⟨hi, rfl⟩ | ⟨hi, hi', rfl⟩ | ⟨rfl, rfl⟩
  · exact ⟨0, 1, rfl, Nat.zero_le _, rfl, fun _ => ⟨rfl, by omega⟩, fun h => by omega⟩
  · exact ⟨2, 4, rfl, by omega, rfl, fun _ => ⟨rfl, by omega⟩, fun h => by omega⟩
  · exact ⟨0, 0, rfl, Nat.zero_le _, rfl, fun h => absurd h (Nat.lt_irrefl _), fun _ => ⟨rfl, rfl⟩⟩

lemma labelling (n : Nat) : StackDepth.Labelling (doubling n).code (doubling n).ranges
    fun i d => i < n + 3 ∧ d = height i where
  unique := by
    rintro i d e ⟨-, rfl⟩ ⟨-, rfl⟩
    rfl
  entry := ⟨by omega, rfl⟩
  handlers := by simp [doubling]
  step := by
    rintro i d instr ⟨hlt, rfl⟩ hcode
    obtain ⟨pops, pushes, hdelta, hpops, htargets, hnext, -⟩ := effect hcode
    refine ⟨pops, pushes, hdelta, hpops, by simp [htargets], fun _ hsize => ?_⟩
    rw [size_code] at hsize
    exact ⟨hsize, (hnext (by omega)).2⟩

/-- Control passes through all of it. -/
lemma arrives (hi : i < n + 3) :
    StackDepth.Arrives (doubling n).code (doubling n).ranges i (height i) := by
  induction i with
  | zero => exact .entry (by rw [size_code]; omega)
  | succ i ih =>
      have hlt : i < (doubling n).code.size := by
        rw [size_code]
        omega
      have hcode : (doubling n).code[i]? = some (doubling n).code[i] := Array.getElem?_eq_getElem hlt
      obtain ⟨pops, pushes, hdelta, -, -, hnext, -⟩ := effect hcode
      obtain ⟨hends, hheight⟩ := hnext (by omega)
      exact hheight ▸ .next (ih (by omega)) hcode hdelta hends (by rw [size_code]; exact hi)

/-- **The depth that it needs**, as a number of 32 bits. -/
lemma stackNeed (n : Nat) : (doubling n).stackNeed = .ok (UInt32.ofNat (2 * n + 2)).toNat := by
  obtain ⟨p, hp, hfound⟩ := StackDepth.run_steady (labelling n).steady
  have hlast : height (n + 2) = 2 * n + 2 := by
    unfold height
    omega
  have hlt : n + 2 < (doubling n).code.size := by
    rw [size_code]
    omega
  have hcode : (doubling n).code[n + 2]? = some (doubling n).code[n + 2] := Array.getElem?_eq_getElem hlt
  have hdeepest : p.deepest = 2 * n + 2 := by
    refine (StackDepth.run_deepest hp).unique ⟨Or.inl ?_, ?_⟩
    · obtain ⟨pops, pushes, hdelta, -, -, -, hend⟩ := effect hcode
      exact ⟨n + 2, _, _, pops, pushes, hfound.mpr (arrives (by omega)), hcode, hdelta,
        hlast.symm.trans (hend rfl).2.symm⟩
    · rintro _ (⟨i, d, instr, pops, pushes, hf, hcode, hdelta, rfl⟩ | rfl)
      · obtain ⟨hi, rfl⟩ := (labelling n).of_arrives (hfound.mp hf)
        obtain ⟨_, _, hdelta', -, -, hnext, hend⟩ := effect hcode
        cases hdelta.symm.trans hdelta'
        rcases Nat.lt_or_eq_of_le (Nat.le_of_lt_succ hi) with hi | rfl
        · rw [(hnext hi).2]
          unfold height
          omega
        · rw [(hend rfl).2, hlast]
      · exact Nat.zero_le _
  simp only [Method.stackNeed, hp, hdeepest]

/-- It passes its checks where that is at most two. -/
lemma validate (hn : (UInt32.ofNat (2 * n + 2)).toNat ≤ 2) : (doubling n).validate = .ok () := by
  have hmem {instr : Instruction} (h : instr ∈ (doubling n).code.toList) :
      instr = .plain .pushNull ∨ instr = .plain .dup2 ∨ instr = .plain .returnVoid := by
    obtain ⟨i, hi⟩ := List.mem_iff_getElem?.mp h
    rcases code_cases (by simpa using hi) with ⟨-, rfl⟩ | ⟨-, -, rfl⟩ | ⟨-, rfl⟩ <;> simp
  have hbody : (doubling 0).hasBody = true := by decide +kernel
  have hparams : ∃ d, Descriptor.parseMethod (doubling 0).desc = .ok d
      ∧ d.params.length + (doubling 0).receiverCount ≤ (doubling 0).maxLocals.toNat :=
    ⟨⟨[], "V"⟩, by decide +kernel, by decide +kernel⟩
  refine (Method.validate_eq_ok_iff (by simp [doubling])).mpr
    { hasBody := hbody
      params := hparams
      numbered := fun instr h hmark => ?_
      unique := fun i j id hi => ?_
      targets := fun instr h id hid => ?_
      ranges := by simp [doubling]
      scopes := by simp [doubling]
      operands := fun instr h => ?_
      depth := ⟨_, stackNeed n, hn⟩ }
  · rcases hmem h with rfl | rfl | rfl <;> cases hmark
  · obtain ⟨instr, hinstr, hid⟩ := Option.bind_eq_some_iff.mp hi
    rcases code_cases hinstr with ⟨-, rfl⟩ | ⟨-, -, rfl⟩ | ⟨-, rfl⟩ <;> cases hid
  · rcases hmem h with rfl | rfl | rfl <;> cases hid
  · rcases hmem h with rfl | rfl | rfl <;> trivial

end Doubling

/-- A body that control leaves at its end. -/
def unreturned : Method where
  name := "f"
  desc := "()V"
  flags := Flag.staticBit
  code := #[.plain .nop]

/-- **Where validated methods go beyond their bounds**: a body whose depth is two only as a number of 32 bits,
and one that control leaves at its end, where no instruction and no depth is. -/
theorem Method.validate_unsafe :
    ((doubling 2147483648).validate = .ok () ∧ (doubling 2147483648).code.size < 2 ^ 32
      ∧ ∃ a, Relation.ReflTransGen (Activation.Moves (.ofMethod (doubling 2147483648)))
          (.enter (doubling 2147483648) []) a
        ∧ (doubling 2147483648).code[a.pc]? = some (.plain .dup2)
        ∧ (doubling 2147483648).maxStack.toNat < a.stack.length)
    ∧ (unreturned.validate = .ok ()
      ∧ ∃ p a, StackDepth.run unreturned.code unreturned.ranges = .ok p
        ∧ Relation.ReflTransGen (Activation.Moves (.ofMethod unreturned)) (.enter unreturned []) a
        ∧ p.depths[a.pc]? = none) := by
  refine ⟨⟨Doubling.validate (by decide), by rw [Doubling.size_code]; omega, ?_⟩, by decide +kernel, ?_⟩
  · have hreach (n : Nat) : Relation.ReflTransGen (Activation.Moves (.ofMethod (doubling (n + 2))))
        (.enter (doubling (n + 2)) []) ⟨3, #[], [.null, .null, .null, .null]⟩ := by
      refine .head (b := ⟨1, #[], [.null]⟩) (.next rfl) ?_
      refine .head (b := ⟨2, #[], [.null, .null]⟩) (.next rfl) ?_
      exact .single (.next rfl)
    have hcode (n : Nat) : (doubling (n + 2)).code[3]? = some (.plain .dup2) := rfl
    exact ⟨_, hreach 2147483646, hcode 2147483646, by decide⟩
  · obtain ⟨p, hp⟩ : ∃ p, StackDepth.run unreturned.code unreturned.ranges = .ok p := ⟨_, rfl⟩
    refine ⟨p, ⟨1, #[], []⟩, hp, .single (.next rfl), Array.getElem?_eq_none ?_⟩
    rw [StackDepth.run_size hp]
    decide

end Suspension
