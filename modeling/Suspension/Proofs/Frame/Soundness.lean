import Suspension.Proofs.Frame.Settled
import Suspension.Proofs.Machine.Step

/-!
# Steps keep to their frame types

The analysis and the machine interpret the same instructions independently of each other.  Here they
are compared, one instruction at a time: **if an activation holds what the frame before an instruction
says, then its step does not crash, and after the step, or after the answer to what the step asks for,
it holds what the frame behind the instruction says.**

* `Frame.Fits` — an activation holds what a frame says.
* `Instruction.WellFormed` — the operand of an instruction is of the kind that its opcode takes.
* `Request.Admits` — the answers that a request may get.
* `Step.Fine` — what a step may come to, and `Frame.Transition.fine`.
-/

namespace Suspension

/-- The operand of an instruction is of the kind that its opcode takes. -/
def Instruction.WellFormed (i : Instruction) : Prop := i.opcode.operandKind? = some i.operand.kind

/-- **An activation holds what a frame says.** -/
structure Frame.Fits (W : World) (f : Frame) (a : Activation) : Prop where
  stack : List.Forall₂ W.Holds f.stack a.stack
  locals : List.Forall₂ W.Holds f.locals.toList a.locals.toList

/-- **The answers that a request may get.**  What is read or returned is what the descriptor declares,
an element what its array declares, and `new` makes an object of the class.  A request that raises an
exception has no answer. -/
def Request.Admits (W : World) (instr : Instruction) : Request → Option Value → Prop
  | .getStatic m, r => ∃ v, r = some v ∧ W.Holds (.ofDesc m.desc) v
  | .getField _ _, r => ∃ v m, r = some v ∧ instr.operand = .member m ∧ W.Holds (.ofDesc m.desc) v
  | .getElement arr _, r => arr ≠ .null ∧ ∃ v k, r = some v ∧ instr.opcode = .arrayLoad k ∧ v.kind = k
      ∧ (k = .ref → ∀ c, W.inst arr c → W.Holds (Frame.elementType (.ref c)) v)
  | .length _, r => ∃ n, r = some (.int n)
  | .create c, r => ∃ o, r = some (.object o) ∧ W.made o c
  | .createArray elem _, r => ∃ id, r = some (.array id) ∧ W.inst (.array id) (Text.ofString "[" ++ elem)
  | .isInstance _ _, r => ∃ n, r = some (.int n)
  | .cast v c, r => r = none ∧ W.inst v c
  | .invoke _ m _ isVoid, r =>
      if isVoid then r = none
      else ∃ v, r = some v ∧ ∀ d, Descriptor.parseMethod m.desc = .ok d → W.Holds (.ofDesc d.result) v
  | .putStatic _ _, r | .putField _ _ _, r | .putElement _ _ _ _, r => r = none
  | .fail _, _ | .raise _ _, _ | .throw _, _ => False

/-- **What a step may come to** before a frame `g`: it goes on to the next instruction or to a target,
holding what `g` says; or it returns; or it asks, with its locals unchanged, and holds what `g` says
with any answer that may come. -/
def Step.Fine (W : World) (target : Label → Nat) (instr : Instruction) (a : Activation) (g : Frame) :
    Step → Prop
  | .next a' => g.Fits W a' ∧
      ((a'.pc = a.pc + 1 ∧ instr.opcode.endsBlock = false) ∨ ∃ id ∈ instr.targets, a'.pc = target id)
  | .returns _ => instr.opcode.isReturn = true
  | .asks r a' => a'.pc = a.pc ∧ a'.locals = a.locals ∧
      ∀ W', W.Later W' → ∀ v, r.Admits W' instr v →
        instr.opcode.endsBlock = false ∧ g.Fits W' (a'.answered v)
  | .crash | .fellOff => False

namespace Frame

variable {W W' : World} {f g : Frame} {a : Activation} {target : Label → Nat} {instr : Instruction}

lemma forall₂_later {W W' : World} (hW : W.Later W') {ts : List SlotType} {vs : List Value}
    (h : List.Forall₂ W.Holds ts vs) : List.Forall₂ W'.Holds ts vs :=
  h.imp fun _ _ hv => hv.later hW

/-- What holds of a stack holds of its upper and its lower part. -/
lemma forall₂_append_left {R : SlotType → Value → Prop} {ts us : List SlotType} {vs : List Value}
    (h : List.Forall₂ R (ts ++ us) vs) :
    ∃ xs ys, vs = xs ++ ys ∧ List.Forall₂ R ts xs ∧ List.Forall₂ R us ys := by
  induction ts generalizing vs with
  | nil => exact ⟨[], vs, rfl, .nil, h⟩
  | cons t ts ih =>
      cases h with
      | cons hv h =>
          obtain ⟨xs, ys, rfl, hxs, hys⟩ := ih h
          exact ⟨_ :: xs, ys, rfl, .cons hv hxs, hys⟩

/-! ## Plain instructions -/

/-- A step on the upper part of the stack decides the step on the whole stack. -/
lemma fine_over {locals : Array SlotType} {put rest : List SlotType} {vs vrest : List Value}
    {pc : Nat} {L : Array Value} {s : Step}
    (h : s.Fine W target instr ⟨pc, L, vs⟩ ⟨locals, put⟩)
    (hrest : List.Forall₂ W.Holds rest vrest) :
    (s.over vrest).Fine W target instr ⟨pc, L, vs ++ vrest⟩ ⟨locals, put ++ rest⟩ := by
  cases s with
  | next a' => exact ⟨⟨List.rel_append h.1.stack hrest, h.1.locals⟩, h.2⟩
  | returns v => exact h
  | asks r a' =>
      obtain ⟨hpc, hlocals, hanswer⟩ := h
      refine ⟨hpc, hlocals, fun W' hW v hv => ?_⟩
      obtain ⟨hend, hfits⟩ := hanswer W' hW v hv
      refine ⟨hend, ?_, hfits.locals⟩
      have := List.rel_append hfits.stack (forall₂_later hW hrest)
      simpa [Activation.answered] using this
  | crash => exact h
  | fellOff => exact h

/-! ### Instructions with a fixed effect -/

/-- The kinds of slots are those of their values. -/
lemma map_kind {ts : List SlotType} {vs : List Value} {ks : List Kind}
    (h : List.Forall₂ W.Holds ts vs) (hk : ts.map SlotType.kind? = ks.map some) :
    vs.map Value.kind = ks := by
  induction h generalizing ks with
  | nil =>
      cases ks with
      | nil => rfl
      | cons k ks => cases hk
  | cons hv _ ih =>
      cases ks with
      | nil => cases hk
      | cons k ks =>
          simp only [List.map_cons, List.cons.injEq] at hk
          rw [List.map_cons, hv.kind hk.1, ih hk.2]

/-- The outcomes of steps that push a value, go on or branch. -/
lemma fine_result {locals : Array SlotType} {t : SlotType} {v : Value}
    (hend : instr.opcode.endsBlock = false) (hlocals : List.Forall₂ W.Holds locals.toList a.locals.toList)
    (hv : W.Holds t v) : (a.result [] v).Fine W target instr a ⟨locals, [t]⟩ :=
  ⟨⟨.cons hv .nil, hlocals⟩, Or.inl ⟨rfl, hend⟩⟩

lemma fine_goOn {locals : Array SlotType} (hend : instr.opcode.endsBlock = false)
    (hlocals : List.Forall₂ W.Holds locals.toList a.locals.toList) :
    (a.goOn []).Fine W target instr a ⟨locals, []⟩ :=
  ⟨⟨.nil, hlocals⟩, Or.inl ⟨rfl, hend⟩⟩

lemma fine_ask {locals : Array SlotType} {put : List SlotType} {r : Request}
    (hlocals : List.Forall₂ W.Holds locals.toList a.locals.toList)
    (h : ∀ W', W.Later W' → ∀ v, r.Admits W' instr v →
      instr.opcode.endsBlock = false ∧ List.Forall₂ W'.Holds put v.toList) :
    (a.ask [] r).Fine W target instr a ⟨locals, put⟩ := by
  refine ⟨rfl, rfl, fun W' hW v hv => ?_⟩
  obtain ⟨hend, hput⟩ := h W' hW v hv
  refine ⟨hend, ?_, forall₂_later hW hlocals⟩
  simpa [Activation.answered] using hput

lemma fine_branch {locals : Array SlotType} {taken : Bool}
    (hwf : ∃ id, instr.operand = .label id ∧ instr.opcode ≠ .label)
    (hend : instr.opcode.endsBlock = false ∨ taken = true)
    (hlocals : List.Forall₂ W.Holds locals.toList a.locals.toList) :
    (a.branch target [] instr.operand taken).Fine W target instr a ⟨locals, []⟩ := by
  obtain ⟨id, ho, hop⟩ := hwf
  unfold Activation.branch
  rw [ho]
  split
  · refine ⟨⟨.nil, hlocals⟩, Or.inr ⟨id, ?_, rfl⟩⟩
    simp [Instruction.targets, ho, hop]
  · next htaken => exact fine_goOn (hend.resolve_right htaken) hlocals

/-- Arithmetic on values of the right kind has a result of that kind, or divides by zero. -/
lemma arith_kind {op : Arith} {n : Numeric} {x y : Value} (hx : x.kind = n.kind)
    (hy : y.kind = n.kind) :
    (∃ v, Value.arith op n x y = .ok v ∧ v.kind = n.kind) ∨
      Value.arith op n x y = .error .divisionByZero := by
  cases n <;> cases x <;> cases hx <;> cases y <;> cases hy
  · simp only [Value.arith, Value.intArith]
    cases op <;> try exact Or.inl ⟨_, rfl, rfl⟩
    simp only
    split
    · exact Or.inr rfl
    · exact Or.inl ⟨_, rfl, rfl⟩
  · simp only [Value.arith, Value.longArith]
    cases op <;> try exact Or.inl ⟨_, rfl, rfl⟩
    simp only
    split
    · exact Or.inr rfl
    · exact Or.inl ⟨_, rfl, rfl⟩
  · exact Or.inl ⟨_, rfl, rfl⟩
  · exact Or.inl ⟨_, rfl, rfl⟩

lemma rem_kind {x y : Value} {k : Kind} (hk : k = .int ∨ k = .long) (hx : x.kind = k)
    (hy : y.kind = k) : (∃ v, Value.rem x y = .ok v ∧ v.kind = k) ∨
      Value.rem x y = .error .divisionByZero := by
  rcases hk with rfl | rfl
  all_goals
    cases x <;> cases hx
    cases y <;> cases hy
    simp only [Value.rem]
    split
    · exact Or.inr rfl
    · exact Or.inl ⟨_, rfl, rfl⟩

lemma convert_kind {c : Conversion} {v : Value} (hv : v.kind = c.kinds.1) :
    ∃ w, Value.convert c v = some w ∧ w.kind = c.kinds.2 := by
  cases c <;> cases v <;> cases hv <;> exact ⟨_, rfl, rfl⟩

lemma fine_arithResult {locals : Array SlotType} {r : Except Value.ArithFault Value} {k : Kind}
    (hk : k ≠ .ref) (hend : instr.opcode.endsBlock = false)
    (hlocals : List.Forall₂ W.Holds locals.toList a.locals.toList)
    (h : (∃ v, r = .ok v ∧ v.kind = k) ∨ r = .error .divisionByZero) :
    (a.arithResult [] r).Fine W target instr a ⟨locals, [.ofKind k]⟩ := by
  rcases h with ⟨v, rfl, hv⟩ | rfl
  · exact fine_result hend hlocals (World.holds_ofKind hv fun h => absurd h hk)
  · exact fine_ask hlocals fun W' hW v hv => hv.elim

/-- A well-formed jump has a label. -/
lemma label_operand (hwf : instr.WellFormed) (hop : instr.opcode.operandKind? = some .label)
    (hne : instr.opcode ≠ .label) : ∃ id, instr.operand = .label id ∧ instr.opcode ≠ .label := by
  unfold Instruction.WellFormed at hwf
  rw [hop, Option.some.injEq] at hwf
  cases ho : instr.operand with
  | label id => exact ⟨id, rfl, hne⟩
  | _ => simp [ho, Operand.kind] at hwf

/-- **An instruction with a fixed effect** on values of the right kinds. -/
lemma fixed_fine {locals : Array SlotType} {e : StackEffect} {pc : Nat} {L : Array Value}
    {vs : List Value} (hwf : instr.WellFormed) (hop : instr.opcode.hasFixedEffect = true)
    (he : instr.opcode.effect? = some e) (hvs : vs.map Value.kind = e.pops.reverse)
    (hlocals : List.Forall₂ W.Holds locals.toList L.toList) :
    (Activation.execute target ⟨pc, L, vs⟩ instr).Fine W target instr ⟨pc, L, vs⟩
      ⟨locals, (e.pushes.map SlotType.ofKind).reverse⟩ := by
  obtain ⟨op, operand⟩ := instr
  cases op <;> simp only [Opcode.hasFixedEffect, Bool.false_eq_true] at hop
  all_goals cases he
  all_goals
    simp only [List.reverse_cons, List.reverse_nil, List.nil_append, List.cons_append,
      List.map_eq_nil_iff, List.map_eq_cons_iff] at hvs
  case const n =>
    subst hvs
    cases n <;> cases operand <;> simp only [Instruction.WellFormed, Opcode.operandKind?,
      Operand.kind, reduceCtorEq, Option.some.injEq] at hwf
    all_goals exact fine_result rfl hlocals rfl
  case goto =>
    subst hvs
    exact fine_branch (label_operand hwf rfl (by simp)) (Or.inr rfl) hlocals
  case returnVoid => exact rfl
  -- one value
  case returnValue =>
    obtain ⟨v, vs, rfl, -, rfl⟩ := hvs
    exact rfl
  case intNeg | longNeg =>
    obtain ⟨v, vs, rfl, hv, rfl⟩ := hvs
    cases v <;> cases hv
    exact fine_result rfl hlocals rfl
  case convert c =>
    obtain ⟨v, vs, rfl, hv, rfl⟩ := hvs
    obtain ⟨w, hw, hkind⟩ := convert_kind hv
    simp only [Activation.execute, hw]
    refine fine_result rfl hlocals (World.holds_ofKind hkind fun h => ?_)
    cases c <;> cases h
  case ifInt =>
    obtain ⟨v, vs, rfl, hv, rfl⟩ := hvs
    cases v <;> cases hv
    exact fine_branch (label_operand hwf rfl (by simp)) (Or.inl rfl) hlocals
  case ifNull | ifNonNull =>
    obtain ⟨v, vs, rfl, -, rfl⟩ := hvs
    exact fine_branch (label_operand hwf rfl (by simp)) (Or.inl rfl) hlocals
  case tableSwitch =>
    obtain ⟨v, vs, rfl, hv, rfl⟩ := hvs
    cases v <;> cases hv
    cases operand <;> simp only [Instruction.WellFormed, Opcode.operandKind?, Operand.kind,
      reduceCtorEq, Option.some.injEq] at hwf
    next x low labels default =>
    simp only [Activation.execute, Activation.switch]
    split
    · refine ⟨⟨.nil, hlocals⟩, Or.inr ⟨_, ?_, rfl⟩⟩
      simp only [Instruction.targets, List.mem_append, List.mem_singleton]
      rw [List.getD_eq_getElem?_getD]
      cases hl : labels[(x.toInt - low.toInt).toNat]? with
      | none => exact Or.inr rfl
      | some id => exact Or.inl (List.mem_of_getElem? hl)
    · exact ⟨⟨.nil, hlocals⟩, Or.inr ⟨default, by simp [Instruction.targets], rfl⟩⟩
  case arrayLength =>
    obtain ⟨v, vs, rfl, -, rfl⟩ := hvs
    refine fine_ask hlocals fun W' hW r hr => ⟨rfl, ?_⟩
    obtain ⟨n, rfl⟩ := hr
    exact .cons rfl .nil
  case throw =>
    obtain ⟨v, vs, rfl, hv, rfl⟩ := hvs
    cases v <;> exact fine_ask hlocals fun W' hW r hr => hr.elim
  case monitorEnter | monitorExit =>
    obtain ⟨v, vs, rfl, hv, rfl⟩ := hvs
    simp only [Activation.execute]
    split
    · exact fine_ask hlocals fun W' hW r hr => hr.elim
    · exact fine_goOn rfl hlocals
  case instanceOf =>
    obtain ⟨v, vs, rfl, hv, rfl⟩ := hvs
    cases operand <;> simp only [Instruction.WellFormed, Opcode.operandKind?, Operand.kind,
      reduceCtorEq, Option.some.injEq] at hwf
    simp only [Activation.execute, Activation.typed]
    split
    · exact fine_result rfl hlocals rfl
    · refine fine_ask hlocals fun W' hW r hr => ⟨rfl, ?_⟩
      obtain ⟨n, rfl⟩ := hr
      exact .cons rfl .nil
  -- two values
  case arith op n =>
    obtain ⟨y, vs, rfl, hy, x, vs, rfl, hx, rfl⟩ := hvs
    refine fine_arithResult ?_ rfl hlocals (arith_kind hx hy)
    cases n <;> simp [Numeric.kind]
  case intRem | longRem =>
    obtain ⟨y, vs, rfl, hy, x, vs, rfl, hx, rfl⟩ := hvs
    have hrem := rem_kind (by simp) hx hy
    cases x <;> cases hx
    cases y <;> cases hy
    exact fine_arithResult (by simp) rfl hlocals hrem
  case longCompare | floatCompare | doubleCompare =>
    obtain ⟨y, vs, rfl, hy, x, vs, rfl, hx, rfl⟩ := hvs
    cases x <;> cases hx
    cases y <;> cases hy
    exact fine_result rfl hlocals rfl
  case ifInts =>
    obtain ⟨y, vs, rfl, hy, x, vs, rfl, hx, rfl⟩ := hvs
    cases x <;> cases hx
    cases y <;> cases hy
    exact fine_branch (label_operand hwf rfl (by simp)) (Or.inl rfl) hlocals
  case ifSame | ifNotSame =>
    obtain ⟨y, vs, rfl, -, x, vs, rfl, -, rfl⟩ := hvs
    exact fine_branch (label_operand hwf rfl (by simp)) (Or.inl rfl) hlocals
  case arrayLoad k =>
    obtain ⟨i, vs, rfl, hi, arr, vs, rfl, -, rfl⟩ := hvs
    cases i <;> cases hi
    refine fine_ask hlocals fun W' hW r hr => ⟨rfl, ?_⟩
    obtain ⟨-, v, k', rfl, hk', hv, -⟩ := hr
    cases hk'
    refine .cons (World.holds_ofKind hv fun h => ?_) .nil
    subst h
    simp at hop
  -- three values
  case arrayStore =>
    obtain ⟨v, vs, rfl, -, i, vs, rfl, hi, arr, vs, rfl, -, rfl⟩ := hvs
    cases i <;> cases hi
    refine fine_ask hlocals fun W' hW r hr => ⟨rfl, ?_⟩
    cases hr
    exact .nil

/-! ### Other plain instructions -/

lemma forall₂_getElem? {R : SlotType → Value → Prop} {ts : Array SlotType} {vs : Array Value}
    (h : List.Forall₂ R ts.toList vs.toList) {n : Nat} {t : SlotType} (ht : ts[n]? = some t) :
    ∃ v, vs[n]? = some v ∧ R t v := by
  have hlen := h.length_eq
  simp only [Array.length_toList] at hlen
  obtain ⟨hn, rfl⟩ := Array.getElem?_eq_some_iff.mp ht
  refine ⟨vs[n], Array.getElem?_eq_getElem (hlen ▸ hn), ?_⟩
  have := h.get (i := n) (by simpa using hn) (by simpa using hlen ▸ hn)
  simpa using this

lemma forall₂_set_both {R : SlotType → Value → Prop} {ts : Array SlotType} {vs : Array Value}
    (h : List.Forall₂ R ts.toList vs.toList) {n : Nat} {t : SlotType} {v : Value} (hv : R t v) :
    List.Forall₂ R (ts.set! n t).toList (vs.set! n v).toList := by
  have hlen := h.length_eq
  refine List.forall₂_iff_get.mpr ⟨by simpa using hlen, fun i h₁ h₂ => ?_⟩
  have hget := (List.forall₂_iff_get.mp h).2 i (by simpa using h₁) (by simpa using h₂)
  by_cases hi : n = i
  · subst hi
    simpa using hv
  · simpa [hi, Array.getElem_set] using hget

lemma forall₂_set {R : SlotType → Value → Prop} {ts : Array SlotType} {vs : Array Value}
    (h : List.Forall₂ R ts.toList vs.toList) {n : Nat} {t : SlotType} {v : Value}
    (ht : ts[n]? = some t) (hv : R t v) : List.Forall₂ R ts.toList (vs.set! n v).toList := by
  have hself : ts.set! n t = ts := by
    obtain ⟨hn, rfl⟩ := Array.getElem?_eq_some_iff.mp ht
    simp [Array.setIfInBounds, hn]
  rw [← hself]
  exact forall₂_set_both h hv

lemma forall₂_one {R : SlotType → Value → Prop} {t : SlotType} {vs : List Value}
    (h : List.Forall₂ R [t] vs) : ∃ v, vs = [v] ∧ R t v := by
  cases h with
  | cons hv h =>
      cases h
      exact ⟨_, rfl, hv⟩

lemma forall₂_pair {R : SlotType → Value → Prop} {t u : SlotType} {vs : List Value}
    (h : List.Forall₂ R [t, u] vs) : ∃ v w, vs = [v, w] ∧ R t v ∧ R u w := by
  cases h with
  | cons hv h =>
      obtain ⟨w, rfl, hw⟩ := forall₂_one h
      exact ⟨_, w, rfl, hv, hw⟩

/-- What is not null and known as a reference belongs to the class that its slot names. -/
lemma exists_inst {t : SlotType} {v : Value} (h : W.Holds t v) (hk : t.kind? = some .ref)
    (hv : v ≠ .null) : ∃ c, elementType t = elementType (.ref c) ∧ W.inst v c := by
  cases t with
  | ref c => exact ⟨c, rfl, h.2.resolve_left hv⟩
  | pending n c copied =>
      obtain ⟨o, rfl, ho⟩ := h
      exact ⟨c, rfl, W.inst_of_made ho⟩
  | _ => simp [SlotType.kind?] at hk

lemma invoke_eq {mode : InvokeMode} {m : Member} {d : Descriptor.Method} {pc : Nat}
    {L : Array Value} {vs : List Value} (hd : Descriptor.parseMethod m.desc = .ok d)
    (hlen : vs.length = d.params.length + (if mode == .static then 0 else 1)) :
    Activation.invoke ⟨pc, L, vs⟩ mode (.member m)
      = Activation.ask ⟨pc, L, vs⟩ [] (.invoke mode m vs.reverse d.isVoid) := by
  simp only [Activation.invoke, hd]
  rw [← hlen, if_neg (Nat.lt_irrefl _), List.drop_length, List.take_length]

/-- The answer to a call is what the descriptor says it is. -/
lemma admits_invoke {mode : InvokeMode} {m : Member} {d : Descriptor.Method} {args : List Value}
    {r : Option Value} (hd : Descriptor.parseMethod m.desc = .ok d)
    (h : (Request.invoke mode m args d.isVoid).Admits W instr r) :
    List.Forall₂ W.Holds (if d.isVoid then [] else [.ofDesc d.result]) r.toList := by
  simp only [Request.Admits] at h
  split at h
  · next hvoid =>
      subst h
      rw [if_pos hvoid]
      exact .nil
  · next hvoid =>
      obtain ⟨v, rfl, hv⟩ := h
      rw [if_neg hvoid]
      exact .cons (hv d hd) .nil

/-- A new array of whatever elements. -/
lemma fine_createArray {locals : Array SlotType} {ofClass : Bool} {cls : Text} {v : Value} {pc : Nat}
    {L : Array Value} (hend : instr.opcode.endsBlock = false)
    (hlocals : List.Forall₂ W.Holds locals.toList L.toList) (hv : v.kind = .int) :
    (Activation.createArray ⟨pc, L, [v]⟩ ofClass (.type cls)).Fine W target instr ⟨pc, L, [v]⟩
      ⟨locals, [.ref (Text.ofString "[" ++ if ofClass then Descriptor.ofClass cls else cls)]⟩ := by
  cases v <;> cases hv
  next n =>
  simp only [Activation.createArray]
  by_cases hneg : n < 0
  · rw [if_pos hneg]
    exact fine_ask hlocals fun W' hW r hr => hr.elim
  · rw [if_neg hneg]
    refine fine_ask hlocals fun W' hW r hr => ⟨hend, ?_⟩
    obtain ⟨id, rfl, hid⟩ := hr
    exact .cons ⟨rfl, Or.inr hid⟩ .nil

/-- **A plain instruction** on the values that it takes. -/
lemma Shape.fine {locals : Array SlotType} {used put : List SlotType} {pc : Nat} {L : Array Value}
    {vs : List Value} (h : Shape instr locals used put) (hwf : instr.WellFormed)
    (hused : List.Forall₂ W.Holds used vs)
    (hlocals : List.Forall₂ W.Holds locals.toList L.toList) :
    (Activation.execute target ⟨pc, L, vs⟩ instr).Fine W target instr ⟨pc, L, vs⟩ ⟨locals, put⟩ := by
  cases h with
  | fixed hop he hk =>
      refine fixed_fine hwf hop he (map_kind hused ?_) hlocals
      rw [hk]
  | idle hop =>
      cases hused
      have hstep : Activation.execute target ⟨pc, L, []⟩ instr = Activation.goOn ⟨pc, L, []⟩ [] := by
        rcases hop with hop | hop <;> simp only [Activation.execute, hop]
      rw [hstep]
      exact fine_goOn (by rcases hop with hop | hop <;> simp [hop, Opcode.endsBlock]) hlocals
  | null hop =>
      cases hused
      simp only [Activation.execute, hop]
      exact fine_result (by simp [hop, Opcode.endsBlock]) hlocals World.holds_null
  | text hop =>
      cases hused
      cases ho : instr.operand <;> simp only [Instruction.WellFormed, hop, ho, Opcode.operandKind?,
        Operand.kind, reduceCtorEq, Option.some.injEq] at hwf
      simp only [Activation.execute, hop, ho]
      exact fine_result (by simp [hop, Opcode.endsBlock]) hlocals ⟨rfl, Or.inr (W.inst_text _)⟩
  | load hop ho ht hk =>
      cases hused
      obtain ⟨v, hv, hholds⟩ := forall₂_getElem? hlocals ht
      simp only [Activation.execute, hop, ho, Activation.load, hv]
      exact fine_result (by simp [hop, Opcode.endsBlock]) hlocals hholds
  | increment hop ho ht hk =>
      next n delta t =>
      cases hused
      obtain ⟨v, hv, hholds⟩ := forall₂_getElem? hlocals ht
      have hkind := hholds.kind hk
      cases v <;> cases hkind
      next x =>
      simp only [Activation.execute, hop, ho, Activation.increment, hv]
      refine ⟨⟨.nil, ?_⟩, Or.inl ⟨rfl, by simp [hop, Opcode.endsBlock]⟩⟩
      exact forall₂_set hlocals ht (World.holds_of_kind hk (by simp) rfl)
  | element hop hi ha =>
      next i arr =>
      obtain ⟨iv, av, rfl, hiv, hav⟩ := forall₂_pair hused
      have hkind := hiv.kind hi
      cases iv <;> cases hkind
      simp only [Activation.execute, hop]
      refine fine_ask hlocals fun W' hW r hr => ⟨by simp [hop, Opcode.endsBlock], ?_⟩
      obtain ⟨hne, v, k, rfl, hk, hv, helem⟩ := hr
      rw [hop] at hk
      cases hk
      refine .cons ?_ .nil
      obtain ⟨c, hc, hinst⟩ := exists_inst (hav.later hW) ha hne
      rw [hc]
      exact helem rfl c hinst
  | array hop ho hn | refArray hop ho hn =>
      obtain ⟨nv, rfl, hnv⟩ := forall₂_one hused
      simp only [Activation.execute, hop, ho]
      exact fine_createArray (by simp [hop, Opcode.endsBlock]) hlocals (hnv.kind hn)
  | cast hop ho ht =>
      next t cls =>
      obtain ⟨v, rfl, hv⟩ := forall₂_one hused
      simp only [Activation.execute, hop, Activation.typed, ho]
      by_cases hnull : v.isNull = true
      · rw [if_pos hnull]
        have hvnull : v = .null := by cases v <;> simp_all [Value.isNull]
        refine fine_result (by simp [hop, Opcode.endsBlock]) hlocals ?_
        split
        · exact hv
        · exact hvnull ▸ World.holds_ref_null cls
      · rw [if_neg hnull]
        have htnull : t.isNull = false := by
          by_contra htn
          simp only [Bool.not_eq_false, SlotType.isNull, beq_iff_eq] at htn
          subst htn
          exact hnull (by rw [hv.eq_null]; rfl)
        refine ⟨rfl, rfl, fun W' hW r hr => ⟨by simp [hop, Opcode.endsBlock], ?_, ?_⟩⟩
        · obtain ⟨rfl, hinst⟩ := hr
          rw [htnull]
          exact .cons ⟨hv.kind ht, Or.inr hinst⟩ .nil
        · exact forall₂_later hW hlocals
  | pop hop =>
      obtain ⟨v, rfl, hv⟩ := forall₂_one hused
      simp only [Activation.execute, hop, Activation.shuffle]
      exact fine_goOn (by simp [hop, Opcode.endsBlock]) hlocals
  | pop2 hop =>
      obtain ⟨v, w, rfl, hv, hw⟩ := forall₂_pair hused
      simp only [Activation.execute, hop, Activation.shuffle]
      exact fine_goOn (by simp [hop, Opcode.endsBlock]) hlocals
  | dup hop =>
      obtain ⟨v, rfl, hv⟩ := forall₂_one hused
      simp only [Activation.execute, hop, Activation.shuffle]
      exact ⟨⟨.cons hv (.cons hv .nil), hlocals⟩, Or.inl ⟨rfl, by simp [hop, Opcode.endsBlock]⟩⟩
  | dupX1 hop =>
      obtain ⟨v, w, rfl, hv, hw⟩ := forall₂_pair hused
      simp only [Activation.execute, hop, Activation.shuffle]
      exact ⟨⟨.cons hv (.cons hw (.cons hv .nil)), hlocals⟩,
        Or.inl ⟨rfl, by simp [hop, Opcode.endsBlock]⟩⟩
  | dupX2 hop =>
      cases hused with
      | cons hv hused =>
          obtain ⟨w, u, rfl, hw, hu⟩ := forall₂_pair hused
          simp only [Activation.execute, hop, Activation.shuffle]
          exact ⟨⟨.cons hv (.cons hw (.cons hu (.cons hv .nil))), hlocals⟩,
            Or.inl ⟨rfl, by simp [hop, Opcode.endsBlock]⟩⟩
  | dup2 hop =>
      obtain ⟨v, w, rfl, hv, hw⟩ := forall₂_pair hused
      simp only [Activation.execute, hop, Activation.shuffle]
      exact ⟨⟨.cons hv (.cons hw (.cons hv (.cons hw .nil))), hlocals⟩,
        Or.inl ⟨rfl, by simp [hop, Opcode.endsBlock]⟩⟩
  | swap hop =>
      obtain ⟨v, w, rfl, hv, hw⟩ := forall₂_pair hused
      simp only [Activation.execute, hop, Activation.shuffle]
      exact ⟨⟨.cons hw (.cons hv .nil), hlocals⟩, Or.inl ⟨rfl, by simp [hop, Opcode.endsBlock]⟩⟩
  | getStatic hop ho =>
      cases hused
      simp only [Activation.execute, hop, Activation.field, ho]
      refine fine_ask hlocals fun W' hW r hr => ⟨by simp [hop, Opcode.endsBlock], ?_⟩
      obtain ⟨v, rfl, hv⟩ := hr
      exact .cons hv .nil
  | putStatic hop ho ht =>
      obtain ⟨v, rfl, hv⟩ := forall₂_one hused
      simp only [Activation.execute, hop, Activation.field, ho]
      refine fine_ask hlocals fun W' hW r hr => ⟨by simp [hop, Opcode.endsBlock], ?_⟩
      cases hr
      exact .nil
  | getField hop ho hobj =>
      obtain ⟨obj, rfl, -⟩ := forall₂_one hused
      simp only [Activation.execute, hop, Activation.field, ho]
      refine fine_ask hlocals fun W' hW r hr => ⟨by simp [hop, Opcode.endsBlock], ?_⟩
      obtain ⟨v, m', rfl, hm', hv⟩ := hr
      rw [ho] at hm'
      cases hm'
      exact .cons hv .nil
  | putField hop ho ht hobj =>
      obtain ⟨v, obj, rfl, -, -⟩ := forall₂_pair hused
      simp only [Activation.execute, hop, Activation.field, ho]
      refine fine_ask hlocals fun W' hW r hr => ⟨by simp [hop, Opcode.endsBlock], ?_⟩
      cases hr
      exact .nil
  | call hop ho hd hargs hrecv =>
      have hlen := hused.length_eq
      have h₁ := congrArg List.length hargs
      have h₂ := congrArg List.length hrecv
      simp only [List.length_map, List.length_reverse] at h₁ h₂
      rw [List.length_append, h₁, h₂] at hlen
      simp only [Activation.execute, hop, ho]
      rw [invoke_eq hd]
      · exact fine_ask hlocals fun W' hW r hr =>
          ⟨by simp [hop, Opcode.endsBlock], admits_invoke hd hr⟩
      · rw [← hlen]
        simp only [beq_iff_eq]
        split <;> rfl

/-! ## Whole frames -/

lemma forall₂_comp {R : SlotType → SlotType → Prop} {S : SlotType → Value → Prop}
    (hRS : ∀ t u v, R t u → S t v → S u v) {ts us : List SlotType} {vs : List Value}
    (hR : List.Forall₂ R ts us) (hS : List.Forall₂ S ts vs) : List.Forall₂ S us vs := by
  induction hR generalizing vs with
  | nil => exact hS
  | cons htu _ ih =>
      cases hS with
      | cons hv hrest => exact .cons (hRS _ _ _ htu hv) (ih hrest)

/-- A completed construction is an ordinary reference. -/
lemma holds_completed {n : Nat} {t : SlotType} {v : Value} (h : W.Holds t v) :
    W.Holds (completed n t) v := by
  cases t with
  | pending s cls copied =>
      simp only [completed]
      split
      · obtain ⟨o, rfl, ho⟩ := h
        exact ⟨rfl, Or.inr (W.inst_of_made ho)⟩
      · exact h
  | _ => exact h

lemma forall₂_completed {n : Nat} {ts : List SlotType} {vs : List Value}
    (h : List.Forall₂ W.Holds ts vs) : List.Forall₂ W.Holds (ts.map (completed n)) vs := by
  rw [List.forall₂_map_left_iff]
  exact h.imp fun _ _ hv => holds_completed hv

/-- **A step keeps to the frame types.** -/
lemma Transition.fine {sites : List Site} {position : Nat}
    (h : Transition sites position instr f g) (hwf : instr.WellFormed) (hf : f.Fits W a) :
    (a.execute target instr).Fine W target instr a g := by
  obtain ⟨pc, L, stack⟩ := a
  obtain ⟨hstack, hlocals⟩ := hf
  simp only at hstack hlocals
  cases h with
  | plain hs shape free =>
      rw [hs] at hstack
      obtain ⟨vs, vrest, rfl, hvs, hvrest⟩ := forall₂_append_left hstack
      rw [Activation.execute_over shape.delta (Nat.le_of_eq hvs.length_eq)]
      exact fine_over (shape.fine hwf hvs hlocals) hvrest
  | store hop ho hs hn hk free =>
      next k n t rest =>
      rw [hs] at hstack
      cases hstack with
      | cons hv hrest =>
          next v vs =>
          have hsize : n.toNat < L.size := by
            have := hlocals.length_eq
            simp only [Array.length_toList] at this
            omega
          simp only [Activation.execute, hop, ho, Activation.store, if_pos hsize]
          refine ⟨⟨hrest, ?_⟩, Or.inl ⟨rfl, by simp [hop, Opcode.endsBlock]⟩⟩
          exact forall₂_set_both hlocals hv
  | begin hop ho =>
      simp only [Activation.execute, hop, Activation.typed, ho]
      refine ⟨rfl, rfl, fun W' hW r hr => ⟨by simp [hop, Opcode.endsBlock], ?_, ?_⟩⟩
      · obtain ⟨o, rfl, ho⟩ := hr
        exact .cons ⟨o, rfl, ho⟩ (forall₂_later hW hstack)
      · exact forall₂_later hW hlocals
  | copy hop hs hc =>
      rw [hs] at hstack ⊢
      cases hstack with
      | cons hv hrest =>
          simp only [Activation.execute, hop, Activation.shuffle]
          exact ⟨⟨.cons hv (.cons hv hrest), hlocals⟩,
            Or.inl ⟨rfl, by simp [hop, Opcode.endsBlock]⟩⟩
  | construct hop ho hname hd hs hargs free hpair =>
      next m d args rest n cls copied =>
      rw [hs] at hstack
      obtain ⟨vs, vrest, rfl, hvs, hvrest⟩ := forall₂_append_left hstack
      cases hvrest with
      | cons hrecv hvrest =>
          next obj vrest =>
          have hlen := congrArg List.length hargs
          simp only [List.length_map, List.length_reverse] at hlen
          have hcall : Activation.execute target ⟨pc, L, vs ++ obj :: vrest⟩ instr
              = Activation.ask ⟨pc, L, vs ++ obj :: vrest⟩ vrest
                (.invoke .special m (vs ++ [obj]).reverse d.isVoid) := by
            have happ : vs ++ obj :: vrest = (vs ++ [obj]) ++ vrest := by simp
            have hn : d.params.length + (if InvokeMode.special == .static then 0 else 1)
                = (vs ++ [obj]).length := by
              rw [← hlen, hvs.length_eq]
              simp
            simp only [Activation.execute, hop, ho]
            rw [happ]
            rw [Activation.invoke_over hd (Nat.le_of_eq hn), invoke_eq hd hn.symm]
            rfl
          rw [hcall]
          refine ⟨rfl, rfl, fun W' hW r hr => ⟨by simp [hop, Opcode.endsBlock], ?_, ?_⟩⟩
          · exact List.rel_append (admits_invoke hd hr) (forall₂_completed (forall₂_later hW hvrest))
          · rw [Array.toList_map]
            exact forall₂_completed (forall₂_later hW hlocals)

/-- A static field is only written when there is something to write. -/
lemma Transition.stack_ne_nil {sites : List Site} {position : Nat}
    (h : Transition sites position instr f g) (hop : instr.opcode = .putStatic) : f.stack ≠ [] := by
  cases h with
  | plain hs shape free =>
      rw [hs]
      cases shape <;> simp_all [Opcode.effect?]
  | store hop' | begin hop' | copy hop' | construct hop' =>
      rw [hop] at hop'
      cases hop'

/-- **The local that an instruction changes** is one of the frame. -/
lemma Transition.changes_lt {sites : List Site} {position : Nat}
    (h : Transition sites position instr f g) {n : UInt32} (hn : instr.changes? = some n) :
    n.toNat < f.locals.size := by
  unfold Instruction.changes? at hn
  split at hn
  · next k i hop ho =>
      cases hn
      cases h with
      | store hop' ho' hs hlt hk free =>
          rw [ho] at ho'
          cases ho'
          exact hlt
      | plain hs shape free => cases shape <;> simp_all [Opcode.hasFixedEffect]
      | begin hop' | copy hop' | construct hop' => simp_all
  · next i delta hop ho =>
      cases hn
      cases h with
      | plain hs shape free =>
          cases shape with
          | increment hop' ho' ht hk =>
              rw [ho] at ho'
              cases ho'
              exact (Array.getElem?_eq_some_iff.mp ht).1
          | _ => simp_all [Opcode.hasFixedEffect]
      | _ => simp_all
  · cases hn

/-- What fits a frame fits every frame above it. -/
lemma Fits.mono {sites : List Site} (hf : f.Fits W a) (hle : Frame.Le W.toClasses sites f g) :
    g.Fits W a where
  stack := by
    refine forall₂_comp (fun t u v hle hv => ?_) hle.stack hf.stack
    exact hv.mono hle
  locals := by
    refine forall₂_comp (fun t u v hle hv => ?_) hle.locals hf.locals
    rcases hle with hle | ⟨-, rfl⟩
    · exact hv.mono hle
    · trivial

end Frame

/-! ## Whole methods -/

namespace FrameTypes

variable {W W' : World} {T : FrameTypes} {a : Activation} {owner : Text} {m : Method}

/-- **An activation holds what the frame types of its method say.** -/
def Fits (W : World) (T : FrameTypes) (a : Activation) : Prop :=
  ∃ f, T.frames[a.pc]? = some (some f) ∧ f.Fits W a

lemma Reaches.fits {f : Frame} (h : T.Reaches W.toClasses f a.pc) (hf : f.Fits W a) : T.Fits W a := by
  obtain ⟨g, hg, hle⟩ := h
  exact ⟨g, hg, hf.mono hle⟩

/-- **What a step of a method may come to**: it goes on, returns, or asks; whatever answers what it
asks for, or catches what comes of it, it still holds what the frame types say. -/
def StepFine (W : World) (T : FrameTypes) (m : Method) (instr : Instruction) (a : Activation) :
    Step → Prop
  | .next a' => T.Fits W a'
  | .returns _ => True
  | .asks r a' => a'.pc = a.pc ∧ (∀ W', W.Later W' → ∀ v, r.Admits W' instr v → T.Fits W' (a'.answered v))
      ∧ ∀ W', W.Later W' → ∀ catches obj pc, (Body.ofMethod m).handlerFor catches a'.pc = some pc →
        (∀ x ∈ m.ranges, (x.type.isEmpty || catches x.type) = true →
          W'.inst (.object obj) (Analysis.caughtClass x)) → T.Fits W' (a'.caught pc obj)
  | .crash | .fellOff => False

/-- **One step of a method whose frame types are certified.** -/
lemma Certified.step_fine (hT : T.Certified W.toClasses owner m)
    (hwf : ∀ i ∈ m.code, Instruction.WellFormed i) (ha : T.Fits W a) :
    ∃ instr, m.code[a.pc]? = some instr
      ∧ (∀ id ∈ instr.targets, ∃ t, m.code.labelAt? id = some t)
      ∧ T.StepFine W m instr a (a.step (Body.ofMethod m)) := by
  obtain ⟨f, hf, hfits⟩ := ha
  obtain ⟨instr, after, spans, hspans, hsettled⟩ := hT.settled a.pc f hf
  have hcode := hsettled.code_at
  refine ⟨instr, hcode, fun id hid => ?_, ?_⟩
  · obtain ⟨t, ht, -⟩ := hsettled.targets id hid
    exact ⟨t, ht⟩
  have hstep : a.step (Body.ofMethod m) = a.execute (Body.ofMethod m).target instr := by
    have : (Body.ofMethod m).code[a.pc]? = some instr := hcode
    simp only [Activation.step, this]
  have hfine : (a.execute (Body.ofMethod m).target instr).Fine W (Body.ofMethod m).target instr a after :=
    hsettled.transition.fine (hwf instr (Array.mem_of_getElem? hcode)) hfits
  rw [hstep]
  generalize a.execute (Body.ofMethod m).target instr = s at hfine
  cases s with
  | next a' =>
      obtain ⟨hafter, ⟨hpc, hend⟩ | ⟨id, hid, hpc⟩⟩ := hfine
      · exact Reaches.fits (hpc ▸ (hsettled.next hend).2) hafter
      · obtain ⟨t, ht, hreach⟩ := hsettled.targets id hid
        have htarget : (Body.ofMethod m).target id = t := by
          show (m.code.labelAt? id).getD 0 = t
          rw [ht]
          rfl
        rw [htarget] at hpc
        exact Reaches.fits (hpc ▸ hreach) hafter
  | returns v => trivial
  | asks r a' =>
      obtain ⟨hpc, hlocals, hanswer⟩ := hfine
      refine ⟨hpc, fun W' hW v hv => ?_, fun W' hW catches obj pc hpc' hcaught => ?_⟩
      · obtain ⟨hend, hafter⟩ := hanswer W' hW v hv
        refine Reaches.fits ?_ hafter
        rw [hW.classes]
        show T.Reaches W.toClasses after (a'.pc + 1)
        rw [hpc]
        exact (hsettled.next hend).2
      · -- the handler was reached with the locals before the instruction
        rw [Body.handlerFor_ofMethod, hpc] at hpc'
        obtain ⟨x, hx, rfl⟩ := Option.map_eq_some_iff.mp hpc'
        have hmem := List.mem_of_find?_eq_some hx
        have hcatch := List.find?_some hx
        simp only [Bool.and_eq_true, decide_eq_true_eq] at hcatch
        obtain ⟨s, hs, hspan⟩ := (Analysis.spans_eq_ok hspans).1 x hmem
        obtain ⟨h₁, h₂, h₃, h₄⟩ := Analysis.span_eq_ok hspan
        simp only [Method.labelPosition, h₁, h₂, Option.getD_some] at hcatch
        obtain ⟨hreach, -⟩ := hsettled.handlers s hs hcatch.1.1 hcatch.1.2
        refine Reaches.fits (f := ⟨f.locals, [.ref s.cls]⟩) ?_ ⟨?_, ?_⟩
        · rw [hW.classes]
          show T.Reaches W.toClasses _ (m.labelPosition x.handler)
          rw [Method.labelPosition, h₃]
          exact hreach
        · rw [h₄]
          exact .cons ⟨rfl, Or.inr (hcaught x hmem hcatch.2)⟩ .nil
        · show List.Forall₂ W'.Holds f.locals.toList a'.locals.toList
          rw [hlocals]
          exact Frame.forall₂_later hW hfits.locals
  | crash => exact hfine
  | fellOff => exact hfine

end FrameTypes

end Suspension
