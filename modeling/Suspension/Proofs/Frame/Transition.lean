import Suspension.Proofs.Frame.Notes

/-!
# What an instruction does to a frame

The effect of an instruction on a frame, without the notes made on the way.  Most instructions take
some slots off the stack and put others on it, whatever lies below; none of the slots that they take
may belong to a construction that is left out later.  Storing changes a local.  The three steps of a
construction, `new`, `dup` and the constructor call, are apart.

* `Frame.Shape` — the slots that an instruction takes and puts.
* `Frame.Transition` — the effect on a whole frame.
* `Frame.execute_transition` — every step of the analysis that succeeds is such an effect.
-/

namespace Suspension

/-- Whether the effect of an opcode is its fixed signature of kinds. -/
def Opcode.hasFixedEffect : Opcode → Bool
  | nop | label | pushNull | ldc | new | load _ | store _ | increment => false
  | arrayLoad .ref | newArray | newRefArray | checkCast => false
  | pop | pop2 | dup | dupX1 | dupX2 | dup2 | swap => false
  | getStatic | putStatic | getField | putField | invoke _ => false
  | _ => true

namespace Frame

/-- **What an instruction takes off the stack and puts on it**, both top first. -/
inductive Shape (instr : Instruction) (locals : Array SlotType) :
    List SlotType → List SlotType → Prop where
  | idle (hop : instr.opcode = .nop ∨ instr.opcode = .label) : Shape instr locals [] []
  | null (hop : instr.opcode = .pushNull) : Shape instr locals [] [.null]
  | text (hop : instr.opcode = .ldc) : Shape instr locals [] [.ref ClassName.string]
  | load {k : Kind} {n : UInt32} {t : SlotType} (hop : instr.opcode = .load k)
      (ho : instr.operand = .slot n) (ht : locals[n.toNat]? = some t) (hk : t.kind? = some k) :
      Shape instr locals [] [t]
  | increment {n : UInt32} {delta : Int32} {t : SlotType} (hop : instr.opcode = .increment)
      (ho : instr.operand = .increment n delta) (ht : locals[n.toNat]? = some t)
      (hk : t.kind? = some .int) : Shape instr locals [] []
  | element {i arr : SlotType} (hop : instr.opcode = .arrayLoad .ref) (hi : i.kind? = some .int)
      (ha : arr.kind? = some .ref) : Shape instr locals [i, arr] [elementType arr]
  | array {n : SlotType} {elem : Text} (hop : instr.opcode = .newArray)
      (ho : instr.operand = .type elem) (hn : n.kind? = some .int) :
      Shape instr locals [n] [.ref (Text.ofString "[" ++ elem)]
  | refArray {n : SlotType} {cls : Text} (hop : instr.opcode = .newRefArray)
      (ho : instr.operand = .type cls) (hn : n.kind? = some .int) :
      Shape instr locals [n] [.ref (Text.ofString "[" ++ Descriptor.ofClass cls)]
  | cast {t : SlotType} {cls : Text} (hop : instr.opcode = .checkCast)
      (ho : instr.operand = .type cls) (ht : t.kind? = some .ref) :
      Shape instr locals [t] [if t.isNull then t else .ref cls]
  | pop {t : SlotType} (hop : instr.opcode = .pop) : Shape instr locals [t] []
  | pop2 {t u : SlotType} (hop : instr.opcode = .pop2) : Shape instr locals [t, u] []
  | dup {t : SlotType} (hop : instr.opcode = .dup) : Shape instr locals [t] [t, t]
  | dupX1 {t u : SlotType} (hop : instr.opcode = .dupX1) : Shape instr locals [t, u] [t, u, t]
  | dupX2 {t u w : SlotType} (hop : instr.opcode = .dupX2) :
      Shape instr locals [t, u, w] [t, u, w, t]
  | dup2 {t u : SlotType} (hop : instr.opcode = .dup2) : Shape instr locals [t, u] [t, u, t, u]
  | swap {t u : SlotType} (hop : instr.opcode = .swap) : Shape instr locals [t, u] [u, t]
  | getStatic {m : Member} (hop : instr.opcode = .getStatic) (ho : instr.operand = .member m) :
      Shape instr locals [] [.ofDesc m.desc]
  | putStatic {m : Member} {t : SlotType} (hop : instr.opcode = .putStatic)
      (ho : instr.operand = .member m) (ht : t.kind? = (SlotType.ofDesc m.desc).kind?) :
      Shape instr locals [t] []
  | getField {m : Member} {obj : SlotType} (hop : instr.opcode = .getField)
      (ho : instr.operand = .member m) (hobj : obj.kind? = some .ref) :
      Shape instr locals [obj] [.ofDesc m.desc]
  | putField {m : Member} {t obj : SlotType} (hop : instr.opcode = .putField)
      (ho : instr.operand = .member m) (ht : t.kind? = (SlotType.ofDesc m.desc).kind?)
      (hobj : obj.kind? = some .ref) : Shape instr locals [t, obj] []
  | call {mode : InvokeMode} {m : Member} {d : Descriptor.Method} {args recv : List SlotType}
      (hop : instr.opcode = .invoke mode) (ho : instr.operand = .member m)
      (hd : Descriptor.parseMethod m.desc = .ok d)
      (hargs : args.map SlotType.kind? = d.params.reverse.map fun p => (SlotType.ofDesc p).kind?)
      (hrecv : recv.map SlotType.kind? = if mode = .static then [] else [some .ref]) :
      Shape instr locals (args ++ recv) (if d.isVoid then [] else [.ofDesc d.result])
  | fixed {e : StackEffect} {used : List SlotType} (hop : instr.opcode.hasFixedEffect = true)
      (he : instr.opcode.effect? = some e)
      (hused : used.map SlotType.kind? = e.pops.reverse.map some) :
      Shape instr locals used (e.pushes.map SlotType.ofKind).reverse

/-- **What an instruction does to a frame.**  `sites` are the constructions as they are known in the
end. -/
inductive Transition (sites : List Site) (position : Nat) (instr : Instruction) (f : Frame) :
    Frame → Prop where
  | plain {used put rest : List SlotType} (hs : f.stack = used ++ rest)
      (shape : Shape instr f.locals used put) (free : ∀ t ∈ used, Site.Free sites t) :
      Transition sites position instr f ⟨f.locals, put ++ rest⟩
  | store {k : Kind} {n : UInt32} {t : SlotType} {rest : List SlotType}
      (hop : instr.opcode = .store k) (ho : instr.operand = .slot n) (hs : f.stack = t :: rest)
      (hn : n.toNat < f.locals.size) (hk : t.kind? = some k) (free : Site.Free sites t) :
      Transition sites position instr f ⟨f.locals.set! n.toNat t, rest⟩
  | begin {cls : Text} (hop : instr.opcode = .new) (ho : instr.operand = .type cls) :
      Transition sites position instr f ⟨f.locals, .pending position cls false :: f.stack⟩
  | copy {n : Nat} {cls : Text} {rest : List SlotType} (hop : instr.opcode = .dup)
      (hs : f.stack = .pending n cls false :: rest) (hc : Site.CopiedAt sites n position) :
      Transition sites position instr f ⟨f.locals, .pending n cls true :: f.stack⟩
  | construct {m : Member} {d : Descriptor.Method} {args rest : List SlotType} {n : Nat}
      {cls : Text} {copied : Bool} (hop : instr.opcode = .invoke .special)
      (ho : instr.operand = .member m) (hname : m.name = Text.ofString "<init>")
      (hd : Descriptor.parseMethod m.desc = .ok d)
      (hs : f.stack = args ++ .pending n cls copied :: rest)
      (hargs : args.map SlotType.kind? = d.params.reverse.map fun p => (SlotType.ofDesc p).kind?)
      (free : ∀ t ∈ args, Site.Free sites t)
      (hpair : Site.Pinned sites n ∨ copied = true ∧ rest.head? = some (.pending n cls false)) :
      Transition sites position instr f
        ⟨f.locals.map (completed n),
          (if d.isVoid then [] else [.ofDesc d.result]) ++ rest.map (completed n)⟩

variable {sites sites' : List Site} {position : Nat} {instr : Instruction} {f g : Frame}

lemma Transition.grow (h : Transition sites position instr f g) (hg : Site.Grow sites sites') :
    Transition sites' position instr f g := by
  cases h with
  | plain hs shape free => exact .plain hs shape fun t ht => (free t ht).grow hg
  | store hop ho hs hn hk free => exact .store hop ho hs hn hk (free.grow hg)
  | begin hop ho => exact .begin hop ho
  | copy hop hs hc => exact .copy hop hs (hc.grow hg)
  | construct hop ho hname hd hs hargs free hpair =>
      refine .construct hop ho hname hd hs hargs (fun t ht => (free t ht).grow hg) ?_
      rcases hpair with hp | hp
      · exact Or.inl (hp.grow hg)
      · exact Or.inr hp

/-- The number of locals stays. -/
lemma Transition.size_locals (h : Transition sites position instr f g) :
    g.locals.size = f.locals.size := by
  cases h <;> simp

/-- What is put on the stack are ordinary slots, slots that were taken off it, and locals. -/
lemma Shape.known {locals : Array SlotType} {used put : List SlotType}
    (h : Shape instr locals used put) (hused : ∀ t ∈ used, Site.Known sites t)
    (hlocals : ∀ t ∈ locals.toList, Site.Known sites t) : ∀ t ∈ put, Site.Known sites t := by
  have hordinary : ∀ desc, Site.Known sites (.ofDesc desc) := by
    intro desc
    unfold SlotType.ofDesc
    split <;> trivial
  have hkind : ∀ k, Site.Known sites (.ofKind k) := by
    intro k
    cases k <;> trivial
  cases h with
  | load hop ho ht hk =>
      obtain ⟨hlt, rfl⟩ := Array.getElem?_eq_some_iff.mp ht
      simpa using hlocals _ (Array.getElem_mem_toList hlt)
  | element hop hi ha =>
      simp only [List.mem_singleton, forall_eq, elementType]
      split
      · exact hordinary _
      · trivial
  | cast hop ho ht =>
      simp only [List.mem_singleton, forall_eq]
      split
      · exact hused _ (List.mem_singleton_self _)
      · trivial
  | getStatic hop ho => simpa using hordinary _
  | getField hop ho hobj => simpa using hordinary _
  | call hop ho hd hargs hrecv =>
      split
      · simp
      · simpa using hordinary _
  | fixed hop he hk =>
      intro t ht
      obtain ⟨k, -, rfl⟩ := List.mem_map.mp (List.mem_reverse.mp ht)
      exact hkind k
  | null | text | array | refArray => simp [Site.Known, SlotType.null]
  | idle | increment | pop | pop2 | putStatic | putField => simp
  | dup | dupX1 | dupX2 | dup2 | swap => simp_all

/-- **The effect of an instruction counts the slots** that it takes and puts. -/
lemma Shape.delta {locals : Array SlotType} {used put : List SlotType}
    (h : Shape instr locals used put) : instr.delta = .ok (used.length, put.length) := by
  obtain ⟨op, operand⟩ := instr
  cases h with
  | idle hop => rcases hop with rfl | rfl <;> rfl
  | getStatic hop ho | getField hop ho | putStatic hop ho | putField hop ho =>
      obtain rfl := hop
      obtain rfl := ho
      rfl
  | @call mode m d args recv hop ho hd hargs hrecv =>
      obtain rfl := hop
      obtain rfl := ho
      have hargs : args.length = d.params.length := by simpa using congrArg List.length hargs
      have hrecv : recv.length = if mode = .static then 0 else 1 := by
        have := congrArg List.length hrecv
        rw [List.length_map] at this
        rw [this]
        split <;> rfl
      simp only [Instruction.delta, Opcode.effect?, Opcode.shuffle?, Opcode.memberDelta, hd,
        beq_iff_eq, List.length_append, hargs, hrecv]
      split <;> split <;> rfl
  | @fixed e used hop he hused =>
      have hused : used.length = e.pops.length := by simpa using congrArg List.length hused
      simp [Instruction.delta, he, hused]
  | load hop | increment hop | element hop | array hop | refArray hop | cast hop | null hop | text hop
  | pop hop | pop2 hop | dup hop | dupX1 hop | dupX2 hop | dup2 hop | swap hop =>
      obtain rfl := hop
      rfl

/-- **What a call takes and puts**: the arguments, the receiver if it has one, and the result. -/
lemma Shape.of_invoke {locals : Array SlotType} {used put : List SlotType} {mode : InvokeMode}
    (h : Shape instr locals used put) (hop : instr.opcode = .invoke mode) :
    ∃ m d args recv, instr.operand = .member m ∧ Descriptor.parseMethod m.desc = .ok d
      ∧ used = args ++ recv ∧ args.length = d.params.length
      ∧ recv.length = (if mode = .static then 0 else 1)
      ∧ put = if d.isVoid then [] else [.ofDesc d.result] := by
  cases h with
  | @call mode' m d args recv hop' ho hd hargs hrecv =>
      rw [hop] at hop'
      cases hop'
      refine ⟨m, d, args, recv, ho, hd, rfl, by simpa using congrArg List.length hargs, ?_, rfl⟩
      have := congrArg List.length hrecv
      rw [List.length_map] at this
      rw [this]
      split <;> rfl
  | _ => simp_all [Opcode.hasFixedEffect]

/-! ## Steps of the analysis -/

open Transfer Analysis

variable {C : Classes} {code : Code} {new : Nat → Nat → Prop} {a a' : Analysis}
  {ctx : AnalysisContext}

lemma pop_gives {t : SlotType} (h : Gives f.pop a (t, g) a') :
    f.stack = t :: g.stack ∧ g.locals = f.locals ∧ a' = a := by
  unfold pop at h
  split at h
  · exact absurd h (by simp)
  · next v rest hs =>
      obtain ⟨heq, rfl⟩ := gives_pure.mp h
      cases heq
      exact ⟨hs, rfl, rfl⟩

lemma checkKind_gives {t : SlotType} {want : Option Kind} {u : Unit}
    (h : Gives (checkKind t want) a u a') : t.kind? = want ∧ a' = a := by
  unfold checkKind at h
  split at h
  · next hk =>
      obtain ⟨-, rfl⟩ := gives_pure.mp h
      exact ⟨by simpa using hk, rfl⟩
  · exact absurd h (by simp)

lemma popKind_gives {want : Option Kind} {t : SlotType}
    (h : Gives (f.popKind ctx position want) a (t, g) a') :
    f.stack = t :: g.stack ∧ g.locals = f.locals ∧ t.kind? = want
      ∧ Consumes C code new a a' [t] := by
  simp only [popKind, gives_bind] at h
  obtain ⟨⟨t', g'⟩, a₁, hpop, h⟩ := h
  simp only [gives_pure, Prod.mk.injEq] at h
  obtain ⟨hs, hl, rfl⟩ := pop_gives hpop
  obtain ⟨_, a₂, hcheck, _, a₃, hpin, ⟨rfl, rfl⟩, rfl⟩ := h
  obtain ⟨hk, rfl⟩ := checkKind_gives hcheck
  exact ⟨hs, hl, hk, pinSlot_gives hpin⟩

lemma popKinds_gives {ks : List Kind} (h : Gives (popKinds ctx position ks f) a g a') :
    ∃ used, f.stack = used ++ g.stack ∧ g.locals = f.locals
      ∧ used.map SlotType.kind? = ks.map some ∧ Consumes C code new a a' used := by
  induction ks generalizing f a with
  | nil =>
      obtain ⟨rfl, rfl⟩ := gives_pure.mp h
      exact ⟨[], rfl, rfl, rfl, .nil _⟩
  | cons k ks ih =>
      simp only [popKinds, gives_bind] at h
      obtain ⟨⟨t, f₁⟩, a₁, hpop, h⟩ := h
      obtain ⟨hs₁, hl₁, hk₁, hc₁⟩ := popKind_gives hpop
      obtain ⟨used, hs, hl, hk, hc⟩ := ih (f := f₁) h
      exact ⟨t :: used, by simp [hs₁, hs], hl.trans hl₁, by simp [hk₁, hk], hc₁.append hc⟩

lemma popArgs_gives {m : Member} {params : List (Nat × Text)}
    (h : Gives (popArgs ctx position m params f) a g a') :
    ∃ args, f.stack = args ++ g.stack ∧ g.locals = f.locals
      ∧ args.map SlotType.kind? = params.map (fun p => (SlotType.ofDesc p.2).kind?)
      ∧ Consumes C code new a a' args := by
  induction params generalizing f a with
  | nil =>
      obtain ⟨rfl, rfl⟩ := gives_pure.mp h
      exact ⟨[], rfl, rfl, rfl, .nil _⟩
  | cons p params ih =>
      obtain ⟨j, desc⟩ := p
      simp only [popArgs, gives_bind, gives_adapt] at h
      obtain ⟨⟨t, f₁⟩, a₁, hpop, h⟩ := h
      obtain ⟨hs₁, hl₁, hk₁, hc₁⟩ := popKind_gives hpop
      obtain ⟨args, hs, hl, hk, hc⟩ := ih (f := f₁) h
      exact ⟨t :: args, by simp [hs₁, hs], hl.trans hl₁, by simp [hk₁, hk], hc₁.append hc⟩

lemma pinAll_gives {reason : Text} {ts : List SlotType} {u : Unit}
    (h : Gives (pinAll ctx position reason ts) a u a') : Consumes C code new a a' ts := by
  induction ts generalizing a with
  | nil =>
      obtain ⟨-, rfl⟩ := gives_pure.mp h
      exact .nil _
  | cons t ts ih =>
      simp only [pinAll, gives_bind] at h
      obtain ⟨_, a₁, hpin, h⟩ := h
      exact (pinSlot_gives hpin).append (ih h)

lemma localOperand_gives {n : Nat} (h : Gives (localOperand instr f) a n a') :
    a' = a ∧ n < f.locals.size ∧ ∃ i : UInt32, instr.operand = .slot i ∧ i.toNat = n := by
  unfold localOperand at h
  split at h
  · next i ho =>
      split at h
      · next hlt =>
          obtain ⟨rfl, rfl⟩ := gives_pure.mp h
          exact ⟨rfl, hlt, i, ho, rfl⟩
      · exact absurd h (by simp)
  · exact absurd h (by simp)

lemma typeOperand_gives {t : Text} (h : Gives (typeOperand instr) a t a') :
    a' = a ∧ instr.operand = .type t := by
  unfold typeOperand at h
  split at h
  · next t' ho =>
      split at h
      · exact absurd h (by simp)
      · obtain ⟨rfl, rfl⟩ := gives_pure.mp h
        exact ⟨rfl, ho⟩
  · exact absurd h (by simp)

lemma memberOperand_gives {m : Member} (h : Gives (memberOperand instr) a m a') :
    a' = a ∧ instr.operand = .member m := by
  unfold memberOperand at h
  split at h
  · next m' ho =>
      obtain ⟨rfl, rfl⟩ := gives_pure.mp h
      exact ⟨rfl, ho⟩
  · exact absurd h (by simp)

/-- The `dup` at a position finds the reference of `new` on top. -/
def Copies (position : Nat) (f : Frame) (n d : Nat) : Prop :=
  d = position ∧ ∃ cls rest, f.stack = .pending n cls false :: rest

/-- **What a step of the analysis has done** when it succeeds: the notes are right, a `dup` may have
been noted as a copy, and the frame has changed as the instruction does. -/
structure Executed (C : Classes) (code : Code) (position : Nat) (instr : Instruction) (f g : Frame)
    (a a' : Analysis) : Prop where
  learns : Learns C code (Copies position f) a a'
  transition : a.Sound C code → f.Known a.sites → Transition a'.sites position instr f g
  known : a.Sound C code → f.Known a.sites → g.Known a'.sites

/-- The effects that only take slots and put slots. -/
lemma Executed.ofShape {used put rest : List SlotType} (hs : f.stack = used ++ rest)
    (hshape : Shape instr f.locals used put)
    (hc : Consumes C code (Copies position f) a a' used) (hg : g = ⟨f.locals, put ++ rest⟩) :
    Executed C code position instr f g a a' where
  learns := hc.learns
  transition := by
    intro hsound hf
    rw [hg]
    refine .plain hs hshape (hc.free hsound fun t ht => hf.1 t ?_)
    rw [hs]
    exact List.mem_append_left _ ht
  known := by
    intro hsound hf
    have hf' := hf.grow (hc.learns.sound hsound).2
    rw [Frame.Known, hs] at hf'
    rw [hg]
    refine ⟨fun t ht => ?_, hf'.2⟩
    rcases List.mem_append.mp ht with ht | ht
    · exact hshape.known (fun u hu => hf'.1 u (List.mem_append_left _ hu)) hf'.2 t ht
    · exact hf'.1 t (List.mem_append_right _ ht)

lemma load_gives {k : Kind} (hop : instr.opcode = .load k) (h : Gives (load instr k f) a g a') :
    Executed C code position instr f g a a' := by
  simp only [load, gives_bind] at h
  obtain ⟨n, a₁, hn, h⟩ := h
  obtain ⟨rfl, hlt, i, ho, rfl⟩ := localOperand_gives hn
  by_cases hk : ((f.locals.getD i.toNat .unusable).kind? == some k) = true
  · rw [if_pos hk] at h
    obtain ⟨rfl, rfl⟩ := gives_pure.mp h
    have ht : f.locals[i.toNat]? = some (f.locals.getD i.toNat .unusable) := by
      simp [Array.getD, hlt]
    exact .ofShape (List.nil_append f.stack).symm (.load hop ho ht (by simpa using hk)) (.nil _) rfl
  · rw [if_neg hk] at h
    exact absurd h (by simp)

lemma store_gives {k : Kind} (hop : instr.opcode = .store k)
    (h : Gives (store ctx position instr k f) a g a') :
    Executed C code position instr f g a a' := by
  simp only [store, gives_bind] at h
  obtain ⟨n, a₁, hn, ⟨t, f₁⟩, a₂, hpop, h⟩ := h
  obtain ⟨rfl, hlt, i, ho, rfl⟩ := localOperand_gives hn
  obtain ⟨hs, hl, rfl⟩ := pop_gives hpop
  simp only [gives_pure] at h
  obtain ⟨_, a₃, hcheck, _, a₄, hpin, rfl, rfl⟩ := h
  obtain ⟨hk, rfl⟩ := checkKind_gives hcheck
  have hc : Consumes C code (Copies position f) _ _ _ := pinSlot_gives hpin
  have hmem : t ∈ f.stack := by simp [hs]
  rw [hl]
  refine ⟨hc.learns, fun hsound hf => ?_, fun hsound hf => ?_⟩
  · refine .store hop ho hs hlt hk (hc.free hsound (fun u hu => hf.1 u ?_) t (by simp))
    obtain rfl := List.mem_singleton.mp hu
    exact hmem
  · have hf' := hf.grow (hc.learns.sound hsound).2
    refine ⟨fun u hu => hf'.1 u (by simp [hs, hu]), fun u hu => ?_⟩
    simp only [Array.set!_eq_setIfInBounds, Array.toList_setIfInBounds] at hu
    rcases List.mem_or_eq_of_mem_set hu with hu | rfl
    · exact hf'.2 u hu
    · exact hf'.1 u hmem

lemma increment_gives (hop : instr.opcode = .increment) (h : Gives (increment instr f) a g a') :
    Executed C code position instr f g a a' := by
  unfold increment at h
  split at h
  · next n delta ho =>
      split at h
      · next t ht =>
          simp only [gives_bind, gives_pure] at h
          obtain ⟨_, a₁, hcheck, rfl, rfl⟩ := h
          obtain ⟨hk, rfl⟩ := checkKind_gives hcheck
          exact .ofShape (List.nil_append g.stack).symm (.increment hop ho ht hk) (.nil _) rfl
      · exact absurd h (by simp)
  · exact absurd h (by simp)

/-- The `dup` that makes the copy of a construction. -/
lemma dup_copies {n : Nat} {cls : Text} {rest : List SlotType} (hop : instr.opcode = .dup)
    (hcode : code[position]? = some instr) (hs : f.stack = .pending n cls false :: rest)
    (hseen : (((a.sites.find? (·.newAt == n)).bind (·.dupAt)).isNone
      || ((a.sites.find? (·.newAt == n)).bind (·.dupAt)) == some position) = true) :
    Executed C code position instr f (f.push (.pending n cls true)) a
      { a with sites := a.sites.map fun s =>
          if s.newAt == n then { s with dupAt := some position } else s } := by
  have hgrow : Site.Sound code a.sites → Site.Grow a.sites (a.sites.map fun s =>
      if s.newAt == n then { s with dupAt := some position } else s) := by
    intro hsound s hmem
    refine ⟨_, List.mem_map_of_mem hmem, ?_⟩
    by_cases hn : s.newAt = n
    · subst hn
      -- the construction was found, so no other `dup` had been noted for it
      have hnone : s.dupAt = none ∨ s.dupAt = some position := by
        simpa [hsound.find?_eq hmem] using hseen
      refine ⟨by simp, by simp, by simp, fun d hd => ?_⟩
      rcases hnone with hnone | hsome
      · rw [hnone] at hd; cases hd
      · rw [hsome] at hd; simp [hd]
    · simp [hn]
  have hsites : a.Sound C code → Site.Sound code (a.sites.map fun s =>
      if s.newAt == n then { s with dupAt := some position } else s) := by
    intro hsound
    refine sound_map hsound.sites n (fun _ => rfl) (fun _ => rfl) fun s _ _ d hd => ?_
    cases hd
    exact ⟨instr, hcode, hop⟩
  have hknown : a.Sound C code → f.Known a.sites → Site.Known (a.sites.map fun s =>
      if s.newAt == n then { s with dupAt := some position } else s) (.pending n cls false) :=
    fun hsound hf => (hf.1 _ (by simp [hs])).grow (hgrow hsound.sites)
  refine ⟨⟨rfl, rfl, fun hsound => ⟨⟨hsound.agrees, hsites hsound⟩, hgrow hsound.sites⟩, ?_⟩, ?_, ?_⟩
  · intro s hmem d hd
    obtain ⟨s₀, hmem₀, rfl⟩ := List.mem_map.mp hmem
    by_cases hn : s₀.newAt = n
    · subst hn
      simp only [BEq.rfl, if_true, Option.some.injEq] at hd
      exact Or.inl ⟨hd.symm, cls, rest, by simpa using hs⟩
    · have hif : (if (s₀.newAt == n) = true then { s₀ with dupAt := some position } else s₀) = s₀ := by
        simp [hn]
      rw [hif] at hd ⊢
      exact Or.inr ⟨s₀, hmem₀, rfl, hd⟩
  · intro hsound hf
    refine .copy hop hs ?_
    obtain ⟨s, hmem, hn, -⟩ := hf.1 (.pending n cls false) (by simp [hs])
    exact ⟨_, List.mem_map_of_mem hmem, by simp [hn], by simp [hn]⟩
  · intro hsound hf
    have hf' := hf.grow (hgrow hsound.sites)
    refine ⟨fun t ht => ?_, hf'.2⟩
    rcases List.mem_cons.mp ht with rfl | ht
    · exact hknown hsound hf
    · exact hf'.1 t ht

lemma dup_gives (hop : instr.opcode = .dup) (hcode : code[position]? = some instr)
    (h : Gives (dup ctx position f) a g a') : Executed C code position instr f g a a' := by
  unfold dup at h
  split at h
  · exact absurd h (by simp)
  next t rest hs =>
  have hs' : f.stack = [t] ++ rest := hs
  split at h
  · next n cls copied =>
      simp only [gives_bind, gives_site?] at h
      obtain ⟨_, _, ⟨rfl, rfl⟩, h⟩ := h
      split at h
      · next hcond =>
          simp only [modifySite, gives_bind, gives_modify, gives_pure] at h
          obtain ⟨_, _, rfl, rfl, rfl⟩ := h
          simp only [Bool.and_eq_true, Bool.not_eq_eq_eq_not, Bool.not_true] at hcond
          obtain ⟨rfl, hseen⟩ := hcond
          exact dup_copies hop hcode hs hseen
      · obtain ⟨_, _, hpin, h⟩ := gives_bind.mp h
        obtain ⟨rfl, rfl⟩ := gives_pure.mp h
        have hc : Consumes C code (Copies position f) _ _ [.pending n cls copied] :=
          pinSlot_gives hpin
        exact .ofShape hs' (.dup hop) hc (by simp [push, hs])
  next hpending =>
    obtain ⟨rfl, rfl⟩ := gives_pure.mp h
    have hc : Consumes C code (Copies position f) a' a' [t] := by
      refine ⟨.refl _, fun _ _ u hu => ?_⟩
      obtain rfl := List.mem_singleton.mp hu
      cases u with
      | pending n cls copied => exact absurd rfl (hpending n cls copied)
      | _ => trivial
    exact .ofShape hs' (.dup hop) hc (by simp [push, hs])

/-- Reordering a permutation of the slots that are used. -/
lemma consumes_perm {used used' : List SlotType} (h : Consumes C code new a a' used)
    (hp : ∀ t, t ∈ used' ↔ t ∈ used) : Consumes C code new a a' used' where
  learns := h.learns
  free := fun hs hk t ht => h.free hs (fun u hu => hk u ((hp u).mpr hu)) t ((hp t).mp ht)

lemma shuffle_gives (h : Gives (shuffle ctx position instr.opcode f) a g a') :
    Executed C code position instr f g a a' := by
  simp only [shuffle] at h
  split at h
  · next t u rest hop hs =>
      obtain ⟨_, _, hpin, h⟩ := gives_bind.mp h
      obtain ⟨rfl, rfl⟩ := gives_pure.mp h
      exact .ofShape (show f.stack = [t, u] ++ rest from hs) (.dupX1 hop)
        (consumes_perm (pinAll_gives hpin) (by simp [or_comm])) rfl
  · next t u w rest hop hs =>
      obtain ⟨_, _, hpin, h⟩ := gives_bind.mp h
      obtain ⟨rfl, rfl⟩ := gives_pure.mp h
      exact .ofShape (show f.stack = [t, u, w] ++ rest from hs) (.dupX2 hop)
        (consumes_perm (pinAll_gives hpin) (by simp [or_comm, or_left_comm])) rfl
  · next t u rest hop hs =>
      obtain ⟨_, _, hpin, h⟩ := gives_bind.mp h
      obtain ⟨rfl, rfl⟩ := gives_pure.mp h
      exact .ofShape (show f.stack = [t, u] ++ rest from hs) (.dup2 hop)
        (consumes_perm (pinAll_gives hpin) (by simp [or_comm])) rfl
  · next t u rest hop hs =>
      obtain ⟨_, _, hpin, h⟩ := gives_bind.mp h
      obtain ⟨rfl, rfl⟩ := gives_pure.mp h
      exact .ofShape (show f.stack = [t, u] ++ rest from hs) (.swap hop)
        (consumes_perm (pinAll_gives hpin) (by simp [or_comm])) rfl
  · exact absurd h (by simp)

lemma field_gives (hop : instr.opcode ∈ [Opcode.getStatic, .putStatic, .getField, .putField])
    (h : Gives (field ctx position instr f) a g a') :
    Executed C code position instr f g a a' := by
  simp only [field, gives_bind] at h
  obtain ⟨m, a₁, hm, h⟩ := h
  obtain ⟨rfl, ho⟩ := memberOperand_gives hm
  split at h
  · next hop =>
      obtain ⟨rfl, rfl⟩ := gives_pure.mp h
      exact .ofShape (List.nil_append f.stack).symm (.getStatic hop ho) (.nil _) rfl
  · next hop =>
      obtain ⟨⟨t, f₁⟩, a₂, hpop, h⟩ := gives_bind.mp h
      obtain ⟨rfl, rfl⟩ := gives_pure.mp h
      obtain ⟨hs, hl, hk, hc⟩ := popKind_gives hpop
      exact .ofShape (show f.stack = [t] ++ g.stack from hs) (.putStatic hop ho hk) hc (by simp [← hl])
  · next hop =>
      obtain ⟨⟨t, f₁⟩, a₂, hpop, h⟩ := gives_bind.mp h
      obtain ⟨rfl, rfl⟩ := gives_pure.mp h
      obtain ⟨hs, hl, hk, hc⟩ := popKind_gives hpop
      exact .ofShape (show f.stack = [t] ++ f₁.stack from hs) (.getField hop ho hk) hc
        (by simp [← hl, push])
  · next hne₁ hne₂ hne₃ =>
      have hop : instr.opcode = .putField := by simp_all
      obtain ⟨⟨t, f₁⟩, a₂, hpop, h⟩ := gives_bind.mp h
      obtain ⟨⟨obj, f₂⟩, a₃, hpop', h⟩ := gives_bind.mp h
      obtain ⟨rfl, rfl⟩ := gives_pure.mp h
      obtain ⟨hs, hl, hk, hc⟩ := popKind_gives hpop
      obtain ⟨hs', hl', hk', hc'⟩ := popKind_gives hpop'
      have hstack : f.stack = [t, obj] ++ g.stack := hs.trans (congrArg (t :: ·) hs')
      have hlocals : g.locals = f.locals := hl'.trans hl
      exact .ofShape hstack (.putField hop ho hk hk') (hc.append hc') (by simp [← hlocals])

lemma foldl_push (ks : List Kind) (f : Frame) :
    ks.foldl (fun f k => f.push (.ofKind k)) f
      = ⟨f.locals, (ks.map SlotType.ofKind).reverse ++ f.stack⟩ := by
  induction ks generalizing f with
  | nil => rfl
  | cons k ks ih =>
      rw [List.foldl_cons, ih]
      simp [push]

lemma byEffect_gives (hop : instr.opcode.hasFixedEffect = true)
    (h : Gives (byEffect ctx position instr.opcode f) a g a') :
    Executed C code position instr f g a a' := by
  unfold byEffect at h
  split at h
  · exact absurd h (by simp)
  · next e he =>
      obtain ⟨f₁, a₁, hpop, h⟩ := gives_bind.mp h
      obtain ⟨rfl, rfl⟩ := gives_pure.mp h
      obtain ⟨used, hs, hl, hk, hc⟩ := popKinds_gives hpop
      exact .ofShape hs (.fixed hop he hk) hc (by rw [foldl_push, hl])

/-! ### Calls -/

/-- The slots behind a constructor call: what was pending there is so no more. -/
lemma known_completed {n : Nat} {t : SlotType} (h : Site.Known sites t) :
    Site.Known sites (completed n t) := by
  cases t with
  | pending s cls copied =>
      simp only [completed]
      split
      · trivial
      · exact h
  | _ => exact h

/-- **What the receiver of a call comes to**: it is used up, or its construction is completed. -/
lemma popReceiver_gives {mode : InvokeMode} {m : Member}
    (h : Gives (popReceiver ctx position mode m f) a g a') :
    ∃ t rest, f.stack = t :: rest ∧ t.kind? = some .ref ∧
      ((g = ⟨f.locals, rest⟩ ∧ Consumes C code new a a' [t]) ∨
       (mode = .special ∧ m.name = Text.ofString "<init>" ∧ Learns C code new a a' ∧
        ∃ n cls copied, t = .pending n cls copied
          ∧ g = ⟨f.locals.map (completed n), rest.map (completed n)⟩
          ∧ (a.Sound C code → Site.Known a.sites t → Site.Pinned a'.sites n
              ∨ copied = true ∧ rest.head? = some (.pending n cls false)))) := by
  simp only [popReceiver, gives_bind] at h
  obtain ⟨⟨t, f₁⟩, a₁, hpop, h⟩ := h
  obtain ⟨hs, hl, rfl⟩ := pop_gives hpop
  have hf₁ : f₁ = ⟨f.locals, f₁.stack⟩ := by rw [← hl]
  simp only at h
  split at h
  · simp at h
  next hk =>
  refine ⟨t, f₁.stack, hs, by simpa using hk, ?_⟩
  split at h
  · next n cls copied =>
      split at h
      · next hinit =>
          simp only [Bool.and_eq_true, beq_iff_eq] at hinit
          simp only [construct] at h
          split at h
          · obtain ⟨_, _, hpin, h⟩ := gives_bind.mp h
            obtain ⟨rfl, rfl⟩ := gives_pure.mp h
            obtain ⟨hlearn, hp⟩ := pin_gives hpin
            refine Or.inr ⟨hinit.1, hinit.2, hlearn, n, cls, copied, rfl, by rw [hl], ?_⟩
            rintro hsound ⟨s, hmem, hn, -⟩
            exact Or.inl (hp hsound ⟨s, hmem, hn⟩)
          · next hpair =>
              obtain ⟨rfl, rfl⟩ := gives_pure.mp h
              refine Or.inr ⟨hinit.1, hinit.2, .refl _, n, cls, copied, rfl, by rw [hl], ?_⟩
              intro _ _
              right
              simpa using hpair
      · obtain ⟨_, _, hpin, h⟩ := gives_bind.mp h
        obtain ⟨rfl, rfl⟩ := gives_pure.mp h
        exact Or.inl ⟨hf₁, pinSlot_gives hpin⟩
  · next hpending =>
      obtain ⟨rfl, rfl⟩ := gives_pure.mp h
      refine Or.inl ⟨hf₁, .refl _, fun _ _ u hu => ?_⟩
      obtain rfl := List.mem_singleton.mp hu
      cases u with
      | pending n cls copied => exact absurd rfl (hpending n cls copied)
      | _ => trivial

/-- The descriptors of the parameters, with their numbers, last first. -/
lemma map_numbered_params (params : List Text) (k : Text → Option Kind) :
    (((List.range params.length).zip params).reverse.map fun p => k p.2)
      = params.reverse.map k := by
  rw [List.map_reverse, List.map_reverse]
  congr 1
  have h : ((List.range params.length).zip params).map Prod.snd = params :=
    List.map_snd_zip (by simp)
  calc (((List.range params.length).zip params).map fun p => k p.2)
      = (((List.range params.length).zip params).map Prod.snd).map k := by rw [List.map_map]; rfl
    _ = params.map k := by rw [h]

lemma invoke_gives {mode : InvokeMode} (hop : instr.opcode = .invoke mode)
    (h : Gives (invoke ctx position instr mode f) a g a') :
    Executed C code position instr f g a a' := by
  simp only [invoke, gives_bind] at h
  obtain ⟨m, a₁, hm, h⟩ := h
  obtain ⟨rfl, ho⟩ := memberOperand_gives hm
  split at h
  · exact absurd h (by simp)
  next d hd =>
  obtain ⟨f₁, a₂, hargs, h⟩ := gives_bind.mp h
  obtain ⟨args, hs₁, hl₁, hk₁, hc₁⟩ := popArgs_gives hargs
  rw [map_numbered_params d.params fun p => (SlotType.ofDesc p).kind?] at hk₁
  have hpush : ∀ f₂ : Frame, (if d.isVoid then f₂ else f₂.push (.ofDesc d.result))
      = ⟨f₂.locals, (if d.isVoid then [] else [.ofDesc d.result]) ++ f₂.stack⟩ := by
    intro f₂
    cases d.isVoid <;> rfl
  by_cases hmode : mode = .static
  · subst hmode
    simp only [BEq.rfl, if_true, gives_bind, gives_pure] at h
    obtain ⟨f₂, _, ⟨rfl, rfl⟩, rfl, rfl⟩ := h
    have hstack : f.stack = (args ++ []) ++ f₂.stack := by simpa using hs₁
    exact .ofShape hstack (.call hop ho hd hk₁ rfl) (by simpa using hc₁) (by rw [hpush, hl₁])
  · rw [if_neg (by simpa using hmode)] at h
    obtain ⟨f₂, a₃, hrecv, h⟩ := gives_bind.mp h
    obtain ⟨rfl, rfl⟩ := gives_pure.mp h
    obtain ⟨t, rest, hs₂, hk₂, hcase⟩ := popReceiver_gives hrecv
    have hstack : f.stack = (args ++ [t]) ++ rest := by simp [hs₁, hs₂]
    rcases hcase with ⟨rfl, hc₂⟩ | ⟨rfl, hinit, hlearn, n, cls, copied, rfl, rfl, hpair⟩
    · exact .ofShape hstack (.call hop ho hd hk₁ (by simp [hk₂, hmode])) (hc₁.append hc₂)
        (by rw [hpush, hl₁])
    · have hlearns := hc₁.learns.trans hlearn
      have hargsMem : ∀ u ∈ args, u ∈ f.stack := fun u hu => by simp [hs₁, hu]
      rw [hpush, hl₁]
      refine ⟨hlearns, fun hsound hf => ?_, fun hsound hf => ?_⟩
      · obtain ⟨hsound₁, hg₁⟩ := hc₁.learns.sound hsound
        obtain ⟨-, hg₂⟩ := hlearn.sound hsound₁
        refine .construct hop ho hinit hd (by simpa using hstack) hk₁ (fun u hu => ?_) ?_
        · exact (hc₁.free hsound (fun w hw => hf.1 w (hargsMem w hw)) u hu).grow hg₂
        · exact hpair hsound₁ ((hf.1 _ (by simp [hstack])).grow hg₁)
      · have hf' := hf.grow (hlearns.sound hsound).2
        have hresult : Site.Known a'.sites (.ofDesc d.result) := by
          unfold SlotType.ofDesc
          split <;> trivial
        refine ⟨fun u hu => ?_, fun u hu => ?_⟩
        · rcases List.mem_append.mp hu with hu | hu
          · split at hu
            · simp at hu
            · obtain rfl := List.mem_singleton.mp hu
              exact hresult
          · obtain ⟨w, hw, rfl⟩ := List.mem_map.mp hu
            exact known_completed (hf'.1 w (by simp [hstack, hw]))
        · simp only [Array.toList_map] at hu
          obtain ⟨w, hw, rfl⟩ := List.mem_map.mp hu
          exact known_completed (hf'.2 w hw)

/-- The beginning of a construction. -/
lemma new_gives {cls : Text} {u : Unit} (hop : instr.opcode = .new)
    (ho : instr.operand = .type cls) (hcode : code[position]? = some instr)
    (h : Gives (enterSite position cls) a u a') :
    Executed C code position instr f (f.push (.pending position cls false)) a a' := by
  have hinstr : instr = ⟨.new, .type cls⟩ := by
    cases instr
    simp_all
  have htrans : Transition a'.sites position instr f (f.push (.pending position cls false)) :=
    .begin hop ho
  simp only [enterSite, gives_bind, gives_site?] at h
  obtain ⟨_, a₁, ⟨hfind, ha₁⟩, h⟩ := h
  rw [hfind, ha₁] at h
  split at h
  · next s hf =>
      obtain ⟨-, rfl⟩ := gives_pure.mp h
      have hmem := List.mem_of_find?_eq_some hf
      have hn : s.newAt = position := by simpa using List.find?_some hf
      refine ⟨.refl _, fun _ _ => htrans, fun hsound hf => ⟨fun t ht => ?_, hf.2⟩⟩
      rcases List.mem_cons.mp ht with rfl | ht
      · have hnew := hsound.sites.new_at s hmem
        rw [hn, hcode, hinstr] at hnew
        simp only [Option.some.injEq, Instruction.mk.injEq, Operand.type.injEq, true_and] at hnew
        exact ⟨s, hmem, hn, hnew.symm⟩
      · exact hf.1 t ht
  · next hf =>
      obtain rfl := gives_modify.mp h
      have hgrow : Site.Grow a.sites (a.sites ++ [{ cls, newAt := position }]) :=
        fun s hs => ⟨s, List.mem_append_left _ hs, rfl, rfl, id, fun _ h => h⟩
      have hfresh : ∀ s ∈ a.sites, s.newAt ≠ position := by
        intro s hs
        simpa using List.find?_eq_none.mp hf s hs
      refine ⟨⟨rfl, rfl, fun hsound => ⟨⟨hsound.agrees, ?_⟩, hgrow⟩, ?_⟩, fun _ _ => htrans,
        fun hsound hf => ⟨fun t ht => ?_, fun t ht => (hf.2 t ht).grow hgrow⟩⟩
      · refine ⟨?_, fun s hs => ?_, fun s hs d hd => ?_⟩
        · rw [List.pairwise_append]
          refine ⟨hsound.sites.distinct, List.pairwise_singleton _ _, fun s hs t ht => ?_⟩
          obtain rfl := List.mem_singleton.mp ht
          exact hfresh s hs
        · rcases List.mem_append.mp hs with hs | hs
          · exact hsound.sites.new_at s hs
          · obtain rfl := List.mem_singleton.mp hs
            rw [hcode, hinstr]
        · rcases List.mem_append.mp hs with hs | hs
          · exact hsound.sites.dup_at s hs d hd
          · obtain rfl := List.mem_singleton.mp hs
            cases hd
      · intro s hs d hd
        rcases List.mem_append.mp hs with hs | hs
        · exact Or.inr ⟨s, hs, rfl, hd⟩
        · obtain rfl := List.mem_singleton.mp hs
          cases hd
      · rcases List.mem_cons.mp ht with rfl | ht
        · exact ⟨_, List.mem_append_right _ (List.mem_singleton_self _), rfl, rfl⟩
        · exact (hf.1 t ht).grow hgrow

lemma idle_gives (hop : instr.opcode = .nop ∨ instr.opcode = .label)
    (h : Gives (pure f) a g a') : Executed C code position instr f g a a' := by
  obtain ⟨rfl, rfl⟩ := gives_pure.mp h
  exact .ofShape (List.nil_append g.stack).symm (.idle hop) (.nil _) rfl

/-- **Every instruction that the analysis executes is a transition of the frame.** -/
theorem execute_transition (hcode : code[position]? = some instr)
    (h : Gives (execute ctx position instr f) a g a') :
    Executed C code position instr f g a a' := by
  obtain ⟨op, operand⟩ := instr
  cases op with
  | nop => exact idle_gives (Or.inl rfl) h
  | label => exact idle_gives (Or.inr rfl) h
  | pushNull =>
      obtain ⟨rfl, rfl⟩ := gives_pure.mp h
      exact .ofShape (List.nil_append f.stack).symm (.null rfl) (.nil _) rfl
  | ldc =>
      obtain ⟨rfl, rfl⟩ := gives_pure.mp h
      exact .ofShape (List.nil_append f.stack).symm (.text rfl) (.nil _) rfl
  | new =>
      simp only [execute, gives_bind, gives_pure] at h
      obtain ⟨cls, a₁, hcls, _, a₂, henter, rfl, rfl⟩ := h
      obtain ⟨rfl, ho⟩ := typeOperand_gives hcls
      exact new_gives rfl ho hcode henter
  | load k => exact load_gives rfl h
  | store k => exact store_gives rfl h
  | increment => exact increment_gives rfl h
  | arrayLoad k =>
      cases k with
      | ref =>
          obtain ⟨⟨i, f₁⟩, a₁, hi, h⟩ := gives_bind.mp h
          obtain ⟨⟨arr, f₂⟩, a₂, harr, h⟩ := gives_bind.mp h
          obtain ⟨rfl, rfl⟩ := gives_pure.mp h
          obtain ⟨hs₁, hl₁, hk₁, hc₁⟩ := popKind_gives hi
          obtain ⟨hs₂, hl₂, hk₂, hc₂⟩ := popKind_gives harr
          have hstack : f.stack = [i, arr] ++ f₂.stack := hs₁.trans (congrArg (i :: ·) hs₂)
          have hlocals : f₂.locals = f.locals := hl₂.trans hl₁
          exact .ofShape hstack (.element rfl hk₁ hk₂) (hc₁.append hc₂) (by simp [push, hlocals])
      | _ => exact byEffect_gives rfl h
  | newArray =>
      obtain ⟨⟨t, f₁⟩, a₁, ht, h⟩ := gives_bind.mp h
      obtain ⟨elem, a₂, helem, h⟩ := gives_bind.mp h
      obtain ⟨rfl, rfl⟩ := gives_pure.mp h
      obtain ⟨hs, hl, hk, hc⟩ := popKind_gives ht
      obtain ⟨rfl, ho⟩ := typeOperand_gives helem
      exact .ofShape (show f.stack = [t] ++ f₁.stack from hs) (.array rfl ho hk) hc
        (by simp [push, hl])
  | newRefArray =>
      obtain ⟨⟨t, f₁⟩, a₁, ht, h⟩ := gives_bind.mp h
      obtain ⟨cls, a₂, hcls, h⟩ := gives_bind.mp h
      obtain ⟨rfl, rfl⟩ := gives_pure.mp h
      obtain ⟨hs, hl, hk, hc⟩ := popKind_gives ht
      obtain ⟨rfl, ho⟩ := typeOperand_gives hcls
      exact .ofShape (show f.stack = [t] ++ f₁.stack from hs) (.refArray rfl ho hk) hc
        (by simp [push, hl])
  | checkCast =>
      obtain ⟨⟨t, f₁⟩, a₁, ht, h⟩ := gives_bind.mp h
      obtain ⟨cls, a₂, hcls, h⟩ := gives_bind.mp h
      obtain ⟨rfl, rfl⟩ := gives_pure.mp h
      obtain ⟨hs, hl, hk, hc⟩ := popKind_gives ht
      obtain ⟨rfl, ho⟩ := typeOperand_gives hcls
      exact .ofShape (show f.stack = [t] ++ f₁.stack from hs) (.cast rfl ho hk) hc
        (by simp [push, hl])
  | pop =>
      obtain ⟨⟨t, f₁⟩, a₁, ht, h⟩ := gives_bind.mp h
      obtain ⟨_, a₂, hpin, h⟩ := gives_bind.mp h
      obtain ⟨rfl, rfl⟩ := gives_pure.mp h
      obtain ⟨hs, hl, rfl⟩ := pop_gives ht
      exact .ofShape (show f.stack = [t] ++ _ from hs) (.pop rfl) (pinSlot_gives hpin)
        (by simp [← hl])
  | pop2 =>
      obtain ⟨⟨t, f₁⟩, a₁, ht, h⟩ := gives_bind.mp h
      obtain ⟨_, a₂, hpin, h⟩ := gives_bind.mp h
      obtain ⟨⟨u, f₂⟩, a₃, hu, h⟩ := gives_bind.mp h
      obtain ⟨_, a₄, hpin', h⟩ := gives_bind.mp h
      obtain ⟨rfl, rfl⟩ := gives_pure.mp h
      obtain ⟨hs₁, hl₁, rfl⟩ := pop_gives ht
      obtain ⟨hs₂, hl₂, rfl⟩ := pop_gives hu
      have hstack : f.stack = [t, u] ++ _ := hs₁.trans (congrArg (t :: ·) hs₂)
      exact .ofShape hstack (.pop2 rfl) ((pinSlot_gives hpin).append (pinSlot_gives hpin'))
        (by simp [← hl₁, ← hl₂])
  | dup => exact dup_gives rfl hcode h
  | dupX1 | dupX2 | dup2 | swap => exact shuffle_gives h
  | getStatic | putStatic | getField | putField =>
      exact field_gives (by simp) (show Gives (field ctx position _ f) a g a' from h)
  | invoke mode => exact invoke_gives rfl h
  | _ => exact byEffect_gives rfl (show Gives (byEffect ctx position _ f) a g a' from h)

end Frame

end Suspension
