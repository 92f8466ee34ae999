import Suspension.Proofs.Frame.Pairs
import Suspension.Proofs.Frame.Thinning
import Suspension.Proofs.Instrument.Behaviour
import Suspension.Proofs.Instrument.Flow
import Suspension.Proofs.Machine.Safety

/-!
# A transformed method beside the method

The transformed method has what the method has, but for the references of constructions that it makes later.
**What stands for an instruction does to its values what the instruction does to the whole ones**, whichever
objects will be made for these constructions.

* `Plan.Faithful` — what is assumed of a method and its environment.
* `Running.Mirrors` — the values of the transformed method are what a frame says.
* `Running.Completes` — the values of the method, once it is known which objects are missing.
* `Running.Imaged`, `Running.imaged` — the outcomes of an instruction and of its image.
-/

namespace Suspension

/-! ## What is assumed -/

/-- **A method and an environment to which the transformation is faithful.** -/
structure Plan.Faithful (p : Plan) (E : Environment) (nm : Method) (args : List Value) : Prop where
  ready : p.Ready E.toClasses nm
  founded : p.Founded
  paired : ∀ {i : Nat} {f : Frame}, p.subject.types.frames[i]? = some (some f) → f.Paired p.subject.types
  wellFormed : ∀ instr ∈ p.code.toList, instr.WellFormed
  reflective : ∀ instr ∈ p.code.toList, ∀ callee, instr.callee? = some callee →
    callee.isReflective = true → instr.opcode ≠ .invoke .static ∧ callee.desc = reflectedDesc
  receiver : p.subject.method.isStatic = false → ∀ k, ⟨.store k, .slot 0⟩ ∉ p.code.toList
  conforms : E.Conforms
  signals : ∀ r obj, E.raises r obj → ¬ E.surroundings.IsSignal obj
  objects : ∀ cls, ⟨.new, .type cls⟩ ∈ p.code.toList → ∃ o, E.made o cls
  arguments : ∃ d, Descriptor.parseMethod p.subject.method.desc = .ok d
    ∧ List.Forall₂ E.Holds (Analysis.givenSlots p.subject.owner p.subject.method d) args

namespace Running

/-! ## Values of the transformed method -/

/-- **The values of a transformed method are what a frame says**, without the constructions that are out.
Locals that the caller supplies are as they were supplied. -/
structure Mirrors (E : Environment) (p : Plan) (args : List Value) (d : Nat) (out : Nat → Bool) (f : Frame)
    (c : Running) : Prop extends Inside E.surroundings p d c.act.locals c.stack where
  room : d < c.stack.room
  width : p.stackVar.toNat + 1 + p.temporaries 0 p.code.toList ≤ c.act.locals.size
  operands : List.Forall₂ E.Holds (Frame.present out f.stack) c.act.stack
  locals : ∀ (l : Nat) (t : SlotType), f.locals[l]? = some t → ∃ v, c.act.locals[l]? = some v ∧ E.Holds t v
  given : ∀ l < p.subject.firstLocal, c.act.locals[l]? = args[l]?
  usable : ∀ t ∈ f.stack, t.kind? ≠ none

/-- **The values of the method**, once it is known which objects are missing. -/
structure Completes (out : Nat → Bool) (obj : Nat → ObjectId) (f : Frame) (b a : Activation) : Prop where
  stack : a.stack = Frame.thicken obj (Frame.gaps out f.stack) b.stack
  size : a.locals.size = f.locals.size
  locals : f.Agree a.locals b.locals

variable {E : Environment} {p : Plan} {nm : Method} {args : List Value} {d : Nat} {out : Nat → Bool}
  {obj : Nat → ObjectId} {f after g : Frame} {c : Running} {a b : Activation} {j : Nat}
  {instr img : Instruction}

/-- The locals that a frame knows of. -/
def narrow (f : Frame) (L : Array Value) : Array Value := L.extract 0 f.locals.size

lemma Mirrors.size_le (h : Mirrors E p args d out f c) : f.locals.size ≤ c.act.locals.size := by
  by_contra hlt
  obtain ⟨v, hv, -⟩ := h.locals c.act.locals.size _ (Array.getElem?_eq_getElem (by omega))
  simp at hv

lemma Mirrors.size_narrow (h : Mirrors E p args d out f c) :
    (narrow f c.act.locals).size = f.locals.size := by
  have := h.size_le
  simp only [narrow, Array.size_extract]
  omega

lemma getElem?_narrow {L : Array Value} {l : Nat} (hl : l < f.locals.size) : (narrow f L)[l]? = L[l]? := by
  simp only [narrow, Array.getElem?_extract, Nat.zero_add]
  split
  · rfl
  · rw [Array.getElem?_eq_none (by omega)]

lemma forall₂_of_getElem? {R : SlotType → Value → Prop} {ts : Array SlotType} {vs : Array Value}
    (hsize : ts.size = vs.size)
    (h : ∀ (l : Nat) (t : SlotType), ts[l]? = some t → ∃ v, vs[l]? = some v ∧ R t v) :
    List.Forall₂ R ts.toList vs.toList := by
  refine List.forall₂_iff_get.mpr ⟨by simpa using hsize, fun l hl hl' => ?_⟩
  have hl : l < ts.size := by simpa using hl
  obtain ⟨v, hv, hholds⟩ := h l _ (Array.getElem?_eq_getElem hl)
  obtain ⟨_, rfl⟩ := Array.getElem?_eq_some_iff.mp hv
  simpa using hholds

/-- The thinner frame is that of the values. -/
lemma Mirrors.fits (h : Mirrors E p args d out f c) (i : Nat) :
    (f.thin out).Fits E.toWorld ⟨i, narrow f c.act.locals, c.act.stack⟩ := by
  refine ⟨h.operands, forall₂_of_getElem? h.size_narrow.symm fun l t ht => ?_⟩
  obtain ⟨v, hv, hholds⟩ := h.locals l t ht
  exact ⟨v, (getElem?_narrow (Array.getElem?_eq_some_iff.mp ht).1).trans hv, hholds⟩

/-- **The values behind an instruction.** -/
lemma Mirrors.goes_on (h : Mirrors E p args d out f c) {q q' : Nat} {K L : Array Value} {us : List Value}
    {s : FrameStack Value} (hfits : (after.thin out).Fits E.toWorld ⟨q', K, us⟩)
    (hK : ∀ l < K.size, L[l]? = K[l]?) (hsize : L.size = c.act.locals.size)
    (hkeep : ∀ l, l < p.subject.firstLocal ∨ l = p.stackVar.toNat → L[l]? = c.act.locals[l]?)
    (husable : ∀ t ∈ after.stack, t.kind? ≠ none) (hdepth : s.depth = c.stack.depth)
    (hroom : c.stack.room ≤ s.room) : Mirrors E p args d out after ⟨⟨q, L, us⟩, s⟩ where
  handle := (hkeep _ (Or.inr rfl)).trans h.handle
  depth := hdepth.trans h.depth
  room := Nat.lt_of_lt_of_le h.room hroom
  width := h.width.trans_eq hsize.symm
  operands := hfits.stack
  locals := by
    intro l t ht
    obtain ⟨v, hv, hholds⟩ := Frame.forall₂_getElem? hfits.locals ht
    have hl : l < K.size := (Array.getElem?_eq_some_iff.mp hv).1
    exact ⟨v, (hK l hl).trans hv, hholds⟩
  given l hl := (hkeep l (Or.inl hl)).trans (h.given l hl)
  usable := husable

/-! ## Images -/

/-- **The outcomes of what stands for an instruction**, with those of the instruction on the whole values. -/
inductive Imaged (E : Environment) (p : Plan) (args : List Value) (d : Nat) (out : Nat → Bool) (j : Nat)
    (instr img : Instruction) (f after : Frame) (b : Activation) (s : FrameStack Value) : Step → Prop where
  | next {i : Nat} {b' : Activation} (hreach : p.subject.types.Reaches E.toClasses after i)
      (hpc : b'.pc = p.place i) (hmirrors : Mirrors E p args d out after ⟨b', s⟩)
      (hwhole : ∀ obj a, a.pc = j → Completes out obj f b a →
        ∃ a', a.step (.ofMethod p.subject.method) = .next a' ∧ a'.pc = i ∧ Completes out obj after b' a') :
      Imaged E p args d out j instr img f after b s (.next b')
  | returns {v : Value} (hwhole : ∀ obj a, a.pc = j → Completes out obj f b a →
        a.step (.ofMethod p.subject.method) = .returns v) :
      Imaged E p args d out j instr img f after b s (.returns v)
  | asks {r r' : Request} {b' : Activation} (hpc : b'.pc = b.pc) (hlocals : b'.locals = b.locals)
      (hseen : r'.seen = r.seen) (hbrings : ∀ u es, E.Brings img r' u es ↔ E.Brings instr r u es)
      (hanswer : ∀ v es, E.Brings instr r (.answer v) es →
        p.subject.types.Reaches E.toClasses after (j + 1)
          ∧ ∀ s' : FrameStack Value, s'.depth = s.depth → s.room ≤ s'.room →
            Mirrors E p args d out after ⟨b'.answered v, s'⟩)
      (hwhole : ∀ obj a, a.pc = j → Completes out obj f b a →
        ∃ a', a.step (.ofMethod p.subject.method) = .asks r a' ∧ a'.pc = j ∧ a'.locals = a.locals
          ∧ ∀ v es, E.Brings instr r (.answer v) es →
            Completes out obj after (b'.answered v) (a'.answered v)) :
      Imaged E p args d out j instr img f after b s (.asks r' b')

variable {spans : List HandlerSpan} {q : Nat} {L : Array Value} {us vs : List Value} {s : FrameStack Value}

/-- The whole step beside the one on the values that are there. -/
lemma Completes.thicker (h : p.Faithful E nm args)
    (hset : p.subject.types.Settled E.toClasses p.code spans j f instr after)
    (hspares : Frame.Spares out p.subject.types.sites j instr f)
    (hf : p.subject.types.frames[j]? = some (some f)) (hm : Mirrors E p args d out f c) (hpc : a.pc = j)
    (hc : Completes out obj f c.act a) :
    Step.Thicker E.toWorld instr obj out after (a.step (.ofMethod p.subject.method))
      (Activation.execute (Body.ofMethod p.subject.method).target
        ⟨j, narrow f c.act.locals, c.act.stack⟩ instr) := by
  have hat : p.subject.method.code[a.pc]? = some instr := hpc ▸ hset.code_at
  have hagree : f.Agree a.locals (narrow f c.act.locals) := by
    intro l t ht husable
    rw [getElem?_narrow (Array.getElem?_eq_some_iff.mp ht).1]
    exact hc.locals l t ht husable
  rw [Activation.step_ofMethod hat]
  obtain ⟨pc, K, zs⟩ := a
  obtain rfl : pc = j := hpc
  obtain rfl : zs = _ := hc.stack
  exact hset.transition.thicker hspares (h.paired hf).locals
    (h.wellFormed instr (Array.mem_toList_iff.mpr (Array.mem_of_getElem? hset.code_at))) (hm.fits pc) hagree
    (hc.size.trans hm.size_narrow.symm)

/-- The step on the values that are there is fine. -/
lemma Mirrors.fine (hm : Mirrors E p args d out f c) (h : p.Faithful E nm args)
    (hset : p.subject.types.Settled E.toClasses p.code spans j f instr after)
    (hspares : Frame.Spares out p.subject.types.sites j instr f)
    (hf : p.subject.types.frames[j]? = some (some f)) :
    Step.Fine E.toWorld (Body.ofMethod p.subject.method).target instr ⟨j, narrow f c.act.locals, c.act.stack⟩
      (after.thin out) (Activation.execute (Body.ofMethod p.subject.method).target
        ⟨j, narrow f c.act.locals, c.act.stack⟩ instr) :=
  (hset.transition.thin hspares (h.paired hf).locals).fine
    (h.wellFormed instr (Array.mem_toList_iff.mpr (Array.mem_of_getElem? hset.code_at))) (hm.fits j)

lemma agree_widen {K K' : Array Value} (h : after.Agree K K')
    (hL : ∀ l < after.locals.size, L[l]? = K'[l]?) : after.Agree K L := by
  intro l t ht husable
  rw [h l t ht husable, hL l (Array.getElem?_eq_some_iff.mp ht).1]

/-- An image that goes on where the instruction goes on. -/
lemma Imaged.of_next (h : p.Faithful E nm args)
    (hset : p.subject.types.Settled E.toClasses p.code spans j f instr after)
    (hspares : Frame.Spares out p.subject.types.sites j instr f)
    (hf : p.subject.types.frames[j]? = some (some f)) (hm : Mirrors E p args d out f ⟨b, s⟩) {i : Nat}
    {K L : Array Value} (hstep : Activation.execute (Body.ofMethod p.subject.method).target
      ⟨j, narrow f b.locals, b.stack⟩ instr = .next ⟨i, K, vs⟩)
    (hreach : p.subject.types.Reaches E.toClasses after i) (hK : ∀ l < K.size, L[l]? = K[l]?)
    (hsize : L.size = b.locals.size)
    (hkeep : ∀ l, l < p.subject.firstLocal ∨ l = p.stackVar.toNat → L[l]? = b.locals[l]?) :
    Imaged E p args d out j instr img f after b s (.next ⟨p.place i, L, vs⟩) := by
  have hfine := hm.fine h hset hspares hf
  rw [hstep] at hfine
  have husable := hset.transition.usable_stack (Activation.readsValue_of_next hstep) hm.usable
  refine .next hreach rfl (hm.goes_on hfine.1 hK hsize hkeep husable rfl (Nat.le_refl _)) fun obj a hpc hc => ?_
  have hthick := hc.thicker h hset hspares hf hm hpc
  rw [hstep] at hthick
  have hwidth : after.locals.size = K.size := by simpa [Frame.thin] using hfine.1.locals.length_eq
  generalize a.step (.ofMethod p.subject.method) = w at hthick ⊢
  cases hthick with
  | next hagree hsize' =>
      exact ⟨_, rfl, rfl, rfl, hsize'.trans hwidth.symm, agree_widen hagree fun l hl => hK l (hwidth ▸ hl)⟩

/-- An image that asks for what the instruction asks for. -/
lemma Imaged.of_asks (h : p.Faithful E nm args)
    (hset : p.subject.types.Settled E.toClasses p.code spans j f instr after)
    (hspares : Frame.Spares out p.subject.types.sites j instr f)
    (hf : p.subject.types.frames[j]? = some (some f)) (hm : Mirrors E p args d out f ⟨b, s⟩) {r r' : Request}
    (hstep : Activation.execute (Body.ofMethod p.subject.method).target
      ⟨j, narrow f b.locals, b.stack⟩ instr = .asks r ⟨j, narrow f b.locals, vs⟩)
    (hseen : r'.seen = r.seen) (hbrings : ∀ u es, E.Brings img r' u es ↔ E.Brings instr r u es) :
    Imaged E p args d out j instr img f after b s (.asks r' ⟨b.pc, b.locals, vs⟩) := by
  have hfine := hm.fine h hset hspares hf
  have hfrom := Activation.execute_comesFrom hstep
  rw [hstep] at hfine
  refine .asks rfl rfl hseen hbrings (fun v es hv => ?_) fun obj a hpc hc => ?_
  · obtain ⟨hend, hfits⟩ := hfine.2.2 E.toWorld (.refl _) v hv.admits
    have husable := hset.transition.usable_stack (hv.readsValue hfrom) hm.usable
    refine ⟨(hset.next hend).2, fun s' hdepth hroom => ?_⟩
    refine hm.goes_on hfits (fun l hl => ?_) rfl (fun _ _ => rfl) husable hdepth hroom
    exact (getElem?_narrow (hm.size_narrow ▸ hl)).symm
  · have hthick := hc.thicker h hset hspares hf hm hpc
    have hat : p.subject.method.code[a.pc]? = some instr := hpc ▸ hset.code_at
    have hflows := Activation.execute_flows (Body.ofMethod p.subject.method).target a instr
    rw [← Activation.step_ofMethod hat] at hflows
    rw [hstep] at hthick
    generalize a.step (.ofMethod p.subject.method) = w at hthick hflows ⊢
    cases hthick with
    | asks hagree hanswer =>
        cases hflows with
        | asks =>
            refine ⟨_, rfl, hpc, rfl, fun v es hv => ⟨hanswer v hv.admits, ?_, ?_⟩⟩
            · exact hc.size.trans hset.transition.size_locals.symm
            · refine agree_widen hagree fun l hl => (getElem?_narrow ?_).symm
              exact hset.transition.size_locals ▸ hl

/-- **A method with a receiver changes other locals only**: it stores nothing there, and a reference is not
counted up. -/
lemma firstLocal_le_changes (h : p.Faithful E nm args) (hm : Mirrors E p args d out f c)
    (hset : p.subject.types.Settled E.toClasses p.code spans j f instr after) {n : UInt32}
    (hn : instr.changes? = some n) : p.subject.firstLocal ≤ n.toNat := by
  by_contra hlt
  have hstatic : p.subject.method.isStatic = false := by
    cases hstatic : p.subject.method.isStatic with
    | false => rfl
    | true =>
        simp only [Subject.firstLocal, Method.receiverCount, hstatic, if_true] at hlt
        omega
  have hzero : n.toNat = 0 := by
    simp only [Subject.firstLocal, Method.receiverCount, hstatic, Bool.false_eq_true, if_false] at hlt
    omega
  have hmem : instr ∈ p.code.toList := Array.mem_toList_iff.mpr (Array.mem_of_getElem? hset.code_at)
  have hn0 : n = 0 := UInt32.toNat_inj.mp hzero
  subst hn0
  obtain ⟨op, operand⟩ := instr
  unfold Instruction.changes? at hn
  split at hn
  · next k n' hop ho =>
      cases hn
      obtain rfl : op = .store k := hop
      obtain rfl : operand = .slot 0 := ho
      exact h.receiver hstatic k hmem
  · next n' delta hop ho =>
      cases hn
      obtain ⟨t, ht, hk⟩ : ∃ t, f.locals[0]? = some t ∧ t.kind? = some .int := by
        cases hset.transition with
        | plain hs shape free =>
            cases shape with
            | increment hop' ho' ht hk =>
                obtain rfl : operand = .increment 0 delta := ho
                cases ho'
                exact ⟨_, ht, hk⟩
            | _ => simp_all [Opcode.hasFixedEffect]
        | _ => simp_all
      obtain ⟨v, hv, hholds⟩ := hm.locals 0 t ht
      obtain ⟨dm, -, hargs⟩ := h.arguments
      have hfirst : 0 < p.subject.firstLocal := by
        simp [Subject.firstLocal, Method.receiverCount, hstatic]
      have hgiven := hm.given 0 hfirst
      simp only [Analysis.givenSlots, hstatic, Bool.false_eq_true, if_false, List.singleton_append] at hargs
      cases hargs with
      | cons hrecv _ =>
          rw [hv, List.getElem?_cons_zero] at hgiven
          cases hgiven
          have hint := hholds.kind hk
          rw [hrecv.kind rfl] at hint
          cases hint
  · cases hn

/-- An instruction that stands for itself. -/
lemma imaged_self (h : p.Faithful E nm args)
    (hset : p.subject.types.Settled E.toClasses p.code spans j f instr after)
    (hspares : Frame.Spares out p.subject.types.sites j instr f)
    (hf : p.subject.types.frames[j]? = some (some f)) (himg : nm.code[b.pc]? = some instr)
    (hnext : b.pc + 1 = p.place (j + 1)) (hm : Mirrors E p args d out f ⟨b, s⟩) :
    Imaged E p args d out j instr instr f after b s (b.step (.ofMethod nm)) := by
  have hagree : f.Agree (narrow f b.locals) b.locals := fun l t ht _ =>
    getElem?_narrow (Array.getElem?_eq_some_iff.mp ht).1
  have halike : Step.Alike instr (Body.ofMethod p.subject.method).target (Body.ofMethod nm).target
      ⟨j, narrow f b.locals, b.stack⟩ ⟨b.pc, b.locals, b.stack⟩ _ _ :=
    Activation.execute_alike (hset.transition.alike hagree (Nat.le_of_eq hm.size_narrow.symm) hm.size_le j
      b.pc b.stack)
  have hnarrow : ∀ l < (narrow f b.locals).size, b.locals[l]? = (narrow f b.locals)[l]? :=
    fun l hl => (getElem?_narrow (hm.size_narrow ▸ hl)).symm
  rw [Activation.step_ofMethod himg]
  generalize hu : Activation.execute (Body.ofMethod p.subject.method).target
    ⟨j, narrow f b.locals, b.stack⟩ instr = u at halike
  generalize b.execute (Body.ofMethod nm).target instr = v at halike
  cases halike with
  | next hend =>
      rw [show b.pc + 1 = p.place (j + 1) from hnext]
      exact .of_next h hset hspares hf hm hu (hset.next hend).2 hnarrow rfl fun _ _ => rfl
  | @changes vs n v hn ha hb hend =>
      rw [show b.pc + 1 = p.place (j + 1) from hnext]
      have hfirst := firstLocal_le_changes h hm hset hn
      have hlast := (h.ready.follows hf hset.code_at).changes n hn
      refine .of_next h hset hspares hf hm hu (hset.next hend).2 (fun l hl => ?_) (by simp) fun l hl => ?_
      · simp only [Array.set!_eq_setIfInBounds, Array.size_setIfInBounds] at hl
        simp only [Array.set!_eq_setIfInBounds, Array.getElem?_setIfInBounds, hnarrow l hl]
        split <;> simp_all
      · rw [Array.set!_eq_setIfInBounds, Array.getElem?_setIfInBounds_ne (by omega)]
  | @jumps vs id hid =>
      obtain ⟨i, hi, hreach⟩ := hset.targets id hid
      rw [Activation.target_ofMethod hi] at hu
      rw [Activation.target_ofMethod (h.ready.lays.labelAt?_user h.ready.sound h.ready.labels hi)]
      exact .of_next h hset hspares hf hm hu hreach hnarrow rfl fun _ _ => rfl
  | returns =>
      refine .returns fun obj a hpc hc => ?_
      have hthick := hc.thicker h hset hspares hf hm hpc
      rw [hu] at hthick
      generalize a.step (.ofMethod p.subject.method) = w at hthick ⊢
      cases hthick with
      | returns => rfl
  | asks => exact .of_asks h hset hspares hf hm hu rfl fun _ _ => Iff.rfl
  | crash =>
      have hfine := hm.fine h hset hspares hf
      rw [hu] at hfine
      exact hfine.elim

lemma parse_reflectedDesc : Descriptor.parseMethod reflectedDesc
    = .ok ⟨["Lcore/Object;", "[Lcore/Object;"], "Lcore/Object;"⟩ := rfl

lemma parse_reflectInvoke :
    Descriptor.parseMethod "(Lcore/reflect/Method;Lcore/Object;[Lcore/Object;)Lcore/Object;"
      = .ok ⟨["Lcore/reflect/Method;", "Lcore/Object;", "[Lcore/Object;"], "Lcore/Object;"⟩ := rfl

/-- **The call that stands in for a call by reflection** is seen as that call and gets the same answers. -/
lemma brings_reflected {mode : InvokeMode} {m : Member} (hm : m.isReflective = true)
    (hdesc : m.desc = reflectedDesc) (hop : instr.opcode = .invoke mode) (vs : List Value) :
    let r : Request := .invoke .static ⟨ClassName.coroutine, "reflectInvoke",
      "(Lcore/reflect/Method;Lcore/Object;[Lcore/Object;)Lcore/Object;"⟩ vs false
    r.seen = (Request.invoke mode m vs false).seen ∧
      ∀ u es, E.Brings reflectInvoke r u es ↔ E.Brings instr (.invoke mode m vs false) u es := by
  intro r
  have hseen : r.seen = (Request.invoke mode m vs false).seen := (if_pos hm).symm
  have hreads : ∀ i : Instruction, (∃ mode, i.opcode = .invoke mode) → Frame.ReadsValue i := by
    rintro i ⟨mode, hi⟩ (h | h) <;> rw [hi] at h <;> cases h
  have hadmits : ∀ v, r.Admits E.toWorld reflectInvoke v
      ↔ (Request.invoke mode m vs false).Admits E.toWorld instr v := by
    intro v
    simp [r, Request.Admits, hdesc, parse_reflectedDesc, parse_reflectInvoke]
  refine ⟨hseen, fun u es => ⟨fun h => ?_, fun h => ?_⟩⟩
  · exact h.congr rfl rfl hseen (hreads _ ⟨mode, hop⟩) fun v => (hadmits v).mp
  · exact h.congr rfl rfl hseen.symm (hreads _ ⟨.static, rfl⟩) fun v => (hadmits v).mpr

/-- The call that stands in for a call by reflection. -/
lemma imaged_reflected (h : p.Faithful E nm args)
    (hset : p.subject.types.Settled E.toClasses p.code spans j f instr after)
    (hspares : Frame.Spares out p.subject.types.sites j instr f)
    (hf : p.subject.types.frames[j]? = some (some f)) (himg : nm.code[b.pc]? = some reflectInvoke)
    {m : Member} (hcallee : instr.callee? = some m) (hreflective : m.isReflective = true)
    (hm : Mirrors E p args d out f ⟨b, s⟩) :
    Imaged E p args d out j instr reflectInvoke f after b s (b.step (.ofMethod nm)) := by
  have hat : p.subject.method.code[j]? = some instr := hset.code_at
  obtain ⟨mode, hop, ho⟩ := Instruction.callee?_eq_some hcallee
  obtain ⟨hmode, hdesc⟩ := h.reflective instr
    (Array.mem_toList_iff.mpr (Array.mem_of_getElem? hset.code_at)) m hcallee hreflective
  rw [hop, ne_eq, Opcode.invoke.injEq] at hmode
  have hparse : Descriptor.parseMethod m.desc = .ok ⟨["Lcore/Object;", "[Lcore/Object;"], "Lcore/Object;"⟩ := by
    rw [hdesc, parse_reflectedDesc]
  -- the call finds its receiver and two arguments
  obtain ⟨xs, ys, hstack, hlen⟩ : ∃ xs ys, b.stack = xs ++ ys ∧ xs.length = 3 := by
    obtain ⟨used, put, rest, rest', hsplit⟩ := hset.transition.splits hspares (h.paired hf).locals
    have hoperands := hm.operands
    rw [hsplit.before, Frame.present_append, Frame.present_eq_self hsplit.takes] at hoperands
    obtain ⟨xs, ys, hstack, hxs, -⟩ := Frame.forall₂_append_left hoperands
    refine ⟨xs, ys, hstack, hxs.length_eq.symm.trans ?_⟩
    have hdelta := hsplit.delta
    obtain ⟨op, operand⟩ := instr
    obtain rfl := hop
    obtain rfl := ho
    simp only [Instruction.delta, Opcode.effect?, Opcode.shuffle?, Opcode.memberDelta, hparse] at hdelta
    simp_all
  have hwhole : Activation.execute (Body.ofMethod p.subject.method).target
      ⟨j, narrow f b.locals, b.stack⟩ instr = .asks (.invoke mode m xs.reverse false)
        ⟨j, narrow f b.locals, ys⟩ := by
    rw [hstack, ← step_eq hat]
    refine step_call _ xs ?_ hparse (by simp [hlen, hmode])
    obtain ⟨op, operand⟩ := instr
    obtain rfl : op = .invoke mode := hop
    obtain rfl : operand = .member m := ho
    exact hat
  obtain ⟨hseen, hbrings⟩ := brings_reflected (E := E) hreflective hdesc hop xs.reverse
  have hstep : b.step (.ofMethod nm) = .asks (.invoke .static ⟨ClassName.coroutine, "reflectInvoke",
      "(Lcore/reflect/Method;Lcore/Object;[Lcore/Object;)Lcore/Object;"⟩ xs.reverse false)
        ⟨b.pc, b.locals, ys⟩ := by
    obtain ⟨q, L, us⟩ := b
    obtain rfl : us = xs ++ ys := hstack
    exact step_call _ xs himg parse_reflectInvoke hlen
  rw [hstep]
  exact .of_asks h hset hspares hf hm hwhole hseen hbrings

/-- **What stands for an instruction does what the instruction does.** -/
lemma imaged (h : p.Faithful E nm args)
    (hset : p.subject.types.Settled E.toClasses p.code spans j f instr after)
    (hspares : Frame.Spares out p.subject.types.sites j instr f)
    (hf : p.subject.types.frames[j]? = some (some f)) (himg : nm.code[b.pc]? = some img)
    (hnext : b.pc + 1 = p.place (j + 1))
    (hstands : img = instr ∨ img = reflectInvoke ∧ ∃ m, instr.callee? = some m ∧ m.isReflective = true)
    (hm : Mirrors E p args d out f ⟨b, s⟩) :
    Imaged E p args d out j instr img f after b s (b.step (.ofMethod nm)) := by
  rcases hstands with rfl | ⟨rfl, m, hcallee, hreflective⟩
  · exact imaged_self h hset hspares hf himg hnext hm
  · exact imaged_reflected h hset hspares hf himg hcallee hreflective hm

end Running

end Suspension
