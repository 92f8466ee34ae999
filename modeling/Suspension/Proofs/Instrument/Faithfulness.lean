import Suspension.Proofs.Instrument.Reproduction

/-!
# Transformed methods behave as the methods they come from

A transformed method that is entered afresh comes to the segment of its first instruction with what the method
has there.  From there on **the same is seen of both**: the same calls with the same arguments, the same
accesses to fields and arrays, the same exceptions and the same end, whichever calls are put off and however
often.

* `Running.enters` — entering a transformed method.
* `Method.Amenable`, `Environment.Serves` — what is asked of a method and of its environment.
* `Method.transform_behaves` — the same is seen of a method and of its transformed body.
* `Method.transform_misbehaves` — calls by reflection without a receiver, and suspend signals that the method
  throws itself, are exceptions.
-/

namespace Suspension

/-- **A frame stack on which a method starts afresh**: nothing is saved in the next record. -/
structure FrameStack.Fresh (s : FrameStack Value) : Prop where
  entry : (s.recordAt s.depth).entry = 0
  room : 0 < s.room
  depth : s.depth ≤ s.room

namespace Running

variable {E : Environment} {p : Plan} {nm : Method} {args : List Value} {s : FrameStack Value}

/-- An argument is the local of its number. -/
lemma getElem?_enter {m : Method} {l : Nat} (hl : l < args.length) (hargs : args.length ≤ m.maxLocals.toNat) :
    (Activation.enter m args).locals[l]? = args[l]? := by
  simp only [Activation.enter]
  rw [List.getElem?_toArray, List.getElem?_append_left (by rw [List.length_take]; omega),
    List.getElem?_take_of_lt (by omega)]

/-- The locals of a transformed method that has been entered: the arguments, and the frame stack. -/
def entered (E : Environment) (p : Plan) (nm : Method) (args : List Value) : Array Value :=
  (Activation.enter nm args).locals.set! p.stackVar.toNat (.object E.surroundings.handle)

/-- **Entering a transformed method afresh** leads to the segment of the first instruction. -/
lemma reaches_start (hr : p.Ready E.toClasses nm) (hs : s.Fresh) :
    Relation.ReflTransGen (Proceeds E.toClasses E.surroundings p nm) ⟨Activation.enter nm args, s⟩
      ⟨⟨p.place 0, entered E p nm args, []⟩, s.enter.2⟩ := by
  obtain ⟨-, hprologue⟩ := advances_prologue (S := E.surroundings) hr args s
  obtain ⟨hentry, -, -⟩ := FrameStack.enter_of_room hs.room hs.depth
  have hzero : Int32.ofInt s.enter.1 = 0 := by
    rw [hentry, hs.entry]
    rfl
  have hstart : Advances E.surroundings p nm ⟨⟨5, entered E p nm args, []⟩, s.enter.2⟩
      ⟨⟨6, entered E p nm args, []⟩, s.enter.2⟩ := advances_mark (hr.lays.prologue 5 (by simp))
  refine .tail (.tail (hprologue.lift id fun _ _ hstep => .advances hstep) ?_) (.advances hstart)
  exact .advances ((advances_switch hr).1 hzero)

/-- **The values there** are those of the frame at the entry. -/
lemma mirrors_entry (h : p.Faithful E nm args) (hs : s.Fresh) {f : Frame}
    (hf : Analysis.entryFrame p.subject.owner p.subject.method = .ok f) :
    Mirrors E p args s.depth p.isOmitted f ⟨⟨p.place 0, entered E p nm args, []⟩, s.enter.2⟩
      ∧ ∀ obj, Completes p.isOmitted obj f ⟨p.place 0, entered E p nm args, []⟩
          (Activation.enter p.subject.method args) := by
  obtain ⟨dm, hdm, hlen, rfl⟩ := Analysis.entryFrame_eq_ok hf
  obtain ⟨dm', hdm', hargs⟩ := h.arguments
  obtain rfl : dm = dm' := by
    rw [hdm] at hdm'
    exact Except.ok.inj hdm'
  have hcount := hargs.length_eq
  obtain ⟨hlt, -⟩ := advances_prologue (S := E.surroundings) h.ready args s
  rw [Activation.size_locals_enter] at hlt
  obtain ⟨-, -, hroom⟩ := FrameStack.enter_of_room hs.room hs.depth
  have hwidth := size_entered h (.object E.surroundings.handle)
  have hlocal : ∀ l < args.length, (entered E p nm args)[l]? = args[l]? := by
    intro l hl
    unfold entered Plan.stackVar at *
    rw [Array.set!_eq_setIfInBounds, Array.getElem?_setIfInBounds_ne (by omega)]
    exact getElem?_enter hl (by omega)
  generalize hgiven : Analysis.givenSlots p.subject.owner p.subject.method dm = given at hlen hargs hcount ⊢
  have hslot : ∀ (l : Nat) (t : SlotType), (given ++ List.replicate
      (p.subject.method.maxLocals.toNat - given.length) SlotType.unusable)[l]? = some t →
        given[l]? = some t ∧ l < args.length ∨ t = .unusable ∧ l < p.subject.method.maxLocals.toNat := by
    intro l t ht
    by_cases hl : l < given.length
    · rw [List.getElem?_append_left hl] at ht
      exact Or.inl ⟨ht, by omega⟩
    · rw [List.getElem?_append_right (by omega), List.getElem?_replicate] at ht
      split at ht
      · cases ht
        exact Or.inr ⟨rfl, by omega⟩
      · cases ht
  refine ⟨⟨⟨?_, s.depth_enter⟩, hroom, hwidth, .nil, fun l t ht => ?_, fun l hl => ?_, by simp⟩,
    fun obj => ⟨rfl, ?_, fun l t ht hne => ?_⟩⟩
  · unfold entered
    rw [Array.set!_eq_setIfInBounds,
      Array.getElem?_setIfInBounds_self_of_lt (by rw [Activation.size_locals_enter]; exact hlt)]
  · rw [List.getElem?_toArray] at ht
    rcases hslot l t ht with ⟨ht, hl⟩ | ⟨rfl, hl⟩
    · obtain ⟨hl', rfl⟩ := List.getElem?_eq_some_iff.mp ht
      exact ⟨args[l], (hlocal l hl).trans (List.getElem?_eq_getElem hl), hargs.get hl' hl⟩
    · have hl : l < (entered E p nm args).size := by
        unfold entered Plan.stackVar at *
        omega
      exact ⟨_, Array.getElem?_eq_getElem hl, trivial⟩
  · obtain ⟨v, hv⟩ := exists_argument h hl
    exact hlocal l (List.getElem?_eq_some_iff.mp hv).1
  · rw [Activation.size_locals_enter]
    simp only [List.size_toArray, List.length_append, List.length_replicate]
    omega
  · rw [List.getElem?_toArray] at ht
    rcases hslot l t ht with ⟨-, hl⟩ | ⟨rfl, -⟩
    · rw [hlocal l hl]
      exact getElem?_enter hl (by omega)
    · exact absurd rfl hne

/-- **A transformed method that is entered afresh** has what the method has. -/
lemma enters (h : p.Faithful E nm args) (hsize : 0 < p.code.size) (hs : s.Fresh) :
    ∃ f c, Relation.ReflTransGen (Proceeds E.toClasses E.surroundings p nm) ⟨Activation.enter nm args, s⟩ c
      ∧ Level E p args s.depth 0 f c ∧ ∀ obj, E.Supplies obj (Frame.gaps p.isOmitted f.stack)
        ∧ Completes p.isOmitted obj f c.act (Activation.enter p.subject.method args) := by
  obtain ⟨f₀, hf₀, hreach⟩ := h.ready.certified.entry
  obtain ⟨hmirrors, hcompletes⟩ := mirrors_entry h hs hf₀
  obtain ⟨f, hl, hle⟩ := Level.of_reaches h hmirrors rfl (hreach hsize)
  refine ⟨f, _, reaches_start h.ready hs, hl, fun obj => ⟨?_, ?_⟩⟩
  · obtain ⟨_, -, -, rfl⟩ := Analysis.entryFrame_eq_ok hf₀
    rw [← Frame.gaps_of_le (fun _ => h.founded.absent?_of_free) hle.stack]
    intro n cls hn
    cases hn
  · exact (hcompletes obj).le (fun _ => h.founded.absent?_of_free) hle

/-- **The same is seen of a method and of its transformed body.** -/
lemma behaves_iff (h : p.Faithful E nm args) (hsize : 0 < p.code.size) (hs : s.Fresh) {es : List Seen}
    {o : Option Ending} :
    (p.original E).Behaves (Activation.enter p.subject.method args) es o
      ↔ (p.instrumented E nm args s.depth).Behaves ⟨Activation.enter nm args, s⟩ es o := by
  obtain ⟨f, c, hrun, hl, hwhole⟩ := enters h hsize hs
  obtain ⟨obj, hobj⟩ := h.exists_supplies
  constructor
  · rintro ⟨n, hshows⟩
    obtain ⟨hsupplies, hc⟩ := hwhole obj
    exact behaves_along hrun (reproduces h n 0 f c obj _ es o hl hsupplies rfl hc hshows)
  · rintro ⟨n, hshows⟩
    rcases shows_along h hrun hshows with ⟨rfl, rfl⟩ | ⟨k, -, hshows'⟩
    · exact .stops
    · obtain ⟨obj, -, hexplains⟩ := explains h k 0 f c es o hl hshows'
      exact hexplains _ rfl (hwhole obj).2

end Running

/-! ## Methods and environments -/

/-- **What is asked of a method**: its operands fit its opcodes, its calls by reflection name the descriptor
that is declared, and where it has a receiver it stores nothing else there. -/
structure Method.Amenable (m : Method) : Prop where
  wellFormed : ∀ instr ∈ m.code.toList, instr.WellFormed
  declared : ∀ instr ∈ m.code.toList, ∀ callee, instr.callee? = some callee →
    callee.isReflective = true → callee.desc = reflectedDesc
  receiver : m.isStatic = false → ∀ k, ⟨.store k, .slot 0⟩ ∉ m.code.toList

/-- **What is asked of an environment** that calls a method: its classes are those that the transformation
knows of, it keeps to what is declared, all objects can be made, and the arguments fit. -/
structure Environment.Serves (E : Environment) (src : ClassSource) (h : Hierarchy) (owner : Text) (m : Method)
    (args : List Value) : Prop where
  source : src.Agrees E.toClasses
  known : h.Agrees E.toClasses
  conforms : E.Conforms
  objects : ∀ cls, ⟨.new, .type cls⟩ ∈ m.code.toList → ∃ o, E.made o cls
  arguments : ∃ d, Descriptor.parseMethod m.desc = .ok d
    ∧ List.Forall₂ E.Holds (Analysis.givenSlots owner m d) args

/-- Texts, and objects of one class that can be thrown. -/
def World.plain : World where
  inst v c := c = ClassName.object ∨ (∃ t, v = .text t) ∧ c = ClassName.string
    ∨ (∃ o, v = .object o) ∧ (c = "A" ∨ c = ClassName.throwable)
  inst_object _ := Or.inl rfl
  not_inst_null v h := by
    rcases h with h | ⟨-, h⟩ | ⟨-, h | h⟩ <;> exact absurd h (by decide)
  made _ c := c = "A"
  inst_of_made h := Or.inr (Or.inr ⟨⟨_, rfl⟩, Or.inl h⟩)
  inst_text t := Or.inr (Or.inl ⟨⟨t, rfl⟩, rfl⟩)

/-- A call without arguments. -/
def Request.call : Request := .invoke .static ⟨"A", "g", "()V"⟩ [] true

/-- It is neither a call by reflection nor a request to suspend, and what stands in for a call by reflection
is none. -/
lemma members_apart : Member.isReflective ⟨"A", "g", "()V"⟩ = false ∧ Member.isYield ⟨"A", "g", "()V"⟩ = false
    ∧ Member.isReflective ⟨ClassName.coroutine, "reflectInvoke",
      "(Lcore/reflect/Method;Lcore/Object;[Lcore/Object;)Lcore/Object;"⟩ = false
    ∧ Member.isReflective ⟨reflectedMethod, "invoke", reflectedDesc⟩ = true := by
  decide +kernel

lemma Request.seen_call : Request.call.seen = .call := seen_invoke members_apart.1

/-- An environment in which this call may throw. -/
def Environment.plain : Environment where
  toWorld := .plain
  surroundings := .plain
  raises r obj := r = .call ∧ obj = 2

lemma Environment.plain_conforms : Environment.plain.Conforms where
  throwable _ obj _ := Or.inr (Or.inr ⟨⟨obj, rfl⟩, Or.inr rfl⟩)
  isA _ _ _ h := by
    obtain ⟨-, rfl⟩ := h
    exact fun hisA => absurd hisA (by simp [plain, Surroundings.plain])
  throw _ _ h := by cases h.1
  cast _ _ _ h := by cases h.1
  create _ _ h := by cases h.1
  yields _ _ _ _ hm h := by
    cases h.1
    exact absurd hm (by simp [members_apart.2.1])

/-- It serves methods that make no objects. -/
lemma Environment.plain_serves {m : Method} {owner : Text} {args : List Value}
    (hnew : ∀ cls, ⟨.new, .type cls⟩ ∉ m.code.toList)
    (hargs : ∃ d, Descriptor.parseMethod m.desc = .ok d
      ∧ List.Forall₂ plain.Holds (Analysis.givenSlots owner m d) args) :
    plain.Serves {} {} owner m args where
  source := ClassSource.agrees_nothing _
  known := Hierarchy.agrees_nothing _
  conforms := plain_conforms
  objects cls h := absurd h (hnew cls)
  arguments := hargs

/-- What its call throws is no suspend signal. -/
lemma Environment.plain_signals (r : Request) (obj : ObjectId) (h : plain.raises r obj) :
    ¬ plain.surroundings.IsSignal obj := by
  obtain ⟨-, rfl⟩ := h
  unfold Surroundings.IsSignal
  simp [plain, Surroundings.plain]

/-- The empty frame stack is one on which a method starts afresh. -/
lemma FrameStack.fresh_empty : ({} : FrameStack Value).Fresh := ⟨rfl, by decide, Nat.zero_le _⟩

/-- It makes no call by reflection. -/
lemma remembering_unreflective : ∀ instr ∈ (remembering 1).code.toList, ∀ callee,
    instr.callee? = some callee → callee.isReflective = false := by
  intro instr hi callee hc
  simp only [remembering, List.mem_cons, List.not_mem_nil, or_false] at hi
  rcases hi with rfl | rfl | rfl | rfl
  case inr.inr.inl =>
    obtain rfl := Option.some.inj hc
    exact members_apart.1
  all_goals cases hc

lemma remembering_amenable : (remembering 1).Amenable where
  wellFormed := by
    unfold Instruction.WellFormed
    decide
  declared instr hi callee hc hreflective := by
    simp [remembering_unreflective instr hi callee hc] at hreflective
  receiver _ k := by simp [remembering, Instruction.slot, Instruction.member, Instruction.plain]

/-- The method waits at its call, makes it again, and returns. -/
lemma remembering_waits {p : Plan} {nm : Method} (hp : Plan.Makes {} "A" (remembering 1) {} p nm) :
    (p.original .plain).Behaves (Activation.enter (remembering 1) [.object 7])
      [.suspended .call, .answered .call none] (some (.outcome (.returned .null))) := by
  obtain ⟨pt, hpt, hpos, -, hyield, -⟩ := remembering_point (Or.inr rfl) hp
  have hmethod := hp.method_eq
  have hat : p.code[2]? = some (.member (.invoke .static) "A" "g" "()V") := by
    unfold Plan.code
    rw [hmethod]
    rfl
  have hstep : ∀ {a s}, Activation.step (.ofMethod (remembering 1)) a = s →
      Activation.step (.ofMethod p.subject.method) a = s := by
    rw [hmethod]
    exact id
  have htext : (p.original .plain).Moves (Activation.enter (remembering 1) [.object 7]) []
      ⟨1, #[.object 7, .null], [.text "x"]⟩ := .next (hstep rfl)
  have hstore : (p.original .plain).Moves ⟨1, #[.object 7, .null], [.text "x"]⟩ []
      ⟨2, #[.object 7, .text "x"], []⟩ := .next (hstep rfl)
  have hasks : Activation.step (.ofMethod p.subject.method) ⟨2, #[.object 7, .text "x"], []⟩
      = .asks .call ⟨2, #[.object 7, .text "x"], []⟩ := hstep rfl
  have hsuspends : (p.original .plain).Moves ⟨2, #[.object 7, .text "x"], []⟩ [.suspended .call]
      ⟨2, #[.object 7, .text "x"], []⟩ := by
    rw [← Request.seen_call]
    exact .suspended hasks ⟨pt, List.mem_of_getElem? hpt, hpos, hyield⟩
  have hanswered : (p.original .plain).Moves ⟨2, #[.object 7, .text "x"], []⟩ [.answered .call none]
      ⟨3, #[.object 7, .text "x"], []⟩ := by
    rw [← Request.seen_call]
    exact .answered hasks hat (.answered rfl (Frame.readsValue_of_opcode ⟨by decide, by decide⟩) rfl)
  have hreturns : (p.original .plain).Behaves ⟨3, #[.object 7, .text "x"], []⟩ []
      (some (.outcome (.returned .null))) := .ends (.returned (hstep rfl)) (Or.inr rfl)
  exact (((hreturns.moves hanswered).moves hsuspends).quietly hstore).quietly htext

/-- A method that makes a call by reflection without a receiver, and returns what it has put below the
arguments. -/
def reflecting : Method where
  name := "f"
  desc := "()Lcore/Object;"
  flags := Flag.staticBit
  code := #[.plain .pushNull, ⟨.ldc, .text "lost"⟩, .plain .pushNull, .plain .pushNull,
    .member (.invoke .static) reflectedMethod "invoke" reflectedDesc, .plain .pop,
    .plain (.returnValue .ref)]

/-- What is seen of its call. -/
def Request.reflected : Request :=
  .invoke .static ⟨ClassName.coroutine, "reflectInvoke",
    "(Lcore/reflect/Method;Lcore/Object;[Lcore/Object;)Lcore/Object;"⟩ [.null, .null] false

lemma Request.seen_reflected : Request.reflected.seen = .reflected := seen_invoke members_apart.2.2.1

lemma reflecting_amenable : reflecting.Amenable where
  wellFormed := by
    unfold Instruction.WellFormed
    decide
  declared instr hi callee hc _ := by
    simp only [reflecting, List.mem_cons, List.not_mem_nil, or_false] at hi
    rcases hi with rfl | rfl | rfl | rfl | rfl | rfl | rfl
    case inr.inr.inr.inr.inl =>
      obtain rfl := Option.some.inj hc
      rfl
    all_goals cases hc
  receiver h := absurd h (by decide)

/-- The method calls with the two arguments that there are. -/
lemma reflecting_calls {p : Plan} {nm : Method} (hp : Plan.Makes {} "A" reflecting {} p nm) :
    (p.original .plain).Behaves (Activation.enter reflecting []) [.answered .reflected (some .null)] none := by
  have hmethod := hp.method_eq
  have hat : p.code[4]? = some (.member (.invoke .static) reflectedMethod "invoke" reflectedDesc) := by
    unfold Plan.code
    rw [hmethod]
    rfl
  have hnext : ∀ {a a'}, Activation.step (.ofMethod reflecting) a = .next a' →
      (p.original .plain).Moves a [] a' := by
    rw [← hmethod]
    exact .next
  have hasks : Activation.step (.ofMethod p.subject.method) ⟨4, #[], [.null, .null, .text "lost", .null]⟩
      = .asks (.invoke .static ⟨reflectedMethod, "invoke", reflectedDesc⟩ [.null, .null] false)
        ⟨4, #[], [.text "lost", .null]⟩ := by
    rw [hmethod]
    rfl
  have hseen : (Request.invoke .static ⟨reflectedMethod, "invoke", reflectedDesc⟩ [.null, .null] false).seen
      = .reflected := Request.seen_reflective members_apart.2.2.2
  have hcall : (p.original .plain).Moves ⟨4, #[], [.null, .null, .text "lost", .null]⟩
      [.answered .reflected (some .null)] ⟨5, #[], [.null, .text "lost", .null]⟩ := by
    rw [← hseen]
    refine .answered hasks hat (.answered rfl (Frame.readsValue_of_opcode ⟨by decide, by decide⟩) ?_)
    exact ⟨.null, rfl, fun d hd => by
      cases hd
      exact ⟨rfl, Or.inl rfl⟩⟩
  have hnull : (p.original .plain).Moves (Activation.enter reflecting []) [] ⟨1, #[], [.null]⟩ := hnext rfl
  have htext : (p.original .plain).Moves ⟨1, #[], [.null]⟩ [] ⟨2, #[], [.text "lost", .null]⟩ := hnext rfl
  have hfirst : (p.original .plain).Moves ⟨2, #[], [.text "lost", .null]⟩ []
      ⟨3, #[], [.null, .text "lost", .null]⟩ := hnext rfl
  have hsecond : (p.original .plain).Moves ⟨3, #[], [.null, .text "lost", .null]⟩ []
      ⟨4, #[], [.null, .null, .text "lost", .null]⟩ := hnext rfl
  exact ((((System.Behaves.stops.moves hcall).quietly hsecond).quietly hfirst).quietly htext).quietly hnull

/-- An instruction that makes no call by reflection, but the one that stands in for it. -/
def Instruction.standsIn (instr : Instruction) : Bool :=
  match instr.operand with
  | .member m => !m.isReflective && (m.name != Text.ofString "reflectInvoke" || instr == reflectInvoke)
  | _ => true

set_option maxRecDepth 100000 in
/-- The method is transformed, the other call stands in for its own, and its frames are small. -/
lemma reflecting_computed :
    (((Method.transform {} {} "A" reflecting).run {}).1.toOption.join.any fun nm =>
      nm.code.toList.all Instruction.standsIn) = true
    ∧ reflecting.leavesRoom {} "A" {} 4 = true := by
  decide +kernel

/-- Whatever such a method asks for, it does not call by reflection with two arguments only. -/
lemma seen_ne_reflected {nm : Method} {a a' : Activation} {r : Request} {instr : Instruction}
    (hnm : ∀ instr ∈ nm.code.toList, instr.standsIn = true) (hstep : a.step (.ofMethod nm) = .asks r a')
    (hat : nm.code[a.pc]? = some instr) : r.seen ≠ .reflected := by
  intro hseen
  obtain ⟨mode, m, args, isVoid, rfl⟩ := Request.eq_invoke_of_seen (hseen.trans Request.seen_reflected.symm)
  rw [Running.step_eq hat] at hstep
  obtain ⟨hoperand, -⟩ := Activation.execute_comesFrom hstep
  have hinstr := hnm instr (Array.mem_toList_iff.mpr (Array.mem_of_getElem? hat))
  simp only [Instruction.standsIn, hoperand, Bool.and_eq_true, Bool.not_eq_true', Bool.or_eq_true,
    bne_iff_ne, beq_iff_eq] at hinstr
  obtain ⟨hm, hname⟩ := hinstr
  rw [Request.seen_invoke hm] at hseen
  cases hseen
  obtain rfl := hname.resolve_left (absurd rfl)
  have hinvoke : a.invoke .static (.member ⟨ClassName.coroutine, "reflectInvoke",
      "(Lcore/reflect/Method;Lcore/Object;[Lcore/Object;)Lcore/Object;"⟩) = .asks .reflected a' := hstep
  exact absurd (Activation.length_of_invoke Running.parse_reflectInvoke hinvoke) (by decide)

/-- It is never seen to do so. -/
lemma notMem_reflected {p : Plan} {nm : Method} {c : Running} {es : List Seen} {o : Option Ending}
    (hnm : ∀ instr ∈ nm.code.toList, instr.standsIn = true)
    (h : (p.instrumented .plain nm [] 0).Behaves c es o) :
    Seen.answered .reflected (some .null) ∉ es := by
  obtain ⟨n, h⟩ := h
  have hbrings : ∀ {instr : Instruction} {r : Request} {u : Upshot} {es : List Seen} {a a' : Activation},
      a.step (.ofMethod nm) = .asks r a' → nm.code[a.pc]? = some instr →
        Environment.plain.Brings instr r u es → Seen.answered .reflected (some .null) ∉ es := by
    intro instr r u es a a' hstep hat hbrings he
    cases hbrings with
    | made | passed => cases he
    | answered => exact seen_ne_reflected hnm hstep hat (Seen.answered.inj (List.mem_singleton.mp he)).1.symm
    | raised => cases List.mem_singleton.mp he
  refine fun he => h.forall (P := (· ≠ .answered .reflected (some .null))) ?_ ?_ _ he rfl
  · rintro c es c' hmove e he rfl
    cases hmove with
    | proceeds => cases he
    | answered hstep hat _ hr | caught hstep hat _ hr => exact hbrings hstep hat hr he
    | suspended _ hpoint =>
        obtain heq := List.mem_singleton.mp he
        cases hpoint <;> cases heq
  · rintro c es out hend e he rfl
    cases hend with
    | threw hstep hat _ hr => exact hbrings hstep hat hr he
    | _ => cases he

/-- A call by reflection that has the two declared arguments alone is replaced by one that takes three, and
the third is a value that the method goes on with. -/
lemma reflecting_misbehaves : ∃ nm h' p,
    (Method.transform {} {} "A" reflecting).run {} = (.ok (some nm), h')
      ∧ reflecting.Amenable ∧ Plan.Makes {} "A" reflecting {} p nm ∧ p.NumbersFit
      ∧ Environment.plain.Serves {} {} "A" reflecting []
      ∧ (∀ r obj, Environment.plain.raises r obj → ¬ Environment.plain.surroundings.IsSignal obj)
      ∧ ({} : FrameStack Value).Fresh
      ∧ ¬ ∀ (es : List Seen) (o : Option Ending),
        (p.original .plain).Behaves (Activation.enter reflecting []) es o
          ↔ (p.instrumented .plain nm [] 0).Behaves ⟨Activation.enter nm [], {}⟩ es o := by
  obtain ⟨nm, h', ht, hnm⟩ := Conclusion.exists_some reflecting_computed.1
  obtain ⟨p, hp⟩ := Method.transform_makes ht
  have hserves : Environment.plain.Serves {} {} "A" reflecting [] := by
    refine Environment.plain_serves (fun cls => ?_) ⟨⟨[], "Lcore/Object;"⟩, rfl, .nil⟩
    simp [reflecting, Instruction.member, Instruction.plain]
  refine ⟨nm, h', p, ht, reflecting_amenable, hp, hp.numbersFit reflecting_computed.2, hserves,
    Environment.plain_signals, FrameStack.fresh_empty, fun hbehaves => ?_⟩
  have hseen := (hbehaves _ _).mp (reflecting_calls hp)
  exact notMem_reflected (List.all_eq_true.mp hnm) hseen (List.mem_singleton.mpr rfl)

/-! ## A suspend signal that the method throws -/

/-- A method that makes a call, and then throws its argument and catches it. -/
def rethrowing : Method where
  name := "f"
  desc := "(Lcore/Throwable;)V"
  flags := Flag.staticBit
  maxLocals := 1
  code := #[.member (.invoke .static) "A" "g" "()V", .mark 0, .slot (.load .ref) 0, .plain .throw,
    .mark 1, .plain .pop, .plain .returnVoid]
  ranges := [⟨ClassName.throwable, 0, 1, 1⟩]

/-- Texts, and objects that can be thrown, as suspend signals too. -/
def World.signalling : World where
  inst v c := c = ClassName.object ∨ (∃ t, v = .text t) ∧ c = ClassName.string
    ∨ (∃ o, v = .object o) ∧ (c = "A" ∨ c = ClassName.throwable ∨ c = ClassName.suspendSignal)
  inst_object _ := Or.inl rfl
  not_inst_null v h := by
    rcases h with h | ⟨-, h⟩ | ⟨-, h | h | h⟩ <;> exact absurd h (by decide)
  made _ c := c = "A"
  inst_of_made h := Or.inr (Or.inr ⟨⟨_, rfl⟩, Or.inl h⟩)
  inst_text t := Or.inr (Or.inl ⟨⟨t, rfl⟩, rfl⟩)

/-- An environment in which the suspend signal is one object, and another one is thrown. -/
def Environment.signalling : Environment where
  toWorld := .signalling
  surroundings :=
    { handle := 0, signal := 1, signal_isA := by decide
      isA := fun _ cls => cls == ClassName.throwable || cls == ClassName.suspendSignal }
  raises r obj := r = .throw 3 ∧ obj = 3

lemma Environment.signalling_conforms : Environment.signalling.Conforms where
  throwable _ obj _ := Or.inr (Or.inr ⟨⟨obj, rfl⟩, Or.inr (Or.inl rfl)⟩)
  isA _ obj cls _ h := by
    simp only [signalling, Bool.or_eq_true, beq_iff_eq] at h
    exact Or.inr (Or.inr ⟨⟨obj, rfl⟩, Or.inr h⟩)
  throw _ _ h := by
    obtain ⟨hthrow, rfl⟩ := h
    exact (Request.throw.inj hthrow).symm
  cast _ _ _ h := by cases h.1
  create _ _ h := by cases h.1
  yields _ _ _ _ _ h := by cases h.1

lemma Environment.signalling_serves : Environment.signalling.Serves {} {} "A" rethrowing [.object 3] where
  source := ClassSource.agrees_nothing _
  known := Hierarchy.agrees_nothing _
  conforms := signalling_conforms
  objects cls h := by
    simp [rethrowing, Instruction.member, Instruction.slot, Instruction.plain, Instruction.mark] at h
  arguments := ⟨⟨["Lcore/Throwable;"], "V"⟩, rfl,
    .cons ⟨rfl, Or.inr (Or.inr (Or.inr ⟨⟨3, rfl⟩, Or.inr (Or.inl rfl)⟩))⟩ .nil⟩

lemma rethrowing_unreflective : ∀ instr ∈ rethrowing.code.toList, ∀ callee,
    instr.callee? = some callee → callee.isReflective = false := by
  intro instr hi callee hc
  simp only [rethrowing, List.mem_cons, List.not_mem_nil, or_false] at hi
  rcases hi with rfl | rfl | rfl | rfl | rfl | rfl | rfl
  case inl =>
    obtain rfl := Option.some.inj hc
    exact members_apart.1
  all_goals cases hc

lemma rethrowing_amenable : rethrowing.Amenable where
  wellFormed := by
    unfold Instruction.WellFormed
    decide
  declared instr hi callee hc hreflective := by
    simp [rethrowing_unreflective instr hi callee hc] at hreflective
  receiver h := absurd h (by decide)

set_option maxRecDepth 100000 in
/-- The method is transformed, its frames are small, and its handler catches what it throws. -/
lemma rethrowing_computed :
    (((Method.transform {} {} "A" rethrowing).run {}).1.toOption.join).isSome = true
      ∧ rethrowing.leavesRoom {} "A" {} 4 = true
      ∧ (Body.ofMethod rethrowing).handlerFor (Environment.signalling.surroundings.isA 3) 3 = some 4 := by
  decide +kernel

/-- The method catches what it throws, and returns. -/
lemma rethrowing_catches {p : Plan} {nm : Method} (hp : Plan.Makes {} "A" rethrowing {} p nm) :
    (p.original .signalling).Behaves (Activation.enter rethrowing [.object 3])
      [.answered .call none, .raised (.throw 3) 3] (some (.outcome (.returned .null))) := by
  have hmethod := hp.method_eq
  have hat : ∀ {i : Nat} {instr}, rethrowing.code[i]? = some instr → p.code[i]? = some instr := by
    unfold Plan.code
    rw [hmethod]
    exact id
  have hstep : ∀ {a s}, Activation.step (.ofMethod rethrowing) a = s →
      Activation.step (.ofMethod p.subject.method) a = s := by
    rw [hmethod]
    exact id
  have hasks : Activation.step (.ofMethod p.subject.method) (Activation.enter rethrowing [.object 3])
      = .asks .call ⟨0, #[.object 3], []⟩ := hstep rfl
  have hcode : p.code[0]? = some (.member (.invoke .static) "A" "g" "()V") := hat rfl
  have hcall : (p.original .signalling).Moves (Activation.enter rethrowing [.object 3])
      [.answered .call none] ⟨1, #[.object 3], []⟩ := by
    rw [← Request.seen_call]
    exact .answered hasks hcode (.answered rfl (Frame.readsValue_of_opcode ⟨by decide, by decide⟩) rfl)
  have hmark : (p.original .signalling).Moves ⟨1, #[.object 3], []⟩ [] ⟨2, #[.object 3], []⟩ :=
    .next (hstep rfl)
  have hload : (p.original .signalling).Moves ⟨2, #[.object 3], []⟩ [] ⟨3, #[.object 3], [.object 3]⟩ :=
    .next (hstep rfl)
  have hthrows : Activation.step (.ofMethod p.subject.method) ⟨3, #[.object 3], [.object 3]⟩
      = .asks (.throw 3) ⟨3, #[.object 3], []⟩ := hstep rfl
  have hthrow : (p.original .signalling).Moves ⟨3, #[.object 3], [.object 3]⟩ [.raised (.throw 3) 3]
      ⟨4, #[.object 3], [.object 3]⟩ := by
    have hcaught : (Body.ofMethod p.subject.method).handlerFor (Environment.signalling.surroundings.isA 3) 3
        = some 4 := by
      rw [hmethod]
      exact rethrowing_computed.2.2
    exact .caught hthrows (hat rfl) (.raised ⟨rfl, rfl⟩) hcaught
  have hhandler : (p.original .signalling).Moves ⟨4, #[.object 3], [.object 3]⟩ []
      ⟨5, #[.object 3], [.object 3]⟩ := .next (hstep rfl)
  have hpop : (p.original .signalling).Moves ⟨5, #[.object 3], [.object 3]⟩ [] ⟨6, #[.object 3], []⟩ :=
    .next (hstep rfl)
  have hreturns : (p.original .signalling).Behaves ⟨6, #[.object 3], []⟩ []
      (some (.outcome (.returned .null))) := .ends (.returned (hstep rfl)) (Or.inr rfl)
  exact (((((hreturns.quietly hpop).quietly hhandler).moves hthrow).quietly hload).quietly hmark).moves hcall

/-- A transformed method does not return once it has thrown a suspend signal. -/
lemma rethrowing_misbehaves : ∃ nm h' p,
    (Method.transform {} {} "A" rethrowing).run {} = (.ok (some nm), h')
      ∧ rethrowing.Amenable
      ∧ (∀ instr ∈ rethrowing.code.toList, ∀ callee, instr.callee? = some callee →
        callee.isReflective = false)
      ∧ Plan.Makes {} "A" rethrowing {} p nm ∧ p.NumbersFit
      ∧ Environment.signalling.Serves {} {} "A" rethrowing [.object 3] ∧ ({} : FrameStack Value).Fresh
      ∧ ¬ ∀ (es : List Seen) (o : Option Ending),
        (p.original .signalling).Behaves (Activation.enter rethrowing [.object 3]) es o
          ↔ (p.instrumented .signalling nm [.object 3] 0).Behaves
              ⟨Activation.enter nm [.object 3], {}⟩ es o := by
  obtain ⟨nm, h', ht⟩ := Method.exists_transformed rethrowing_computed.1
  obtain ⟨p, hp⟩ := Method.transform_makes ht
  have hfit := hp.numbersFit rethrowing_computed.2.1
  refine ⟨nm, h', p, ht, rethrowing_amenable, rethrowing_unreflective, hp, hfit,
    Environment.signalling_serves, FrameStack.fresh_empty, fun hbehaves => ?_⟩
  obtain ⟨n, hshows⟩ := (hbehaves _ _).mp (rethrowing_catches hp)
  have hready := hp.ready hfit Environment.signalling_serves.source Environment.signalling_serves.known
  have hleft := Running.shows_signal (x := 3) (r := .throw 3) hready Environment.signalling_conforms
    (show Environment.signalling.surroundings.isA 3 ClassName.suspendSignal = true by decide) (by decide)
    hshows (by simp)
  rcases hleft with hleft | hleft <;> cases hleft

end Suspension
