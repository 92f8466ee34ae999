import Suspension.Proofs.Frame.Soundness
import Suspension.Proofs.Instrument.Points
import Suspension.Proofs.Machine.Heap
import Suspension.Proofs.Machine.Names

/-!
# Runs of analysed methods

**A method that has been analysed runs as its frame types say.**  At every instruction that a run
reaches the analysis has a frame, the operand stack is as high as in the frame, and every slot holds
what the frame says of it.  So no step of the run crashes, and none falls off the end of the code.

* `Machine.Conforms` — a value is what a slot type says, in a state of the machine.
* `Exec.Round` — one round of the loop that runs an activation.
* `Analysis.run_sound` — the frame types of a method hold in all its runs.
-/

namespace Suspension

open Machine

/-! ## Values in a machine -/

namespace Machine

/-- An object that was made for a class. -/
def Made (s : Machine) (o : ObjectId) (cls : Text) : Prop :=
  ∃ obj c, s.object? o = some obj ∧ s.classes[obj.cls]? = some c ∧ c.file.name = cls

/-- **What a slot type says about a value**: the kind of the value; that it is null, if that is the type;
and for a pending construction that it is an object of the class. -/
def Conforms (s : Machine) : SlotType → Value → Prop
  | .unusable, _ => True
  | .ref c, v => v.kind = .ref ∧ (c = ClassName.null → v = .null)
  | .pending _ c _, v => ∃ o, v = .object o ∧ s.Made o c
  | .int, v => v.kind = .int
  | .long, v => v.kind = .long
  | .float, v => v.kind = .float
  | .double, v => v.kind = .double

lemma Made.extends {s s' : Machine} {o : ObjectId} {cls : Text} (h : s.Made o cls)
    (hs : Extends s s') : s'.Made o cls := by
  obtain ⟨obj, c, ho, hc, hn⟩ := h
  cases o with
  | zero => cases ho
  | succ i =>
      obtain ⟨obj', ho', hcls⟩ := hs.objects i obj ho
      obtain ⟨c', hc', hn'⟩ := hs.classes obj.cls c hc
      exact ⟨obj', c', ho', hcls ▸ hc', hn'.trans hn⟩

/-- A state of a machine as a world. -/
def world (s : Machine) : World where
  toClasses := Classes.notNull
  made o c := s.Made o c ∧ ¬ NamesNull c
  inst_of_made h := h.2
  inst_text _ := NamesNull.not_string

lemma world_later {s s' : Machine} (h : Extends s s') : s.world.Later s'.world :=
  ⟨rfl, fun _ _ hm => ⟨hm.1.extends h, hm.2⟩⟩

lemma conforms_of_holds {s : Machine} {t : SlotType} {v : Value} (h : s.world.Holds t v) :
    s.Conforms t v := by
  cases t with
  | ref c =>
      refine ⟨h.1, fun hc => h.2.resolve_right fun hi => ?_⟩
      exact hi (hc ▸ .null)
  | pending n c copied =>
      obtain ⟨o, rfl, hm⟩ := h
      exact ⟨o, rfl, hm.1⟩
  | _ => exact h

/-- A value of the kind that a descriptor declares. -/
lemma holds_ofDesc {s : Machine} {desc : Text} {v : Value}
    (hdesc : ¬ NamesNull (Descriptor.classOf desc))
    (hv : ∀ k, Descriptor.kind? desc = some k → v.kind = k) : s.world.Holds (.ofDesc desc) v := by
  unfold SlotType.ofDesc
  split
  case h_5 hk => exact ⟨hv _ hk, Or.inr hdesc⟩
  case h_6 => trivial
  all_goals
    next hk => exact hv _ hk

end Machine

/-! ## Loading -/

namespace Exec

variable {α β : Type}

/-- An action that goes well after another has gone well. -/
lemma run_bind_ok {x : Exec α} {f : α → Exec β} {s s' : Machine} {b : β}
    (h : (x >>= f).run s = (.ok b, s')) :
    ∃ a s₁, x.run s = (.ok a, s₁) ∧ (f a).run s₁ = (.ok b, s') := by
  rw [run_bind] at h
  split at h
  · next a s₁ hx => exact ⟨a, s₁, hx, h⟩
  · cases h

/-- A transformed class keeps its name. -/
lemma onClass_name {i : Instrumenter} {c c' : Class} {r : ClassReport} {h : Hierarchy}
    (hrun : ((i.onClass c).run h).1 = some (some c', r)) : c'.name = c.name := by
  obtain ⟨_, -, rfl⟩ := Instrumenter.onClass_eq_some hrun
  rfl

lemma onLoad_name {i : Instrumenter} {c c' : Class} {h : Hierarchy}
    (hrun : ((i.onLoad c).run h).1 = .ok c') : c'.name = c.name := by
  obtain ⟨c?, r, hclass, rfl⟩ := Instrumenter.onLoad_eq_ok hrun
  cases c? with
  | none => rfl
  | some c' => exact onClass_name hclass

lemma transformed_name {c c' : Class} {s s' : Machine}
    (h : (transformed c).run s = (.ok c', s')) : c'.name = c.name := by
  obtain ⟨m, s₁, hget, h⟩ := run_bind_ok h
  cases hget
  split at h
  · cases h
    rfl
  · next i _ =>
      obtain ⟨r, s₂, hr, h⟩ := run_bind_ok h
      have hload : ((i.onLoad c).run s.hierarchy).1 = r := Except.ok.inj (congrArg Prod.fst hr)
      cases r with
      | ok c'' =>
          cases h
          exact onLoad_name hload
      | error | endless => cases h

lemma readClass_name {name : Text} {c : Class} {s s' : Machine}
    (h : (readClass name).run s = (.ok c, s')) : c.name = name := by
  obtain ⟨m, s₁, hget, h⟩ := run_bind_ok h
  split at h
  · cases h
  · split at h
    · cases h
    · split at h
      · cases h
      · next hname =>
          cases h
          simpa using hname

/-- **A loaded class has the name that it was loaded by.** -/
lemma loadWithin_name {fuel : Nat} {name : Text} {s s' : Machine} {id : ClassId}
    (h : (loadWithin fuel name).run s = (.ok id, s')) :
    ∃ c, s'.classes[id]? = some c ∧ c.file.name = name := by
  cases fuel with
  | zero => cases h
  | succ fuel =>
      obtain ⟨m, s₁, hget, h⟩ := run_bind_ok h
      cases hget
      split at h
      · next id' hid =>
          cases h
          obtain ⟨hlt, hname, -⟩ := Array.findIdx?_eq_some_iff_getElem.mp hid
          exact ⟨_, Array.getElem?_eq_getElem hlt, by simpa using hname⟩
      · obtain ⟨c, s₂, hc, h⟩ := run_bind_ok h
        obtain ⟨file, s₃, hfile, h⟩ := run_bind_ok h
        have hname : file.name = name := (transformed_name hfile).trans (readClass_name hc)
        -- the superclass and the interfaces are loaded first, then the class itself
        have hpush : ∀ {super : Option ClassId} {t : Machine}, ExceptT.run (do
            let interfaces ← file.interfaces.mapM (loadWithin fuel)
            modifyGet fun m =>
              (m.classes.size, { m with classes := m.classes.push (link m file super interfaces) }))
              t = (.ok id, s') → ∃ c, s'.classes[id]? = some c ∧ c.file.name = name := by
          intro super t hrest
          obtain ⟨interfaces, t', -, hrest⟩ := run_bind_ok hrest
          cases hrest
          exact ⟨_, Array.getElem?_push_size, hname⟩
        dsimp only at h
        split at h
        · exact hpush h
        · obtain ⟨super, s₄, -, h⟩ := run_bind_ok h
          exact hpush h

/-- **What `new` makes** is an object of the class. -/
lemma create_made {call : Caller} (hcall : ∀ m args, Keeps Extends (call m args)) {name : Text}
    {s s' : Machine} {v : Value} (h : (create call name).run s = (.ok v, s')) :
    ∃ o, v = .object o ∧ s'.Made o name := by
  obtain ⟨cls, s₁, hcls, h⟩ := run_bind_ok h
  obtain ⟨m, s₂, hget, h⟩ := run_bind_ok h
  cases hget
  have hclass : ∃ c, s₁.classes[cls]? = some c ∧ c.file.name = name := by
    obtain ⟨id, s₃, hload, hcls⟩ := run_bind_ok hcls
    obtain ⟨n, s₄, hget, hload⟩ := run_bind_ok hload
    obtain ⟨c, hc, hname⟩ := loadWithin_name hload
    obtain ⟨u, s₅, hstart, hcls⟩ := run_bind_ok hcls
    cases hcls
    have hext : Extends s₃ s₁ := by
      have := keeps_startWithin hcall (cls + 1) cls s₃
      rw [start] at hstart
      rw [hstart] at this
      exact this
    obtain ⟨c', hc', hname'⟩ := hext.classes cls c hc
    exact ⟨c', hc', hname'.trans hname⟩
  obtain ⟨c, hc, hname⟩ := hclass
  dsimp only at h
  split at h
  · obtain ⟨_, _, hraise, -⟩ := run_bind_ok h
    obtain ⟨_, _, -, hraise⟩ := run_bind_ok hraise
    cases hraise
  · obtain ⟨o, s₃, halloc, h⟩ := run_bind_ok h
    cases h
    cases halloc
    exact ⟨_, rfl, _, c, Array.getElem?_push_size, hc, hname⟩

end Exec

/-! ## Answers -/

/-- **The kind of value that a read or a call declares**: by its descriptor, or by the instruction that
loads an element. -/
def Request.declared? (instr : Instruction) : Request → Option Kind
  | .getStatic m => Descriptor.kind? m.desc
  | .getField _ _ =>
    match instr.operand with
    | .member m => Descriptor.kind? m.desc
    | _ => none
  | .getElement _ _ =>
    match instr.opcode with
    | .arrayLoad k => some k
    | _ => none
  | .invoke _ m _ _ =>
    match Descriptor.parseMethod m.desc with
    | .ok d => Descriptor.kind? d.result
    | .error _ => none
  | _ => none

/-- **An answer has the kind that is declared.** -/
def Request.Yields (instr : Instruction) (r : Request) (answer : Option Value) : Prop :=
  ∀ k, r.declared? instr = some k → ∀ v, answer = some v → v.kind = k

namespace Exec

variable {call : Caller}

lemma raise_ne_ok {α : Type} {cls message : Text} {s s' : Machine} {v : α} :
    (raise call cls message : Exec α).run s ≠ (.ok v, s') := by
  intro h
  obtain ⟨_, _, -, h⟩ := run_bind_ok h
  cases h

lemma castFailed_ne_ok {w : Value} {cls : Text} {s s' : Machine} {v : Option Value} :
    (castFailed call w cls).run s ≠ (.ok v, s') := by
  intro h
  obtain ⟨r, _, -, h⟩ := run_bind_ok h
  cases r with
  | ok c =>
      obtain ⟨_, _, -, h⟩ := run_bind_ok h
      obtain ⟨_, _, -, h⟩ := run_bind_ok h
      exact raise_ne_ok h
  | error e =>
      obtain ⟨_, _, -, h⟩ := run_bind_ok h
      exact raise_ne_ok h

/-- Only an array has elements. -/
lemma elementOf_ne_null {arr : Value} {index : Int32} {s s' : Machine}
    {x : ArrayId × HeapArray × Nat} (h : (elementOf call arr index).run s = (.ok x, s')) :
    arr ≠ .null := by
  rintro rfl
  obtain ⟨_, _, h, -⟩ := run_bind_ok h
  exact raise_ne_ok h

/-- **The machine's answers are such as frame types expect**, if only their kinds are right. -/
lemma answer_admits (hcall : ∀ m args, Keeps Extends (call m args)) {owner : Text} {m : Method}
    (hm : m.AvoidsNull owner) {instr : Instruction} (hi : instr ∈ m.code) {r : Request}
    (hr : r.ComesFrom instr) {s s' : Machine} {v : Option Value}
    (h : (answer call r).run s = (.ok v, s')) (hv : r.Yields instr v) :
    r.Admits s'.world instr v := by
  unfold answer at h
  cases r with
  | fail f => cases h
  | raise cls message => exact absurd h raise_ne_ok
  | throw obj => cases h
  | getStatic x =>
      obtain ⟨_, _, -, h⟩ := run_bind_ok h
      obtain ⟨_, _, -, h⟩ := run_bind_ok h
      cases h
      exact ⟨_, rfl, holds_ofDesc (hm.fields instr hi x hr) fun k hk => hv k hk _ rfl⟩
  | putStatic x w =>
      obtain ⟨_, _, -, h⟩ := run_bind_ok h
      obtain ⟨_, _, -, h⟩ := run_bind_ok h
      obtain ⟨_, _, -, h⟩ := run_bind_ok h
      cases h
      rfl
  | getField obj name =>
      obtain ⟨x, hx⟩ := hr
      obtain ⟨_, _, -, h⟩ := run_bind_ok h
      cases h
      refine ⟨_, x, rfl, hx, holds_ofDesc (hm.fields instr hi x hx) fun k hk => hv k ?_ _ rfl⟩
      simp only [Request.declared?, hx, hk]
  | putField obj name w =>
      obtain ⟨_, _, -, h⟩ := run_bind_ok h
      obtain ⟨_, _, -, h⟩ := run_bind_ok h
      cases h
      rfl
  | getElement arr index =>
      obtain ⟨k, hk⟩ := hr
      obtain ⟨_, _, helem, h⟩ := run_bind_ok h
      cases h
      have hkind := hv k (by simp only [Request.declared?, hk]) _ rfl
      refine ⟨elementOf_ne_null helem, _, k, rfl, hk, hkind, fun href c hc => ?_⟩
      obtain ⟨d, hd, hnull⟩ := NamesNull.not_element hc
      rw [hd]
      exact ⟨href ▸ hkind, Or.inr hnull⟩
  | putElement k arr index w =>
      obtain ⟨_, _, -, h⟩ := run_bind_ok h
      cases h
      rfl
  | length arr =>
      obtain ⟨_, _, -, h⟩ := run_bind_ok h
      cases h
      exact ⟨_, rfl⟩
  | create cls =>
      obtain ⟨w, _, hcreate, h⟩ := run_bind_ok h
      cases h
      obtain ⟨o, rfl, hmade⟩ := create_made hcall hcreate
      exact ⟨o, rfl, hmade, (hm.types instr hi cls hr).1⟩
  | createArray elem size =>
      obtain ⟨t, ht, helem⟩ := hr
      obtain ⟨_, _, -, h⟩ := run_bind_ok h
      cases h
      refine ⟨_, rfl, fun hnull => ?_⟩
      rcases helem with rfl | rfl
      · exact (hm.types instr hi elem ht).2 hnull
      · exact (hm.types instr hi t ht).1 (NamesNull.of_classArray hnull)
  | cast w cls =>
      obtain ⟨b, _, -, h⟩ := run_bind_ok h
      split at h
      · cases h
        exact ⟨rfl, (hm.types instr hi cls hr).1⟩
      · exact absurd h castFailed_ne_ok
  | isInstance w cls =>
      obtain ⟨_, _, -, h⟩ := run_bind_ok h
      cases h
      exact ⟨_, rfl⟩
  | invoke mode x args isVoid =>
      obtain ⟨hx, d, hd, rfl⟩ := hr
      obtain ⟨_, _, -, h⟩ := run_bind_ok h
      obtain ⟨_, _, -, h⟩ := run_bind_ok h
      cases h
      simp only [Request.Admits]
      split
      · rfl
      · refine ⟨_, rfl, fun d' hd' => ?_⟩
        rw [hd] at hd'
        cases hd'
        refine holds_ofDesc (hm.results instr hi x hx d hd) fun k hk => hv k ?_ _ ?_
        · simp only [Request.declared?, hd, hk]
        · next hvoid => rw [if_neg hvoid]

/-! ## Rounds -/

/-- **One round of the loop that runs an activation**: a step that goes on, a request that is answered
with the kind of value it declares, or an exception that the method catches. -/
inductive Round (call : Caller) (m : LoadedMethod) :
    Activation × Machine → Activation × Machine → Prop where
  | next {a a' : Activation} {s : Machine} (hstep : a.step m.body = .next a') :
      Round call m (a, s) (a', s)
  | answered {a a' : Activation} {s s' : Machine} {r : Request} {v : Option Value}
      {instr : Instruction} (hinstr : m.body.code[a.pc]? = some instr)
      (hstep : a.step m.body = .asks r a') (hanswer : (answer call r).run s = (.ok v, s'))
      (hyields : r.Yields instr v) : Round call m (a, s) (a'.answered v, s')
  | caught {a a' a'' : Activation} {s s' : Machine} {r : Request} {f : Fault}
      (hstep : a.step m.body = .asks r a')
      (hanswer : (answer call r).run s = (.error (.fault f), s'))
      (hcaught : handled m a' f s' = some a'') : Round call m (a, s) (a'', s')

/-- The loop goes from round to round. -/
lemma Round.loop_eq {m : LoadedMethod} {c c' : Activation × Machine} (h : Round call m c c')
    (fuel : Nat) : loop call m (fuel + 1) c.1 c.2 = loop call m fuel c'.1 c'.2 := by
  cases h with
  | next hstep => simp only [loop, hstep]
  | answered hinstr hstep hanswer hyields => simp only [loop, hstep, hanswer]
  | caught hstep hanswer hcaught => simp only [loop, hstep, hanswer, hcaught]

end Exec

namespace FrameTypes

/-- A round takes nothing back, and an activation that holds what the frame types say still does so
after it. -/
lemma Certified.round {call : Caller} (hcall : ∀ m args, Exec.Keeps Extends (call m args)) {owner : Text}
    {m : LoadedMethod} {T : FrameTypes} (hT : T.Certified Classes.notNull owner m.method)
    (hbody : m.body = .ofMethod m.method) (hwf : ∀ i ∈ m.method.code, Instruction.WellFormed i)
    (hm : m.method.AvoidsNull owner) {c c' : Activation × Machine}
    (hc : T.Fits c.2.world c.1) (h : Exec.Round call m c c') : T.Fits c'.2.world c'.1 := by
  obtain ⟨a, s⟩ := c
  obtain ⟨instr, hcode, -, hfine⟩ :=
    Certified.step_fine (show T.Certified s.world.toClasses owner m.method from hT) hwf hc
  rw [← hbody] at hfine
  cases h with
  | next hstep =>
      rw [hstep] at hfine
      exact hfine
  | answered hinstr hstep hanswer hyields =>
      next a' s' r v instr' =>
      rw [hbody] at hinstr
      have heq : some instr = some instr' := hcode.symm.trans hinstr
      cases heq
      have hext := Exec.keeps_answer hcall r s
      rw [hanswer] at hext
      rw [hstep] at hfine
      have hfrom : r.ComesFrom instr := by
        have hexec : a.step m.body = a.execute m.body.target instr := by
          have hat : m.body.code[a.pc]? = some instr := hbody ▸ hcode
          simp only [Activation.step, hat]
        exact Activation.execute_comesFrom (hexec.symm.trans hstep)
      exact hfine.2.1 s'.world (world_later hext) v
        (Exec.answer_admits hcall hm (Array.mem_of_getElem? hcode) hfrom hanswer hyields)
  | caught hstep hanswer hcaught =>
      next a' a'' s' r f =>
      have hext := Exec.keeps_answer hcall r s
      rw [hanswer] at hext
      rw [hstep] at hfine
      unfold Exec.handled at hcaught
      split at hcaught
      · cases hcaught
      next obj _ _ =>
      obtain ⟨pc, hpc, rfl⟩ := Option.map_eq_some_iff.mp hcaught
      rw [hbody] at hpc
      refine hfine.2.2 s'.world (world_later hext) _ obj pc hpc fun x hx _ => ?_
      unfold Analysis.caughtClass
      split
      · exact NamesNull.not_throwable
      · exact hm.ranges x hx

end FrameTypes

/-! ## Whole runs -/

/-- **An activation is as a frame says**, in a state of the machine. -/
structure Frame.Describes (s : Machine) (f : Frame) (a : Activation) : Prop where
  height : a.stack.length = f.stack.length
  stack : List.Forall₂ s.Conforms f.stack a.stack
  locals : List.Forall₂ s.Conforms f.locals.toList a.locals.toList

/-- **An activation whose next step goes well**: there is an instruction, the labels that it names are
marked, it finds the values that it takes, and they are of the kinds that it expects. -/
structure Activation.Safe (m : LoadedMethod) (a : Activation) : Prop where
  fetches : ∃ instr, m.body.code[a.pc]? = some instr ∧
    ∀ id ∈ instr.targets, ∃ t, m.method.code.labelAt? id = some t
  not_crash : a.step m.body ≠ .crash
  not_fellOff : a.step m.body ≠ .fellOff
  supplied : ∀ x a', a.step m.body ≠ .asks (.putStatic x none) a'

lemma Frame.Fits.describes {s : Machine} {f : Frame} {a : Activation} (h : f.Fits s.world a) :
    f.Describes s a where
  height := h.stack.length_eq.symm
  stack := h.stack.imp fun _ _ => conforms_of_holds
  locals := h.locals.imp fun _ _ => conforms_of_holds

/-- The arguments of a method that mentions no class named `null`. -/
lemma holds_of_entry {owner : Text} {m : Method} (hm : m.AvoidsNull owner) {f : Frame}
    (hf : Analysis.entryFrame owner m = .ok f) {s : Machine} {t : SlotType} (ht : t ∈ f.locals)
    {v : Value} (hv : s.Conforms t v) : s.world.Holds t v := by
  obtain ⟨d, hd, -, rfl⟩ := Analysis.entryFrame_eq_ok hf
  simp only [Analysis.givenSlots, List.mem_toArray, List.mem_append, List.mem_map,
    List.mem_replicate] at ht
  rcases ht with (ht | ⟨desc, hdesc, rfl⟩) | ⟨-, rfl⟩
  · split at ht
    · simp at ht
    · obtain rfl := List.mem_singleton.mp ht
      exact ⟨hv.1, Or.inr hm.owner⟩
  · refine holds_ofDesc (hm.params d hd desc hdesc) fun k hk => ?_
    unfold SlotType.ofDesc at hv
    rw [hk] at hv
    cases k with
    | ref => exact hv.1
    | _ => exact hv
  · trivial

namespace FrameTypes

variable {owner : Text} {m : LoadedMethod} {T : FrameTypes}

/-- The first step of an activation that holds what the frame types say. -/
lemma Certified.safe (hT : T.Certified Classes.notNull owner m.method)
    (hbody : m.body = .ofMethod m.method) (hwf : ∀ i ∈ m.method.code, Instruction.WellFormed i)
    {s : Machine} {a : Activation} (ha : T.Fits s.world a) : a.Safe m := by
  obtain ⟨instr, hcode, htargets, hfine⟩ :=
    Certified.step_fine (show T.Certified s.world.toClasses owner m.method from hT) hwf ha
  rw [← hbody] at hfine
  refine ⟨⟨instr, hbody ▸ hcode, htargets⟩, fun h => ?_, fun h => ?_, fun x a' h => ?_⟩
  · rw [h] at hfine
    exact hfine
  · rw [h] at hfine
    exact hfine
  · obtain ⟨f, hf, hfits⟩ := ha
    obtain ⟨instr', after, spans, -, hsettled⟩ := hT.settled a.pc f hf
    have hat : m.body.code[a.pc]? = some instr' := hbody ▸ hsettled.code_at
    simp only [Activation.step, hat] at h
    have hnil := Activation.stack_eq_nil_of_putStatic h
    have hstack := hfits.stack
    rw [hnil] at hstack
    exact hsettled.transition.stack_ne_nil (Activation.execute_comesFrom h)
      (List.forall₂_nil_right_iff.mp hstack)

/-- Where a run may begin. -/
lemma Certified.enter (hT : T.Certified Classes.notNull owner m.method)
    (hm : m.method.AvoidsNull owner) (hsize : 0 < m.method.code.size) {f : Frame}
    (hf : Analysis.entryFrame owner m.method = .ok f) {s : Machine} {args : List Value}
    (hargs : List.Forall₂ s.Conforms f.locals.toList (Activation.enter m.method args).locals.toList) :
    T.Fits s.world (.enter m.method args) := by
  obtain ⟨f', hf', hreach⟩ := hT.entry
  rw [hf] at hf'
  cases hf'
  have hstack : f.stack = [] := by
    obtain ⟨d, -, -, rfl⟩ := Analysis.entryFrame_eq_ok hf
    rfl
  have hreach : T.Reaches s.world.toClasses f (Activation.enter m.method args).pc := hreach hsize
  refine hreach.fits ⟨hstack ▸ .nil, ?_⟩
  rw [List.forall₂_iff_get] at hargs ⊢
  refine ⟨hargs.1, fun i h₁ h₂ => ?_⟩
  exact holds_of_entry hm hf (Array.mem_toList_iff.mp (List.get_mem _ ⟨i, h₁⟩)) (hargs.2 i h₁ h₂)

end FrameTypes

/-- **The analysis of a method holds in all its runs**, if the method is not empty and no class that
the analysis may hear of extends a class named `null`.  However far a run gets, there is a frame where
it is, the operand stack is as high as in the frame, all slots hold what the frame says of them, and
the next step goes well. -/
theorem Analysis.run_sound {ctx : AnalysisContext} {m : LoadedMethod} {h h' : Hierarchy}
    {T : FrameTypes} (hrun : (Analysis.run ctx).run h = (.ok T, h')) (hmethod : ctx.method = m.method)
    (hbody : m.body = .ofMethod m.method) (hwf : ∀ i ∈ m.method.code, Instruction.WellFormed i)
    (hsize : 0 < m.method.code.size) (hm : m.method.AvoidsNull ctx.owner)
    (hsource : ctx.source.AvoidsNull) (hknown : h.AvoidsNull) {f₀ : Frame}
    (hentry : Analysis.entryFrame ctx.owner m.method = .ok f₀) {s₀ s : Machine} {args : List Value}
    (hargs : List.Forall₂ s₀.Conforms f₀.locals.toList
      (Activation.enter m.method args).locals.toList) {fuel : Nat} {a : Activation}
    (hreach : Relation.ReflTransGen (Exec.Round (Exec.call fuel) m)
      (.enter m.method args, s₀) (a, s)) :
    (∃ f, T.frames[a.pc]? = some (some f) ∧ f.Describes s a) ∧ a.Safe m := by
  have hT : T.Certified Classes.notNull ctx.owner m.method :=
    hmethod ▸ (run_certified hsource.agrees hknown.agrees hrun).1
  -- every round keeps the frame types
  have hfits : ∀ {c}, Relation.ReflTransGen (Exec.Round (Exec.call fuel) m)
      (.enter m.method args, s₀) c → T.Fits c.2.world c.1 := by
    intro c hc
    induction hc with
    | refl => exact hT.enter hm hsize hentry hargs
    | tail _ hround ih => exact hT.round (Exec.keeps_call fuel) hbody hwf hm ih hround
  have hfits : T.Fits s.world a := hfits hreach
  refine ⟨?_, hT.safe hbody hwf hfits⟩
  obtain ⟨f, hf, hfits⟩ := hfits
  exact ⟨f, hf, hfits.describes⟩

/-- One of two objects is kept, by a number. -/
def choice : Method where
  name := "f"
  desc := "(LA;LB;I)V"
  flags := Flag.staticBit
  maxLocals := 4
  code := #[.slot (.load .int) 2, .jump (.ifInt .eq) 0, .slot (.load .ref) 0, .slot (.store .ref) 3,
    .jump .goto 1, .mark 0, .slot (.load .ref) 1, .slot (.store .ref) 3, .mark 1, .plain .returnVoid]

/-- A method without instructions. -/
def emptyBody : Method where
  name := "f"
  desc := "()V"
  flags := Flag.staticBit

/-- A method that is loaded as it is. -/
def LoadedMethod.ofMethod (m : Method) : LoadedMethod := ⟨0, "Main", m, .ofMethod m⟩

/-- What is known where two classes extend a third one. -/
def Hierarchy.extending (super : Text) : Hierarchy where
  classes := [("A", .known ⟨super, []⟩), ("B", .known ⟨super, []⟩),
    (super, .known ⟨ClassName.object, []⟩)]

/-- A method that works on numbers and on its arguments, and catches nothing. -/
lemma Method.avoidsNull_of_local {m : Method}
    (hcode : ∀ i ∈ m.code, i.operand.kind ≠ .type ∧ i.operand.kind ≠ .member)
    (hparams : ∀ t ∈ ((Descriptor.parseMethod m.desc).toOption.map (·.params)).getD [],
      Descriptor.classOf t ≠ ClassName.null ∧ Descriptor.isArray (Descriptor.classOf t) = false)
    (hranges : m.ranges = []) : m.AvoidsNull "Main" where
  owner := NamesNull.not_of_plain (by decide) (by decide)
  types i hi t ht := absurd (by rw [ht]; rfl) (hcode i hi).1
  fields i hi x hx := absurd (by rw [hx]; rfl) (hcode i hi).2
  results i hi x hx := absurd (by rw [hx]; rfl) (hcode i hi).2
  params d hd t ht := by
    rw [hd] at hparams
    exact NamesNull.not_of_plain (hparams t ht).1 (hparams t ht).2
  ranges r hr := by
    rw [hranges] at hr
    cases hr

lemma choice_avoidsNull : choice.AvoidsNull "Main" :=
  Method.avoidsNull_of_local (by decide) (by decide +kernel) rfl

lemma emptyBody_avoidsNull : emptyBody.AvoidsNull "Main" :=
  Method.avoidsNull_of_local (by decide) (by decide +kernel) rfl

lemma choice_wellFormed : ∀ i ∈ choice.code, Instruction.WellFormed i := by
  unfold Instruction.WellFormed
  decide

/-- The frame at the entry of `choice`. -/
def choiceEntry : Frame where
  locals := #[.ref "A", .ref "B", .int, .unusable]

lemma choiceEntry_eq : Analysis.entryFrame "Main" choice = .ok choiceEntry := by decide +kernel

lemma choiceEntry_conforms (s : Machine) : List.Forall₂ s.Conforms choiceEntry.locals.toList
    (Activation.enter choice [.object 1, .object 2, .int 1]).locals.toList := by
  have hA : Text.ofString "A" ≠ ClassName.null := by decide
  have hB : Text.ofString "B" ≠ ClassName.null := by decide
  exact .cons ⟨rfl, fun h => absurd h hA⟩ (.cons ⟨rfl, fun h => absurd h hB⟩
    (.cons rfl (.cons trivial .nil)))

/-- The first object is kept. -/
lemma choice_reaches (call : Caller) (s : Machine) :
    Relation.ReflTransGen (Exec.Round call (.ofMethod choice))
      (.enter choice [.object 1, .object 2, .int 1], s)
      (⟨8, #[.object 1, .object 2, .int 1, .object 1], []⟩, s) := by
  have hstep : ∀ a a' : Activation, a.step (Body.ofMethod choice) = .next a' →
      Exec.Round call (.ofMethod choice) (a, s) (a', s) := fun _ _ h => .next h
  refine .head (hstep _ _ rfl) (.head (hstep _ _ rfl) (.head (hstep _ _ rfl) ?_))
  exact .head (hstep _ _ rfl) (.single (hstep _ _ rfl))

/-- The theorem where nothing is known about the classes, after the first object has been kept. -/
theorem choice_sound : ∃ T h', (Analysis.run ⟨{}, {}, "Main", choice⟩).run {} = (.ok T, h')
    ∧ (∃ f, T.frames[8]? = some (some f)
      ∧ f.Describes {} ⟨8, #[.object 1, .object 2, .int 1, .object 1], []⟩)
    ∧ Activation.Safe (.ofMethod choice) ⟨8, #[.object 1, .object 2, .int 1, .object 1], []⟩ := by
  have hdone : ((Analysis.run ⟨{}, {}, "Main", choice⟩).run {}).1.toOption.map (fun _ => ()) = some () := by
    decide +kernel
  obtain ⟨T, h', hrun, -⟩ := Conclusion.exists_ok hdone
  have hsource : ClassSource.AvoidsNull {} := fun f hf => by cases hf
  have hknown : Hierarchy.AvoidsNull {} := ⟨(fun h => by cases h), (fun h => by cases h)⟩
  exact ⟨T, h', hrun, Analysis.run_sound (m := .ofMethod choice) hrun rfl rfl choice_wellFormed
    (by decide) choice_avoidsNull hsource hknown choiceEntry_eq (choiceEntry_conforms {})
    (choice_reaches (Exec.call 0) {})⟩

/-- **Where the analysis does not hold.**  A method without instructions is analysed, and its run
falls off the end at once.  And where two classes extend one that is named `null`, a local that may
hold an object of either counts as null. -/
theorem Analysis.run_not_sound :
    (∃ T h', (Analysis.run ⟨{}, {}, "Main", emptyBody⟩).run {} = (.ok T, h')
      ∧ emptyBody.AvoidsNull "Main"
      ∧ (Activation.enter emptyBody []).step (.ofMethod emptyBody) = .fellOff)
    ∧ ∃ T h' f, (Analysis.run ⟨{}, {}, "Main", choice⟩).run (.extending "null") = (.ok T, h')
      ∧ choice.AvoidsNull "Main" ∧ (∀ i ∈ choice.code, Instruction.WellFormed i)
      ∧ Analysis.entryFrame "Main" choice = .ok choiceEntry
      ∧ List.Forall₂ (Machine.Conforms {}) choiceEntry.locals.toList
          (Activation.enter choice [.object 1, .object 2, .int 1]).locals.toList
      ∧ T.frames[8]? = some (some f)
      ∧ Relation.ReflTransGen (Exec.Round (Exec.call 0) (.ofMethod choice))
          (.enter choice [.object 1, .object 2, .int 1], {})
          (⟨8, #[.object 1, .object 2, .int 1, .object 1], []⟩, {})
      ∧ ¬ f.Describes {} ⟨8, #[.object 1, .object 2, .int 1, .object 1], []⟩ := by
  refine ⟨?_, ?_⟩
  · have hdone : ((run ⟨{}, {}, "Main", emptyBody⟩).run {}).1.toOption.map (fun _ => ()) = some () := by
      decide +kernel
    obtain ⟨T, h', hrun, -⟩ := Conclusion.exists_ok hdone
    exact ⟨T, h', hrun, emptyBody_avoidsNull, rfl⟩
  · have hok : ((Analysis.run ⟨{}, {}, "Main", choice⟩).run (.extending "null")).1.toOption.map
        (fun T => T.frames[8]?)
          = some (some (some ⟨#[.ref "A", .ref "B", .int, .ref ClassName.null], []⟩)) := by
      decide +kernel
    obtain ⟨T, h', hrun, hframe⟩ := Conclusion.exists_ok hok
    refine ⟨T, h', _, hrun, choice_avoidsNull, choice_wellFormed, choiceEntry_eq, choiceEntry_conforms _,
      hframe, choice_reaches _ _, ?_⟩
    -- the last local counts as null and holds an object
    rintro ⟨-, -, hlocals⟩
    cases hlocals with
    | cons _ h => cases h with
      | cons _ h => cases h with
        | cons _ h => cases h with
          | cons h _ => exact absurd (h.2 rfl) (by decide)

end Suspension
