import Suspension.Proofs.Code.Validity
import Suspension.Proofs.Frame.Invariants
import Suspension.Proofs.Instrument.Emission
import Suspension.Proofs.Instrument.Runtime

/-!
# Transformed methods are well formed

**If a method passes the checks, so does the method that it is transformed into**: the fresh labels are
marked once each, the parts of a range end no earlier than they start, the locals of the generated code
are below the new bound, and its operands are what its opcodes need.

* `Plan.Generated.straight` — the operands of generated instructions.
* `Plan.Checked.rangeFits` — the parts of a range.
* `Method.transform_validates` — the whole method.
-/

namespace Suspension

/-! ## Operands of generated instructions -/

namespace Instruction

variable {n n' : UInt32} {instr : Instruction}

/-- A method may have more locals. -/
lemma Fits.mono (h : instr.Fits n) (hle : n ≤ n') : instr.Fits n' := by
  unfold Fits at h ⊢
  split at h
  · exact h
  · obtain ⟨i, ho, hi⟩ := h
    exact ⟨i, ho, UInt32.lt_of_lt_of_le hi hle⟩
  · obtain ⟨i, delta, ho, hi⟩ := h
    exact ⟨i, delta, ho, UInt32.lt_of_lt_of_le hi hle⟩
  all_goals exact h

/-- **An instruction as generated code has it**: its operand fits and it does not jump. -/
structure Straight (n : UInt32) (instr : Instruction) : Prop where
  fits : instr.Fits n
  targets : instr.targets = []

@[simp] lemma straight_mark (id : Label) : (mark id).Straight n := ⟨⟨id, rfl⟩, rfl⟩

@[simp] lemma straight_int (v : Int32) : (int v).Straight n := ⟨trivial, rfl⟩

@[simp] lemma straight_pop : (plain .pop).Straight n := ⟨trivial, rfl⟩

@[simp] lemma straight_dup : (plain .dup).Straight n := ⟨trivial, rfl⟩

@[simp] lemma straight_pushNull : (plain .pushNull).Straight n := ⟨trivial, rfl⟩

@[simp] lemma straight_throw : (plain .throw).Straight n := ⟨trivial, rfl⟩

lemma straight_load (k : Kind) {i : UInt32} (hi : i < n) : (slot (.load k) i).Straight n :=
  ⟨⟨i, rfl, hi⟩, rfl⟩

lemma straight_store (k : Kind) {i : UInt32} (hi : i < n) : (slot (.store k) i).Straight n :=
  ⟨⟨i, rfl, hi⟩, rfl⟩

lemma straight_call {mode : InvokeMode} {m : Member} {d : Descriptor.Method} (howner : m.owner ≠ [])
    (hname : m.name ≠ []) (hd : Descriptor.parseMethod m.desc = .ok d) :
    Straight n ⟨.invoke mode, .member m⟩ :=
  ⟨⟨m, rfl, howner, hname, d, hd⟩, rfl⟩

end Instruction

namespace Emit

variable {n : UInt32}

lemma straight_getStack : getStack.Straight n :=
  Instruction.straight_call (d := ⟨[], "Lcoro/Stack;"⟩) (by decide) (by decide) rfl

lemma straight_nextEntry : nextEntry.Straight n :=
  Instruction.straight_call (d := ⟨[], "I"⟩) (by decide) (by decide) rfl

lemma straight_pushMethod : pushMethod.Straight n :=
  Instruction.straight_call (d := ⟨["I", "I", "I"], "V"⟩) (by decide) (by decide) rfl

lemma straight_popMethod : popMethod.Straight n :=
  Instruction.straight_call (d := ⟨[], "V"⟩) (by decide) (by decide) rfl

lemma straight_signal : signal.Straight n := by
  refine ⟨⟨_, rfl, by decide, by decide, ?_⟩, rfl⟩
  show Descriptor.isField _ = true
  rfl

lemma straight_reflectInvoke : reflectInvoke.Straight n :=
  Instruction.straight_call
    (d := ⟨["Lcore/reflect/Method;", "Lcore/Object;", "[Lcore/Object;"], "Lcore/Object;"⟩)
    (by decide) (by decide) rfl

lemma straight_putCall (k : Kind) : (putCall k).Straight n :=
  Instruction.straight_call (by cases k <;> decide) (by cases k <;> decide +kernel)
    (Running.parse_putMember k)

lemma straight_getCall (k : Kind) : (getCall k).Straight n :=
  Instruction.straight_call (by cases k <;> decide) (by cases k <;> decide +kernel)
    (Running.parse_getMember k)

/-- **The generated instructions that depend on nothing.** -/
lemma straight_constants : ∀ instr ∈ constants, instr.Straight n := by
  unfold constants
  refine List.forall_mem_append.mpr ⟨List.forall_mem_append.mpr ⟨?_, ?_⟩, ?_⟩
  · simpa using ⟨straight_getStack, straight_nextEntry, straight_pushMethod, straight_popMethod,
      straight_signal, straight_reflectInvoke⟩
  · exact List.forall_mem_map.mpr fun k _ => straight_putCall k
  · exact List.forall_mem_map.mpr fun k _ => straight_getCall k

end Emit

namespace Plan

variable {p : Plan} {nm : Method}

/-! ## The instructions of a transformed body -/

/-- **The operand of a generated instruction** fits, and it does not jump, the switch to the points apart. -/
lemma Generated.straight {n : UInt32} {instr : Instruction} (h : p.Generated instr)
    (hlocal : ∀ i, p.IsLocal i → i < n) (hnames : ∀ v, p.Holds v → v.Names (· ≠ [])) :
    instr.Straight n ∨
      instr = ⟨.tableSwitch, .table 1 ((List.range p.points.length).map p.callLabel) p.startLabel⟩ := by
  cases h with
  | constant h => exact Or.inl (Emit.straight_constants _ h)
  | mark id => exact Or.inl (Instruction.straight_mark id)
  | number v => exact Or.inl (Instruction.straight_int v)
  | load k hi => exact Or.inl (Instruction.straight_load k (hlocal _ hi))
  | store k hi => exact Or.inl (Instruction.straight_store k (hlocal _ hi))
  | cast hv hk => exact Or.inl ⟨⟨_, rfl, hnames _ hv hk⟩, rfl⟩
  | switch => exact Or.inr rfl

/-- What an instruction of a transformed body may be: one that does not jump, or one of the method. -/
def Admissible (p : Plan) (n : UInt32) (instr : Instruction) : Prop :=
  instr.Straight n ∨ instr.Fits n ∧ instr ∈ p.code.toList

/-- **The number of locals of the transformed method.** -/
lemma LocalsFit.toNat_maxLocals (hfit : p.LocalsFit) (hl : p.Lays nm) :
    nm.maxLocals.toNat = p.stackVar.toNat + 1 + p.temporaries 0 p.code.toList := by
  unfold LocalsFit at hfit
  rw [hl.maxLocals, UInt32.toNat_add, UInt32.toNat_add, UInt32.toNat_ofNat',
    show (1 : UInt32).toNat = 1 from rfl]
  omega

lemma LocalsFit.stackVar_lt (hfit : p.LocalsFit) (hl : p.Lays nm) : p.stackVar < nm.maxLocals := by
  rw [UInt32.lt_iff_toNat_lt, hfit.toNat_maxLocals hl]
  omega

/-- What is known about a plan whose method is well formed. -/
structure Checked (p : Plan) (nm : Method) : Prop where
  lays : p.Lays nm
  sound : p.Sound
  labels : p.LabelsFit
  locals : p.LocalsFit
  wellFormed : p.subject.method.WellFormed
  width : ∀ (i : Nat) (f : Frame), p.subject.types.frames[i]? = some (some f) →
    f.locals.size = p.stackVar.toNat
  names : ∀ (i : Nat) (f : Frame), p.subject.types.frames[i]? = some (some f) → f.Names (· ≠ [])
  admits : ∀ instr ∈ nm.code.toList, p.Admits instr

variable (h : p.Checked nm)
include h

/-- The instructions of the method keep their operands. -/
lemma Checked.admissible {instr : Instruction} (hi : instr ∈ p.code.toList) :
    p.Admissible nm.maxLocals instr :=
  Or.inr ⟨(h.wellFormed.operands instr hi).mono
    (UInt32.le_of_lt (h.locals.stackVar_lt h.lays)), hi⟩

/-- The locals that the generated code uses are there. -/
lemma Checked.local_lt {i : UInt32} (hi : p.IsLocal i) : i < nm.maxLocals := by
  have hS := h.locals.stackVar_lt h.lays
  cases hi with
  | @own k j f hf hj =>
      rw [h.width _ _ hf] at hj
      rw [UInt32.lt_iff_toNat_lt, UInt32.toNat_ofNat'] at *
      omega
  | stack => exact hS
  | temporary hk =>
      rw [UInt32.lt_iff_toNat_lt, h.locals.toNat_temporary hk, h.locals.toNat_maxLocals h.lays]
      omega

/-- The slots that frames hold are of classes with a name. -/
lemma Checked.names_of_holds {v : SlotType} (hv : p.Holds v) : v.Names (· ≠ []) := by
  obtain ⟨i, f, hf, hv | hv⟩ := hv
  · exact (h.names i f hf).1 v hv
  · exact (h.names i f hf).2 v hv

/-- **Every instruction of the transformed body**: one of the method, one that does not jump, or the
switch to the points. -/
lemma Checked.code_admissible {instr : Instruction} (hi : instr ∈ nm.code.toList) :
    p.Admissible nm.maxLocals instr ∨
      instr = ⟨.tableSwitch, .table 1 ((List.range p.points.length).map p.callLabel) p.startLabel⟩ := by
  rcases h.admits instr hi with hmem | hgen
  · exact Or.inl (h.admissible hmem)
  · exact (hgen.straight (fun i => h.local_lt) fun v => h.names_of_holds).imp_left Or.inl

/-! ## Labels -/

/-- **No label is marked twice.** -/
lemma Checked.unique {i j : Nat} {id : Label} (hi : nm.code.markAt? i = some id)
    (hj : nm.code.markAt? j = some id) : i = j := by
  rcases (h.lays.marked h.sound hi).number with ⟨a, ha, rfl⟩ | ⟨k, hk, rfl, rfl⟩
  · rcases (h.lays.marked h.sound hj).number with ⟨b, hb, rfl⟩ | ⟨k, hk, rfl, -⟩
    · rw [h.wellFormed.unique a b id ha hb]
    · exact absurd rfl (h.labels.ne_fresh (mem_labelsInUse_of_markAt? ha) hk)
  · rcases (h.lays.marked h.sound hj).number with ⟨b, hb, -⟩ | ⟨k', hk', heq, rfl⟩
    · exact absurd rfl (h.labels.ne_fresh (mem_labelsInUse_of_markAt? hb) hk)
    · rw [h.labels.fresh_inj hk hk' heq]

/-- **Every jump goes to a label that is marked.** -/
lemma Checked.targets {instr : Instruction} (hi : instr ∈ nm.code.toList) {id : Label}
    (hid : id ∈ instr.targets) : ∃ q, nm.code.labelAt? id = some q := by
  rcases h.code_admissible hi with (hs | ⟨-, hmem⟩) | rfl
  · rw [hs.targets] at hid
    simp at hid
  · obtain ⟨k, hk⟩ := h.wellFormed.targets instr hmem id hid
    exact ⟨_, h.lays.labelAt?_user h.sound h.labels hk⟩
  · have hcount : 2 * p.points.length < p.freshCount := by unfold freshCount; omega
    simp only [Instruction.targets, List.mem_append, List.mem_map, List.mem_range,
      List.mem_singleton] at hid
    rcases hid with ⟨n, hn, rfl⟩ | rfl
    · obtain ⟨pt, hpt⟩ : ∃ pt, p.points[n]? = some pt := ⟨_, List.getElem?_eq_getElem hn⟩
      exact ⟨_, h.lays.labelAt?_fresh h.sound h.labels (by unfold freshCount; omega) (.resume hpt)⟩
    · exact ⟨_, h.lays.labelAt?_fresh h.sound h.labels hcount .start⟩

/-! ## Ranges -/

/-- Boundaries are marked where they should be. -/
lemma Checked.labelAt?_boundary {id : Label} {i q : Nat} (hb : p.Boundary id i q) :
    nm.code.labelAt? id = some q := by
  cases hb with
  | user hu => exact h.lays.labelAt?_user h.sound h.labels hu
  | before hn => exact h.lays.labelAt?_fresh h.sound h.labels (number_lt hn).1 (.before hn)
  | after hn => exact h.lays.labelAt?_fresh h.sound h.labels (number_lt hn).2 (.after hn)

omit h in
/-- A range between boundaries that ends no earlier than it starts. -/
def Ordered (p : Plan) (r : ExceptionRange) : Prop :=
  ∃ i b k d, p.Boundary r.start i b ∧ p.Boundary r.stop k d ∧ b ≤ d

/-- **A cut leaves ranges in order.**  What lies behind the saved region begins in front of the end, and
what lies in front of it ends behind the start. -/
lemma Checked.apply_ordered {c : Cut} (hc : c ∈ p.cuts) {r s : ExceptionRange} (hr : p.Ordered r)
    (hs : s ∈ Cut.apply p.cutPosition c r) : p.Ordered s := by
  obtain ⟨n, pt, hn, rfl⟩ := mem_cuts.mp hc
  obtain ⟨i, b, k, d, hstart, hstop, hle⟩ := hr
  have hmark := h.sound.not_markAt_point hn
  have hlt := afterOffset_lt h.sound hn
  have hi := (hstart.positions h.lays h.sound h.labels).1
  have hk := (hstop.positions h.lays h.sound h.labels).1
  rcases Cut.mem_apply.mp hs with ⟨-, rfl⟩ | ⟨⟨-, hcov⟩, rfl⟩ | ⟨⟨hcov, -⟩, hne, rfl⟩
  · exact ⟨i, b, k, d, hstart, hstop, hle⟩
  · refine ⟨_, _, k, d, .after hn, hstop, ?_⟩
    have hiff := hstop.le_iff h.sound hmark (q := p.place pt.position + p.afterOffset pt) (by omega) hlt
      fun n' pt' hn' hpos _ => by
        obtain ⟨-, rfl⟩ := h.sound.point_unique hn hn' hpos.symm
        exact Nat.le_refl _
    rw [hk] at hcov
    have : ¬ k ≤ pt.position := by simpa using hcov
    omega
  · refine ⟨i, b, _, _, hstart, .before hn, ?_⟩
    refine (hstart.le_iff h.sound hmark (Nat.le_refl _) (by omega) fun n' pt' hn' hpos heq => ?_).mpr ?_
    · refine absurd ?_ hne
      rw [heq, ((Boundary.after hn').positions h.lays h.sound h.labels).1]
      exact hpos
    · rw [hi] at hcov
      exact hcov

/-- **The ranges of the transformed method** have their labels, and end no earlier than they start. -/
lemma Checked.rangeFits {r : ExceptionRange} (hr : r ∈ nm.ranges) :
    Validation.RangeFits nm.code r := by
  have hcount : 2 * p.points.length + 3 < p.freshCount := by unfold freshCount; omega
  have hat : ∀ {k q : Nat}, k < p.freshCount → p.Marked q (p.fresh k) →
      nm.code.labelAt? (p.fresh k) = some q :=
    fun hk hm => h.lays.labelAt?_fresh h.sound h.labels hk hm
  have hstart := hat (k := 2 * p.points.length) (by omega) .start
  have hstop := hat (k := 2 * p.points.length + 1) (by omega) .stop
  have hle : 5 ≤ p.place p.code.size := by
    have := p.place_mono (Nat.zero_le p.code.size)
    rw [place_zero] at this
    omega
  rw [h.lays.ranges, ranges_eq, List.mem_cons, List.mem_append, List.mem_singleton] at hr
  rcases hr with rfl | hr | rfl
  · exact ⟨_, _, _, hstart, hstop, hat (by omega) .catchSignal, hle⟩
  · obtain ⟨r', hr', hs⟩ := List.mem_flatMap.mp hr
    obtain ⟨start, stop, handler, h₁, h₂, h₃, hle'⟩ := h.wellFormed.ranges r' hr'
    have hordered : p.Ordered r := by
      refine Cut.of_mem_applyAll (fun c hc s hs s' hs' => h.apply_ordered hc hs hs') ?_ hs
      exact ⟨_, _, _, _, .user h₁, .user h₂, p.place_mono hle'⟩
    obtain ⟨i, b, k, d, hb₁, hb₂, hbd⟩ := hordered
    refine ⟨b, d, p.place handler, h.labelAt?_boundary hb₁, h.labelAt?_boundary hb₂, ?_, hbd⟩
    rw [(Cut.isPart_of_mem hs).handler_eq]
    exact h.lays.labelAt?_user h.sound h.labels h₃
  · exact ⟨_, _, _, hstart, hstop, hat (by omega) .catchAll, hle⟩

/-! ## The whole method -/

omit h in
/-- What generation leaves as it is, and the declared depth of the stack. -/
lemma generate_rest (hgen : p.generate = .ok nm) :
    nm.desc = p.subject.method.desc ∧ nm.flags = p.subject.method.flags
      ∧ nm.localVars = p.subject.method.localVars
      ∧ ∃ n, nm.stackNeed = .ok n ∧ nm.maxStack = UInt32.ofNat n := by
  unfold generate at hgen
  split at hgen
  · cases hgen
  simp only at hgen
  split at hgen
  · cases hgen
  · next n hn =>
      cases hgen
      exact ⟨rfl, rfl, rfl, n, hn, rfl⟩

/-- **The transformed method is well formed.** -/
lemma Checked.transformed (hgen : p.generate = .ok nm) : nm.WellFormed := by
  obtain ⟨hdesc, hflags, hvars, n, hneed, hstack⟩ := generate_rest hgen
  have hfits : ∀ instr ∈ nm.code.toList, instr.Fits nm.maxLocals := by
    intro instr hi
    rcases h.code_admissible hi with (hs | hs) | rfl
    · exact hs.fits
    · exact hs.1
    · exact ⟨_, _, _, rfl⟩
  refine ⟨?_, ?_, fun instr hi hmark => ?_, fun i j id => h.unique, fun instr hi id => h.targets hi,
    fun r => h.rangeFits, ?_, hfits, n, hneed, ?_⟩
  · have := h.wellFormed.hasBody
    unfold Method.hasBody Method.isAbstract Method.isNative at this ⊢
    rw [hflags]
    exact this
  · obtain ⟨d, hd, hle⟩ := h.wellFormed.params
    refine ⟨d, hdesc ▸ hd, ?_⟩
    have hcount : nm.receiverCount = p.subject.method.receiverCount := by
      unfold Method.receiverCount Method.isStatic
      rw [hflags]
    have hS : p.subject.method.maxLocals = p.stackVar := rfl
    rw [hcount, h.locals.toNat_maxLocals h.lays]
    rw [hS] at hle
    omega
  · have hop : instr.opcode = .label := by simpa [Instruction.isMark] using hmark
    have := hfits instr hi
    unfold Instruction.Fits at this
    rw [hop] at this
    obtain ⟨id, hid⟩ := this
    exact ⟨id, by simp [Instruction.markedLabel?, hop, hid]⟩
  · intro v hv
    rw [hvars] at hv
    obtain ⟨⟨i, hi⟩, k, hk⟩ := h.wellFormed.scopes v hv
    exact ⟨⟨_, h.lays.labelAt?_user h.sound h.labels hi⟩, _, h.lays.labelAt?_user h.sound h.labels hk⟩
  · -- the depth that is declared is the one that is needed
    rw [hstack, UInt32.toNat_ofNat']
    unfold Method.stackNeed at hneed
    split at hneed
    · next q hq =>
        cases hneed
        have := (UInt32.ofNat q.deepest).toNat_lt
        omega
    · cases hneed

end Plan

/-- A method whose instructions pass the checks names classes by names that are not empty. -/
lemma Method.brings_ne_nil {m : Method} {owner : Text} (h : ∀ instr ∈ m.code.toList, instr.Fits m.maxLocals)
    (howner : owner ≠ []) : m.Brings (· ≠ []) owner where
  owner := howner
  params := fun _ _ p _ => SlotType.names_ofDesc Descriptor.classOf_ne_nil
  ranges := fun _ _ hne => hne
  code := by
    intro instr hi
    have harray : (Text.ofString "[") ≠ [] := by decide
    refine ⟨fun cls ho hop => ?_, fun cls _ =>
        ⟨List.append_ne_nil_of_left_ne_nil harray _, List.append_ne_nil_of_left_ne_nil harray _⟩,
      fun _ _ => SlotType.names_ofDesc Descriptor.classOf_ne_nil,
      fun _ _ _ _ => SlotType.names_ofDesc Descriptor.classOf_ne_nil⟩
    have hfits := h instr hi
    unfold Instruction.Fits at hfits
    rcases hop with hop | hop
    all_goals
      rw [hop] at hfits
      obtain ⟨t, ht, hne⟩ := hfits
      rw [ho] at ht
      cases ht
      exact hne

/-- **Transformed methods pass the checks.**  A method that passes them, of a class with a name, is
transformed into one that passes them, if neither the fresh labels nor the fresh locals wrap. -/
theorem Method.transform_validates {src : ClassSource} {policy : Policy} {owner : Text}
    {m nm : Method} {h h' : Hierarchy}
    (ht : (Method.transform src policy owner m).run h = (.ok (some nm), h'))
    (hm : m.validate = .ok ()) (howner : owner ≠ []) :
    ∃ p : Plan, p.Makes src owner m h nm ∧ (p.LabelsFit → p.LocalsFit → nm.validate = .ok ()) := by
  obtain ⟨p, hp⟩ := Method.transform_makes ht
  refine ⟨p, hp, fun hlabels hlocals => ?_⟩
  have hlays := Plan.generate_lays hp.generate
  have hcode : m.code ≠ #[] := by
    -- a body without instructions has no points
    intro hempty
    obtain ⟨pt, rest, hpoints⟩ := List.exists_cons_of_ne_nil hp.nonempty
    have hlt := (hp.sound.segmentAt_point (n := 0) (by rw [hpoints]; rfl)).1
    unfold Plan.code at hlt
    rw [hp.method_eq, hempty] at hlt
    simp at hlt
  have hnm : nm.code ≠ #[] := by
    intro hempty
    have := hlays.size
    rw [hempty] at this
    simp at this
  have hwell := (Method.validate_eq_ok_iff hcode).mp hm
  obtain ⟨h₁, h₂, htypes, -⟩ := hp.found
  obtain ⟨hcert, -⟩ := Analysis.run_certified src.agrees_empty h.agrees_empty htypes
  have hwidth : ∀ (i : Nat) (f : Frame), p.subject.types.frames[i]? = some (some f) →
      f.locals.size = p.stackVar.toNat := by
    unfold Plan.stackVar
    rw [hp.method_eq]
    exact hcert.width
  have hnames := Analysis.run_names ClassName.lawful_ne_nil (Method.brings_ne_nil hwell.operands howner)
    (Hierarchy.supersAre_ne_nil h) htypes
  have hadmits := hp.sound.admits hp.certified hp.generate
  have hchecked : p.Checked nm :=
    ⟨hlays, hp.sound, hlabels, hlocals, hp.method_eq ▸ hwell, hwidth, hnames, hadmits⟩
  exact (Method.validate_eq_ok_iff hnm).mpr (hchecked.transformed hp.generate)

/-- A body without constructor calls needs no temporaries. -/
lemma Plan.temporaries_eq_zero {p : Plan} {l : List Instruction}
    (hl : ∀ instr ∈ l, Plan.constructor? instr = none) (i : Nat) : p.temporaries i l = 0 := by
  induction l generalizing i with
  | nil => rfl
  | cons instr l ih =>
      obtain ⟨hfirst, hrest⟩ := List.forall_mem_cons.mp hl
      simp [temporaries, deferral?, hfirst, ih hrest]

/-- A guarded call that declares the depth of its stack, with the name of a local. -/
def checkedCall : Method :=
  { guardedCall with
    maxLocals := 1
    maxStack := 1
    localVars := [⟨"x", "I", 0, 1, 0⟩] }

set_option maxRecDepth 100000 in
/-- The theorem at a method with a protected call and a named local. -/
theorem checkedCall_validates : ∃ nm h' p,
    (Method.transform {} {} "A" checkedCall).run {} = (.ok (some nm), h')
      ∧ Plan.Makes {} "A" checkedCall {} p nm ∧ p.LabelsFit ∧ p.LocalsFit
      ∧ nm.validate = .ok () := by
  have hsome : (((Method.transform {} {} "A" checkedCall).run {}).1.toOption.join).isSome = true := by
    decide +kernel
  obtain ⟨nm, h', ht⟩ := Method.exists_transformed hsome
  obtain ⟨p, hp, hv⟩ := Method.transform_validates ht (by decide +kernel) (by decide)
  have hlabels : p.LabelsFit := guardedCall_labelsFit (m := checkedCall) rfl rfl hp
  have hlocals : p.LocalsFit := by
    have hnone : checkedCall.code.toList.all (fun i => (Plan.constructor? i).isNone) = true := by
      decide +kernel
    unfold Plan.LocalsFit Plan.stackVar Plan.code
    rw [hp.method_eq, Plan.temporaries_eq_zero fun instr hi =>
      Option.isNone_iff_eq_none.mp (List.all_eq_true.mp hnone instr hi)]
    decide +kernel
  exact ⟨nm, h', p, ht, hp, hlabels, hlocals, hv hlabels hlocals⟩

end Suspension
