import Suspension.Proofs.Codec.Contents
import Suspension.Proofs.Frame.Invariants
import Suspension.Proofs.Instrument.Cuts
import Suspension.Proofs.Instrument.Ending
import Suspension.Proofs.Instrument.Validity

/-!
# Transformed classes can be written

**What can be written is transformed into what can be written.**  Every generated instruction has the
operand that its opcode carries.  The classes that it names come from the method, out of its descriptors
by cuts that keep texts well formed, or from the superclasses in class files; so their names are well
formed like all others.

* `ClassName.lawful_valid`, `Method.Storable.brings` — the class names in the frames of a method.
* `Plan.Generated.storable`, `Plan.Makes.storable` — a transformed method.
* `Instrumenter.Served` — what is known while requests are served.
* `Instrumenter.onClass_storable`, `Instrumenter.onBytes_encodes` — a transformed class, and its bytes.
-/

namespace Suspension

open Query

/-! ## Class names -/

/-- **The frame analysis makes well-formed names of well-formed ones.** -/
lemma ClassName.lawful_valid : ClassName.Lawful (Utf8.valid · = true) where
  null := by decide +kernel
  object := by decide +kernel
  string := by decide +kernel
  throwable := by decide +kernel
  element := fun h _ => Descriptor.valid_classOf (Descriptor.valid_element h)
  files := Hierarchy.ofFiles_valid

/-- What a well-formed descriptor denotes. -/
lemma SlotType.names_valid {desc : Text} (h : Utf8.valid desc = true) :
    (SlotType.ofDesc desc).Names (Utf8.valid · = true) :=
  names_ofDesc fun _ => Descriptor.valid_classOf h

lemma Instruction.Storable.brings {instr : Instruction} (h : instr.Storable) :
    instr.Brings (Utf8.valid · = true) where
  type := fun cls ho _ => h.texts cls (by simp [ho, Operand.texts])
  array := by
    intro cls ho
    have hcls := h.texts cls (by simp [ho, Operand.texts])
    rw [Utf8.valid_append (by decide +kernel), Utf8.valid_append (by decide +kernel)]
    exact ⟨hcls, Descriptor.valid_ofClass hcls⟩
  field := fun m ho => SlotType.names_valid (h.texts m.desc (by simp [ho, Operand.texts]))
  result := by
    intro m d ho hd
    have hdesc := h.texts m.desc (by simp [ho, Operand.texts])
    exact SlotType.names_valid (Descriptor.valid_parseMethod hd hdesc).2

/-- **A method that can be written names classes by well-formed names.** -/
lemma Method.Storable.brings {m : Method} {owner : Text} (h : m.Storable)
    (howner : Utf8.valid owner = true) : m.Brings (Utf8.valid · = true) owner where
  owner := howner
  params := by
    intro d hd p hp
    have hdesc := h.names m.desc (by simp [Method.names])
    exact SlotType.names_valid ((Descriptor.valid_parseMethod hd hdesc).1 p hp)
  code := fun instr hi => (h.code instr hi).brings
  ranges := fun r hr _ => h.ranges r hr

/-! ## Transformed methods -/

/-- The generated instructions that depend on nothing. -/
lemma Emit.storable_constants : ∀ instr ∈ Emit.constants, instr.Storable := by
  simp only [Instruction.storable_iff]
  decide +kernel

namespace Plan

variable {p : Plan} {nm : Method}

/-- **Generated instructions can be written**, if the classes that frames name can. -/
lemma Generated.storable {instr : Instruction} (h : p.Generated instr)
    (hnames : ∀ v, p.Holds v → v.Names (Utf8.valid · = true)) : instr.Storable := by
  cases h with
  | constant h => exact Emit.storable_constants _ h
  | mark id => exact ⟨rfl, by simp [Instruction.mark, Operand.texts]⟩
  | number v => exact ⟨rfl, by simp [Instruction.int, Operand.texts]⟩
  | load k _ => exact ⟨rfl, by simp [Instruction.slot, Operand.texts]⟩
  | store k _ => exact ⟨rfl, by simp [Instruction.slot, Operand.texts]⟩
  | cast hv hk => exact ⟨rfl, by simpa [Instruction.type, Operand.texts] using hnames _ hv hk⟩
  | switch => exact ⟨rfl, by simp [Operand.texts]⟩

/-- The parts of a range protect against what the range does. -/
lemma type_of_mem_ranges {r : ExceptionRange} (hr : r ∈ p.ranges) :
    r.type = ClassName.suspendSignal ∨ r.type = [] ∨ ∃ s ∈ p.subject.method.ranges, r.type = s.type := by
  rw [ranges_eq, List.mem_cons, List.mem_append, List.mem_singleton] at hr
  rcases hr with rfl | hr | rfl
  · exact Or.inl rfl
  · obtain ⟨s, hs, hr⟩ := List.mem_flatMap.mp hr
    exact Or.inr (Or.inr ⟨s, hs, (Cut.isPart_of_mem hr).type_eq⟩)
  · exact Or.inr (Or.inl rfl)

/-- Generation changes no text outside of the code and the ranges. -/
lemma generate_names (hgen : p.generate = .ok nm) : nm.names = p.subject.method.names := by
  unfold generate at hgen
  split at hgen
  · cases hgen
  simp only at hgen
  split at hgen
  · cases hgen
  · cases hgen
    rfl

/-- **A method that can be written is transformed into one that can be written.** -/
lemma Makes.storable {src : ClassSource} {owner : Text} {m : Method} {h : Hierarchy}
    (hp : p.Makes src owner m h nm) (hm : m.Storable) (howner : Utf8.valid owner = true)
    (hh : h.SupersAre (Utf8.valid · = true)) : nm.Storable := by
  obtain ⟨h₁, h₂, htypes, -⟩ := hp.found
  have hframes := Analysis.run_names ClassName.lawful_valid (hm.brings howner) hh htypes
  have hnames : ∀ v, p.Holds v → v.Names (Utf8.valid · = true) := by
    rintro v ⟨i, f, hf, hv | hv⟩
    · exact (hframes i f hf).1 v hv
    · exact (hframes i f hf).2 v hv
  refine ⟨?_, fun instr hi => ?_, fun r hr => ?_⟩
  · rw [generate_names hp.generate, hp.method_eq]
    exact hm.names
  · rcases hp.sound.admits hp.certified hp.generate instr hi with hown | hgen
    · unfold code at hown
      rw [hp.method_eq] at hown
      exact hm.code instr hown
    · exact hgen.storable hnames
  · rw [(generate_lays hp.generate).ranges] at hr
    rcases type_of_mem_ranges hr with htype | htype | ⟨s, hs, htype⟩
    · rw [htype]
      decide +kernel
    · rw [htype]
      rfl
    · rw [hp.method_eq] at hs
      rw [htype]
      exact hm.ranges s hs

end Plan

/-! ## Transformed classes -/

namespace Instrumenter

variable {i : Instrumenter} {h : Hierarchy} {V : ClassView}

/-- **What is known while requests are served**: nothing at first, and then what every request adds or
invalidates.  The classes of files are transformed, and classes that a machine has at hand. -/
inductive Served (i : Instrumenter) : Hierarchy → Prop where
  | start : Served i {}
  | bytes {h : Hierarchy} (data : Bytes) : Served i h → Served i ((i.onBytes data).run h).2
  | transform {h : Hierarchy} {c : Class} (hc : Utf8.valid c.super = true) :
      Served i h → Served i ((i.onClass c).run h).2
  | load {h : Hierarchy} {c : Class} (hc : Utf8.valid c.super = true) :
      Served i h → Served i ((i.onLoad c).run h).2
  | question {h : Hierarchy} (cls name desc : Text) :
      Served i h → Served i ((i.isSuspendable cls name desc).run h).2
  | invalidation {h : Hierarchy} (cls : Text) :
      Served i h → Served i ((Hierarchy.invalidate cls).run h).2

/-- **The superclasses that are kept meanwhile** have well-formed names. -/
lemma Served.supersAre (hh : i.Served h) : h.SupersAre (Utf8.valid · = true) := by
  have hlasting : Hierarchy.Lasting i.source
      (Hierarchy.Holding (Hierarchy.SupersAre (Utf8.valid · = true))) :=
    Hierarchy.lasting_supersAre Hierarchy.ofFiles_valid
  have hrecord : ∀ {c : Class}, (c.super ≠ [] → Utf8.valid c.super = true) →
      Preserves (Hierarchy.SupersAre (Utf8.valid · = true)) (Hierarchy.record i.source c) :=
    fun hc => Hierarchy.SupersAre.record Hierarchy.ofFiles_valid hc
  induction hh with
  | start => exact Hierarchy.supersAre_empty
  | bytes data _ ih =>
      exact respects_holding.mp (respects_onBytes hlasting fun c hc =>
        respects_holding.mpr (hrecord (Hierarchy.ofFiles_valid data c hc))) _ ih
  | transform hc _ ih =>
      exact respects_holding.mp (respects_onClass hlasting (respects_holding.mpr (hrecord fun _ => hc))) _ ih
  | load hc _ ih =>
      exact respects_holding.mp (respects_onLoad hlasting (respects_holding.mpr (hrecord fun _ => hc))) _ ih
  | question cls name desc _ ih =>
      exact respects_holding.mp (hlasting.isSuspendable cls name desc true) _ ih
  | invalidation cls _ ih => exact Hierarchy.SupersAre.invalidate cls _ ih

/-- **The methods of a class that can be written** stay such, whatever becomes of each of them. -/
lemma storable_treatAll {owner : Text} (howner : Utf8.valid owner = true) {ms ms' : List Method}
    (hms : ∀ m ∈ ms, m.Storable) {r r' : ClassReport} (hh : h.SupersAre (Utf8.valid · = true))
    (hrun : ((i.treatAll owner ms r).run h).1 = some (ms', r')) : ∀ m ∈ ms', m.Storable := by
  have hall : List.Forall₂ (fun m m' => m.Storable → m'.Storable) ms ms' :=
    treatAll_forall₂ (Hierarchy.lasting_supersAre Hierarchy.ofFiles_valid) (fun _ => id)
      (fun hh ht hm => by
        obtain ⟨p, hp⟩ := treat_makes ht
        exact hp.storable hm howner hh) hh hrun
  clear hrun
  induction hall with
  | nil => exact hms
  | cons h _ ih =>
      obtain ⟨hm, hrest⟩ := List.forall_mem_cons.mp hms
      exact List.forall_mem_cons.mpr ⟨h hm, ih hrest⟩

/-- **A class that can be written is transformed into one that can be written.** -/
lemma onClass_storable {c c' : Class} {r : ClassReport} (hc : c.Storable)
    (hh : h.SupersAre (Utf8.valid · = true)) (hrun : ((i.onClass c).run h).1 = some (some c', r)) :
    c'.Storable := by
  have hname : Utf8.valid c.name = true := hc.names c.name (by simp [Class.names])
  have hsuper : Utf8.valid c.super = true := hc.names c.super (by simp [Class.names])
  have hrecorded : ((Hierarchy.record i.source c).run h).2.SupersAre (Utf8.valid · = true) :=
    Hierarchy.SupersAre.record Hierarchy.ofFiles_valid (fun _ => hsuper) h hh
  obtain ⟨ms, htreated, rfl⟩ := onClass_eq_some hrun
  refine ⟨fun t ht => ?_, storable_treatAll hname hc.methods hrecorded htreated⟩
  have hmark : Utf8.valid ClassName.instrumentedMark = true := by decide +kernel
  have hnames := hc.names
  simp only [Class.names, List.mem_append, List.mem_singleton] at hnames ht
  rcases ht with (ht | ht | rfl) | ht
  · exact hnames t (Or.inl (Or.inl ht))
  · exact hnames t (Or.inl (Or.inr ht))
  · exact hmark
  · exact hnames t (Or.inr ht)

/-- A class is left alone exactly if the report names no method that was transformed. -/
lemma onClass_eq_none_iff {c : Class} {c? : Option Class} {r : ClassReport}
    (hrun : ((i.onClass c).run h).1 = some (c?, r)) : c? = none ↔ r.instrumented = [] := by
  unfold onClass at hrun
  dsimp only at hrun
  split at hrun
  · cases hrun
    exact iff_of_true rfl rfl
  split at hrun
  · cases hrun
    exact iff_of_true rfl rfl
  simp only [Query.run_bind] at hrun
  split at hrun
  · cases hrun
  split at hrun
  · next hsame =>
      cases hrun
      exact iff_of_true rfl (by simpa [ClassReport.isChanged] using hsame)
  · next hchanged =>
      cases hrun
      exact iff_of_false (by simp) (by simpa [ClassReport.isChanged] using hchanged)

/-- The outcome for an encoded class, from that for the class. -/
def bytesOutcome (data : Bytes) : ClassOutcome → BytesOutcome
  | (none, report) => ⟨.ok data, some report⟩
  | (some c', report) => ⟨c'.encode.mapError fun e => .plain e.message, some report⟩

lemma run_onBytes {data : Bytes} {c : Class} (hc : Class.decode data = .ok c) :
    ((i.onBytes data).run h).1 = ((i.onClass c).run h).1.map (bytesOutcome data) := by
  unfold onBytes
  rw [hc]
  dsimp only
  rw [Query.run_bind]
  rcases (i.onClass c).run h with ⟨_ | ⟨_ | c', report⟩, h'⟩
  · rfl
  · rfl
  · dsimp only [Option.map_some, bytesOutcome]
    cases c'.encode <;> rfl

end Instrumenter

/-- A class with a method that holds a reference during a call. -/
def holdingClass : Class where
  name := "A"
  super := ClassName.object
  methods := [
    { name := "f"
      desc := "(LB;)V"
      flags := Flag.staticBit
      throws := [ClassName.suspendSignal]
      maxLocals := 1
      code := #[.member (.invoke .static) "A" "g" "()V", .slot (.load .ref) 0, .plain .pop,
        .plain .returnVoid] }]

/-- Two classes that extend one with the name of the null constant, and that extends the root. -/
def nullSource : ClassSource where
  resolve? := some fun cls =>
    match ([("t/A", ClassName.null), ("t/B", ClassName.null), (ClassName.null, ClassName.object)] :
      List (Text × Text)).lookup cls with
    | some super => ({ name := cls, super } : Class).encode.mapError fun e => .plain e.message
    | none => .error (.notFound Phase.resolve "class" cls)

/-- What it says about superclasses. -/
lemma nullSource_super {cls s : Text} (h : (nullSource.entryOf cls).super? = some s) :
    ((cls = "t/A" ∨ cls = "t/B") ∧ s = ClassName.null) ∨ (cls = ClassName.null ∧ s = ClassName.object) := by
  by_cases ha : cls = "t/A"
  · subst ha
    have hsuper : (nullSource.entryOf "t/A").super? = some ClassName.null := by decide +kernel
    exact Or.inl ⟨Or.inl rfl, Option.some.inj (h.symm.trans hsuper)⟩
  by_cases hb : cls = "t/B"
  · subst hb
    have hsuper : (nullSource.entryOf "t/B").super? = some ClassName.null := by decide +kernel
    exact Or.inl ⟨Or.inr rfl, Option.some.inj (h.symm.trans hsuper)⟩
  by_cases hnull : cls = ClassName.null
  · subst hnull
    have hsuper : (nullSource.entryOf ClassName.null).super? = some ClassName.object := by decide +kernel
    exact Or.inr ⟨rfl, Option.some.inj (h.symm.trans hsuper)⟩
  have hmissing : nullSource.entryOf cls = .missing := by
    simp [ClassSource.entryOf, ClassSource.find, nullSource, List.lookup_cons, beq_false_of_ne ha,
      beq_false_of_ne hb, beq_false_of_ne hnull]
  rw [hmissing] at h
  cases h

/-- A method that throws its parameter, a `t/B`, under a handler for each of the two. -/
def throwingMethod : Method := { Analysis.catching.method with throws := [ClassName.suspendSignal] }

/-- Its analysis. -/
def throwingContext : AnalysisContext where
  source := nullSource
  sink := nullSource.sink
  owner := "t/Main"
  method := throwingMethod

/-- Its class. -/
def throwingClass : Class where
  name := "t/Main"
  super := ClassName.object
  methods := [throwingMethod]

/-- What is known when the analysis begins. -/
def throwingKnown : Hierarchy := ((Hierarchy.record nullSource throwingClass).run {}).2

/-- **It goes on for ever**: what the first handler catches and what the second one catches have the null
constant in common, and that is below both. -/
lemma throwingContext_endless :
    (Analysis.run throwingContext).run throwingKnown = (.endless, throwingKnown) := by
  let entered : Analysis :=
    { Analysis.start throwingContext throwingKnown with
      frames := #[some (Analysis.catchingFrame []), none, none, none], pending := [0] }
  have hsome : (Analysis.after? throwingContext Analysis.catchingSpans 3 entered).isSome = true := by
    decide +kernel
  have hsame : Analysis.after? throwingContext Analysis.catchingSpans 4 entered
      = Analysis.after? throwingContext Analysis.catchingSpans 3 entered := by decide +kernel
  obtain ⟨a, ha⟩ := Option.isSome_iff_exists.mp hsome
  have hentry : Analysis.entryFrame throwingContext.owner throwingContext.method
      = .ok (Analysis.catchingFrame []) := by decide +kernel
  have hmerge : Transfer.Gives (Analysis.mergeInto throwingContext 0 0 (Analysis.catchingFrame []))
      (Analysis.start throwingContext throwingKnown) () entered := by decide +kernel
  exact Analysis.run_of_follow_none (by decide +kernel) hentry hmerge
    (Analysis.follow_circles ha (hsame.trans ha))

end Suspension
