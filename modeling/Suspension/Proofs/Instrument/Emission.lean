import Suspension.Proofs.Frame.Constructions
import Suspension.Proofs.Instrument.Marks
import Suspension.Proofs.Instrument.Slots
import Suspension.Proofs.Text.Descriptor

/-!
# What stands in a transformed body

Besides instructions of the method, a transformed body holds **instructions of a few forms only**: calls
with fixed operands, marks, numbers, loads and stores of locals that the transformed method has, casts to
classes that some frame names, and the switch to the points.  So a property of a transformed body is shown
form by form.

* `Plan.Generated` — the forms.
* `Frame.Transition.arguments` — the arguments of a call are on the stack.
* `Plan.generated_save`, `Plan.generated_restore` — the code that moves a frame.
* `Plan.Sound.admits` — every instruction of a transformed body.
-/

namespace Suspension

namespace Emit

/-- The call that puts a value of a kind into its slot. -/
def putCall (k : Kind) : Instruction :=
  .member (.invoke .static) ClassName.frameStack (Text.ofString "push" ++ accessorName k)
    (Text.ofString "(" ++ accessorDesc k ++ Text.ofString "Lcoro/Stack;I)V")

/-- The call that gets a value of a kind from its slot. -/
def getCall (k : Kind) : Instruction :=
  .member (.invoke .virtual) ClassName.frameStack (Text.ofString "get" ++ accessorName k)
    (Text.ofString "(I)" ++ accessorDesc k)

/-- The generated instructions that depend on nothing. -/
def constants : List Instruction :=
  [getStack, nextEntry, pushMethod, popMethod, signal, reflectInvoke, .plain .pop, .plain .dup,
    .plain .pushNull, .plain .throw]
    ++ Kind.all.map putCall ++ Kind.all.map getCall

lemma putCall_mem (k : Kind) : putCall k ∈ constants := by
  cases k <;> simp [constants, Kind.all]

lemma getCall_mem (k : Kind) : getCall k ∈ constants := by
  cases k <;> simp [constants, Kind.all]

end Emit

namespace Plan

/-- A slot that some frame holds. -/
def Holds (p : Plan) (v : SlotType) : Prop :=
  ∃ (i : Nat) (f : Frame), p.subject.types.frames[i]? = some (some f) ∧ (v ∈ f.stack ∨ v ∈ f.locals.toList)

/-- **A local of the transformed method**: one of the method itself, the frame stack, or a temporary. -/
inductive IsLocal (p : Plan) : UInt32 → Prop where
  | own {i j : Nat} {f : Frame} (hf : p.subject.types.frames[i]? = some (some f))
      (hj : j < f.locals.size) : IsLocal p (UInt32.ofNat j)
  | stack : IsLocal p p.stackVar
  | temporary {k : Nat} (hk : k < p.temporaries 0 p.code.toList) :
      IsLocal p (p.stackVar + 1 + UInt32.ofNat k)

/-- **The forms of generated instructions.** -/
inductive Generated (p : Plan) : Instruction → Prop where
  | constant {instr : Instruction} (h : instr ∈ Emit.constants) : Generated p instr
  | mark (id : Label) : Generated p (.mark id)
  | number (n : Int32) : Generated p (.int n)
  | load (k : Kind) {i : UInt32} (hi : p.IsLocal i) : Generated p (.slot (.load k) i)
  | store (k : Kind) {i : UInt32} (hi : p.IsLocal i) : Generated p (.slot (.store k) i)
  | cast {v : SlotType} (hv : p.Holds v) (hk : v.kind? = some .ref) :
      Generated p (.type .checkCast v.typeName)
  | switch : Generated p
      ⟨.tableSwitch, .table 1 ((List.range p.points.length).map p.callLabel) p.startLabel⟩

variable {p : Plan}

lemma generated_loadOf {v : SlotType} (hv : v.kind? ≠ none) {i : UInt32} (hi : p.IsLocal i) :
    p.Generated (Emit.loadOf v i) := by
  obtain ⟨k, hk⟩ := Option.ne_none_iff_exists'.mp hv
  unfold Emit.loadOf
  rw [hk]
  exact .load k hi

lemma generated_storeOf {v : SlotType} (hv : v.kind? ≠ none) {i : UInt32} (hi : p.IsLocal i) :
    p.Generated (Emit.storeOf v i) := by
  obtain ⟨k, hk⟩ := Option.ne_none_iff_exists'.mp hv
  unfold Emit.storeOf
  rw [hk]
  exact .store k hi

/-! ## The code that moves a frame -/

lemma generated_put (k : Kind) (i : Nat) : ∀ instr ∈ Emit.put p.stackVar k i, p.Generated instr :=
  List.forall_mem_cons.mpr ⟨.load .ref .stack, List.forall_mem_cons.mpr ⟨.number _,
    List.forall_mem_singleton.mpr (.constant (Emit.putCall_mem k))⟩⟩

lemma generated_get {v : SlotType} (hv : p.Holds v) {k : Kind} (hk : v.kind? = some k) (i : Nat) :
    ∀ instr ∈ Emit.get p.stackVar v k i, p.Generated instr := by
  refine List.forall_mem_append.mpr ⟨List.forall_mem_cons.mpr ⟨.load .ref .stack,
    List.forall_mem_cons.mpr ⟨.number _,
      List.forall_mem_singleton.mpr (.constant (Emit.getCall_mem k))⟩⟩, ?_⟩
  split
  · next hcast =>
      simp only [Bool.and_eq_true, beq_iff_eq] at hcast
      exact List.forall_mem_singleton.mpr (.cast hv (hk.trans (congrArg some hcast.1)))
  · simp

/-- **A slot that is kept**: some frame holds it, and its place is of its own kind. -/
structure Kept (p : Plan) (v : SlotType) (keep : Keep) : Prop where
  holds : p.Holds v
  kind : ∀ k i, Emit.place? v keep = some (k, i) → v.kind? = some k

lemma generated_saveSlot (v : SlotType) (keep : Keep) :
    ∀ instr ∈ Emit.saveSlot p.stackVar v keep, p.Generated instr := by
  unfold Emit.saveSlot
  split
  · simp
  · exact List.forall_mem_singleton.mpr (.constant (by simp [Emit.constants]))
  · split
    · exact generated_put _ _
    · simp

lemma generated_restoreSlot {v : SlotType} {keep : Keep} (h : p.Kept v keep) :
    ∀ instr ∈ Emit.restoreSlot p.stackVar v keep, p.Generated instr := by
  unfold Emit.restoreSlot
  split
  · simp
  · split
    · exact List.forall_mem_singleton.mpr (.constant (by simp [Emit.constants]))
    · split
      · next k i hplace => exact generated_get h.holds (h.kind k i hplace) i
      · simp

lemma generated_saveLocal {v : SlotType} {keep : Keep} (h : p.Kept v keep) {j : Nat}
    (hj : p.IsLocal (UInt32.ofNat j)) :
    ∀ instr ∈ Emit.saveLocal p.stackVar j v keep, p.Generated instr := by
  unfold Emit.saveLocal
  split
  · next k i hplace =>
      exact List.forall_mem_cons.mpr
        ⟨generated_loadOf (by simp [h.kind k i hplace]) hj, generated_put _ _⟩
  · simp

lemma generated_restoreLocal {v : SlotType} {keep : Keep} (h : p.Kept v keep) {j : Nat}
    (hj : p.IsLocal (UInt32.ofNat j)) :
    ∀ instr ∈ Emit.restoreLocal p.stackVar j v keep, p.Generated instr := by
  unfold Emit.restoreLocal
  split
  · exact List.forall_mem_cons.mpr ⟨.constant (by simp [Emit.constants]),
      List.forall_mem_singleton.mpr (.store .ref hj)⟩
  · split
    · next k i hplace =>
        have hkind := h.kind k i hplace
        refine List.forall_mem_append.mpr ⟨generated_get h.holds hkind i, ?_⟩
        exact List.forall_mem_singleton.mpr (generated_storeOf (by simp [hkind]) hj)
    · simp

/-- The code of several locals, each of which is a local of the method. -/
lemma generated_locals {f : Nat → SlotType → Keep → List Instruction}
    {slots : List (SlotType × Keep)} {m i : Nat}
    (hf : ∀ j v keep, j < m → (v, keep) ∈ slots → ∀ instr ∈ f j v keep, p.Generated instr)
    (hm : i + slots.length ≤ m) : ∀ instr ∈ Emit.locals f i slots, p.Generated instr := by
  induction slots generalizing i with
  | nil => simp [Emit.locals]
  | cons slot slots ih =>
      obtain ⟨v, keep⟩ := slot
      rw [List.length_cons] at hm
      refine List.forall_mem_append.mpr ⟨hf i v keep (by omega) List.mem_cons_self, ?_⟩
      exact ih (fun j v' keep' hj hmem => hf j v' keep' hj (List.mem_cons_of_mem _ hmem)) (by omega)

section Points

variable {pt : SuspensionPoint} (hpt : pt.Found p.subject)
include hpt

/-- The slots of a point are kept. -/
lemma kept_of_found {v : SlotType} {keep : Keep} (hmem : (v, keep) ∈ pt.plan.stack ++ pt.plan.locals) :
    p.Kept v keep := by
  refine ⟨⟨_, _, hpt.frame_at, ?_⟩, fun k i hplace => (hpt.laidOut.placing.place?_range hmem hplace).1⟩
  rcases List.mem_append.mp hmem with hm | hm
  · have := List.mem_map_of_mem (f := Prod.fst) hm
    rw [hpt.laidOut.stack_eq] at this
    exact Or.inl (List.mem_reverse.mp this)
  · have := List.mem_map_of_mem (f := Prod.fst) hm
    rw [hpt.laidOut.locals_eq] at this
    exact Or.inr this

lemma isLocal_of_found {j : Nat} (hj : j < pt.plan.locals.length) : p.IsLocal (UInt32.ofNat j) :=
  .own hpt.frame_at (hpt.laidOut.length_locals ▸ hj)

/-- **Saving a frame.** -/
lemma generated_save : ∀ instr ∈ Emit.save p.stackVar pt, p.Generated instr := by
  unfold Emit.save
  refine List.forall_mem_append.mpr ⟨List.forall_mem_append.mpr ⟨?_, ?_⟩, ?_⟩
  · have hpush : p.Generated Emit.pushMethod := .constant (by simp [Emit.constants])
    simpa using ⟨Generated.load .ref .stack, Generated.number _, Generated.number _,
      Generated.number _, hpush⟩
  · intro instr hi
    obtain ⟨⟨v, keep⟩, -, hi⟩ := List.mem_flatMap.mp hi
    exact generated_saveSlot v keep instr hi
  · refine generated_locals (fun j v keep hj hmem => ?_) (Nat.le_of_eq (Nat.zero_add _))
    exact generated_saveLocal (kept_of_found hpt (List.mem_append_right _ hmem))
      (isLocal_of_found hpt hj)

/-- **Restoring a frame.** -/
lemma generated_restore (skip : Nat) : ∀ instr ∈ Emit.restore p.stackVar skip pt, p.Generated instr := by
  unfold Emit.restore
  refine List.forall_mem_append.mpr ⟨?_, ?_⟩
  · by_cases hskip : skip ≤ pt.plan.locals.length
    · refine generated_locals (m := pt.plan.locals.length) (fun j v keep hj hmem => ?_)
        (by rw [List.length_drop]; omega)
      exact generated_restoreLocal
        (kept_of_found hpt (List.mem_append_right _ (List.mem_of_mem_drop hmem)))
        (isLocal_of_found hpt hj)
    · rw [List.drop_eq_nil_of_le (by omega)]
      simp [Emit.locals]
  · intro instr hi
    obtain ⟨⟨v, keep⟩, hmem, hi⟩ := List.mem_flatMap.mp hi
    exact generated_restoreSlot (kept_of_found hpt (List.mem_append_left _ hmem)) instr hi

end Points

end Plan

/-! ## The arguments of a call -/

/-- **The arguments of a call** are on the stack, of the kinds that its descriptor tells. -/
lemma Frame.Transition.arguments {sites : List Site} {position : Nat} {instr : Instruction}
    {f g : Frame} (h : Frame.Transition sites position instr f g) {mode : InvokeMode} {m : Member}
    (hop : instr.opcode = .invoke mode) (ho : instr.operand = .member m) :
    ∃ d args rest, Descriptor.parseMethod m.desc = .ok d ∧ f.stack = args ++ rest
      ∧ args.map SlotType.kind? = d.params.reverse.map fun p => (SlotType.ofDesc p).kind? := by
  cases h with
  | @plain used put rest hs shape free =>
      cases shape with
      | @call mode' m' d args recv hop' ho' hd hargs hrecv =>
          obtain rfl : m = m' := by simpa [ho] using ho'
          exact ⟨d, args, recv ++ rest, hd, by rw [hs, List.append_assoc], hargs⟩
      | _ => simp_all [Opcode.hasFixedEffect]
  | construct hop' ho' hname hd hs hargs =>
      rw [ho] at ho'
      cases ho'
      exact ⟨_, _, _, hd, hs, hargs⟩
  | _ => simp_all

namespace Plan

variable {p : Plan}

/-- The instructions of a method that a transformed body keeps, and the generated ones. -/
def Admits (p : Plan) (instr : Instruction) : Prop := instr ∈ p.code.toList ∨ p.Generated instr

/-- **What the analysis knows about the frames of a plan.** -/
def Certified (p : Plan) : Prop :=
  p.subject.types.Certified Classes.empty p.subject.owner p.subject.method

/-- A plan that makes a transformed method comes out of the analysis. -/
lemma Makes.certified {src : ClassSource} {owner : Text} {m nm : Method} {h : Hierarchy}
    (hp : p.Makes src owner m h nm) : p.Certified := by
  obtain ⟨h₁, h₂, htypes, -⟩ := hp.found
  obtain ⟨hcert, -⟩ := Analysis.run_certified src.agrees_empty h.agrees_empty htypes
  unfold Certified
  rw [hp.method_eq, hp.owner_eq]
  exact hcert

/-- **The arguments of a construction that is redone** are slots of the frame in front of its constructor
call, and values. -/
lemma Certified.args (hcert : p.Certified) {i : Nat} {instr : Instruction} {d : Deferral}
    (hi : p.code[i]? = some instr) (hdef : p.deferral? i instr = .ok (some d)) :
    ∀ v ∈ d.args, v.kind? ≠ none := by
  obtain ⟨m, f, cls, cls', dupAt, rest, hr⟩ := deferral?_eq_some hdef
  obtain ⟨hop, ho, -⟩ := constructor?_eq_some hr.constructor
  obtain ⟨instr', after, spans, -, hsettled⟩ := hcert.settled i f hr.frame_at
  have hsame : p.code[i]? = some instr' := hsettled.code_at
  rw [hi] at hsame
  cases hsame
  obtain ⟨desc, args, below, hd, hs, hkinds⟩ := hsettled.transition.arguments hop ho
  have hlen : d.args.length = args.length := by
    have := congrArg List.length hkinds
    simp only [List.length_map, List.length_reverse] at this
    rw [hr.args, Descriptor.argCount, hd, this]
    rfl
  obtain rfl : d.args = args := (List.append_inj (hr.stack.symm.trans hs) hlen).1
  intro v hv
  have hmem := List.mem_map_of_mem (f := SlotType.kind?) hv
  rw [hkinds] at hmem
  obtain ⟨desc', hdesc', heq⟩ := List.mem_map.mp hmem
  rw [← heq, Frame.kind?_ofDesc]
  exact Descriptor.kind_param hd desc' (List.mem_reverse.mp hdesc')

/-! ## Segments -/

variable (hp : p.Sound)
include hp

/-- **The code of a point.** -/
lemma Sound.admits_point {n : Nat} {pt : SuspensionPoint} (hn : p.points[n]? = some pt) :
    ∀ instr ∈ p.pointImage pt n, p.Admits instr := by
  have hfound := hp.found pt (List.mem_of_getElem? hn)
  have hgenerated : ∀ {l : List Instruction}, (∀ instr ∈ l, p.Generated instr) →
      ∀ instr ∈ l, p.Admits instr := fun hl instr hi => Or.inr (hl instr hi)
  have hcall : p.Admits pt.call := by
    obtain ⟨instr, m, hcode, -, hcall | ⟨-, hcall⟩, -⟩ := hfound.call
    · rw [hcall]
      exact Or.inl (Array.mem_toList_iff.mpr (Array.mem_of_getElem? hcode))
    · rw [hcall]
      exact Or.inr (.constant (by simp [Emit.constants]))
  unfold pointImage
  simp only [List.forall_mem_append]
  refine ⟨⟨⟨⟨⟨⟨?_, ?_⟩, ?_⟩, ?_⟩, ?_⟩, ?_⟩, ?_⟩
  · exact hgenerated (by simpa using Generated.mark _)
  · exact hgenerated (generated_save hfound)
  · split
    · refine hgenerated (List.forall_mem_cons.mpr ⟨.constant (by simp [Emit.constants]), ?_⟩)
      exact List.forall_mem_singleton.mpr (.constant (by simp [Emit.constants]))
    · simp
  · exact hgenerated (by simpa using Generated.mark _)
  · exact hgenerated (generated_restore hfound _)
  · exact hgenerated (by simpa using Generated.mark _)
  · split
    · simp
    · simpa using hcall

/-- **The segment of an instruction.** -/
lemma Sound.admits_segment (hcert : p.Certified) {i : Nat} {instr : Instruction}
    (hi : p.code[i]? = some instr) : ∀ instr' ∈ p.segmentAt i, p.Admits instr' := by
  have hown : ∀ {k : Nat} {instr : Instruction}, p.code[k]? = some instr → p.Admits instr :=
    fun hk => Or.inl (Array.mem_toList_iff.mpr (Array.mem_of_getElem? hk))
  have hseg := hp.segment_cases hi
  generalize p.segmentAt i = l at hseg
  cases hseg with
  | point hn _ => exact hp.admits_point hn
  | dropped => simp
  | returns =>
      refine List.forall_mem_cons.mpr ⟨Or.inr (.load .ref .stack), ?_⟩
      exact List.forall_mem_cons.mpr ⟨Or.inr (.constant (by simp [Emit.constants])),
        by simpa using hown hi⟩
  | plain => simpa using hown hi
  | @redone d _ _ _ hdef =>
      obtain ⟨m, f, cls, cls', dupAt, rest, hr⟩ := deferral?_eq_some hdef
      have hkinds := hcert.args hi hdef
      have hargs : d.args.length ≤ p.temporaries 0 p.code.toList :=
        args_le_temporaries (k := i) (by simpa using hi) (by simpa using hdef)
      have hlocal : ∀ {v : SlotType} {k : Nat}, (v, k) ∈ d.args.zipIdx →
          v.kind? ≠ none ∧ p.IsLocal (p.stackVar + 1 + UInt32.ofNat k) := by
        intro v k hk
        obtain ⟨hlt, hv⟩ := List.mem_zipIdx' hk
        exact ⟨hkinds v (hv ▸ List.getElem_mem hlt), .temporary (by omega)⟩
      have hnew := hp.sites.new_at d.site hr.site
      obtain ⟨copy, hcopy, -⟩ := hp.sites.dup_at d.site hr.site dupAt hr.dup_at
      unfold Deferral.emit
      simp only [List.forall_mem_append]
      refine ⟨⟨⟨?_, ?_⟩, ?_⟩, by simpa using hown hi⟩
      · intro instr' hmem
        obtain ⟨⟨v, k⟩, hk, rfl⟩ := List.mem_map.mp hmem
        exact Or.inr (generated_storeOf (hlocal hk).1 (hlocal hk).2)
      · refine List.forall_mem_cons.mpr ⟨?_, List.forall_mem_singleton.mpr ?_⟩
        · rw [hr.create, Array.getD_eq_getD_getElem?, hnew]
          exact hown hnew
        · rw [hr.copy, Array.getD_eq_getD_getElem?, hcopy]
          exact hown hcopy
      · intro instr' hmem
        obtain ⟨⟨v, k⟩, hk, rfl⟩ := List.mem_map.mp (List.mem_reverse.mp hmem)
        exact Or.inr (generated_loadOf (hlocal hk).1 (hlocal hk).2)

/-- **Every instruction of a transformed body** is one of the method or of the generated forms. -/
lemma Sound.admits (hcert : p.Certified) {nm : Method} (hgen : p.generate = .ok nm) :
    ∀ instr ∈ nm.code.toList, p.Admits instr := by
  rw [(generate_code hgen).1]
  simp only [List.forall_mem_append]
  refine ⟨⟨?_, fun instr hi => ?_⟩, ?_⟩
  · have hgenerated : ∀ instr ∈ p.prologue, p.Generated instr := by
      have hstack : p.Generated Emit.getStack := .constant (by simp [Emit.constants])
      have hdup : p.Generated (.plain .dup) := .constant (by simp [Emit.constants])
      have hentry : p.Generated Emit.nextEntry := .constant (by simp [Emit.constants])
      simpa [prologue] using
        ⟨hstack, hdup, Generated.store .ref .stack, hentry, Generated.switch, Generated.mark _⟩
    exact fun instr hi => Or.inr (hgenerated instr hi)
  · obtain ⟨i, hlt, hi⟩ := List.mem_flatMap.mp hi
    exact hp.admits_segment hcert (Array.getElem?_eq_getElem (List.mem_range.mp hlt)) instr hi
  · have hgenerated : ∀ instr ∈ p.epilogue, p.Generated instr := by
      have hpop : p.Generated Emit.popMethod := .constant (by simp [Emit.constants])
      have hthrow : p.Generated (.plain .throw) := .constant (by simp [Emit.constants])
      simpa [epilogue] using
        ⟨Generated.mark _, Generated.mark _, Generated.load .ref .stack, hpop, Generated.mark _, hthrow⟩
    exact fun instr hi => Or.inr (hgenerated instr hi)

end Plan

end Suspension
