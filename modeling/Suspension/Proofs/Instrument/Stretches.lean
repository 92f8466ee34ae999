import Suspension.Proofs.Code.Validity
import Suspension.Proofs.Instrument.Stowing

/-!
# Frames along generated code

What the generated code of a transformed body does to the images of frames.  A frame is saved from its image and
restored to it, **whatever else the locals held meanwhile**, and a construction that is redone comes to lie
under its arguments.

* `Plan.Arranged` — a plan whose frames are compared with those of its transformed body.
* `Plan.onlyStack`, `Plan.resumeLocals` — locals of which less is known.
* `Plan.Arranged.runs_saving`, `Plan.Arranged.runs_resuming` — at a point.
* `Plan.Arranged.runs_leaving` — in front of a return, `Plan.Arranged.runs_redoing` — in front of a
  constructor call.
-/

namespace Suspension

open Suspension.Frame (Runs runs_load runs_call runs_mark)

/-! ## Operands -/

namespace Instruction

variable {n : UInt32} {instr : Instruction}

/-- An instruction that passes the checks names no class by an empty name. -/
lemma Fits.named (h : instr.Fits n) : instr.Named := by
  intro hop ho
  simp only [List.mem_cons, List.not_mem_nil, or_false] at hop
  unfold Fits at h
  rcases hop with hop | hop | hop | hop
  all_goals
    rw [hop] at h
    obtain ⟨t, ht, hne⟩ := h
    rw [ho] at ht
    cases ht
    exact hne rfl

/-- Nor does it read a field without a value. -/
lemma Fits.readsValue (h : instr.Fits n) : Frame.ReadsValue instr := by
  intro hop m ho
  unfold Fits at h
  rcases hop with hop | hop
  all_goals
    rw [hop] at h
    obtain ⟨m', ho', -, -, hfield⟩ := h
    rw [ho] at ho'
    cases ho'
    exact Descriptor.kind?_of_isField hfield

/-- An instruction without an operand does not jump. -/
lemma WellFormed.targets_eq_nil (h : instr.WellFormed) (hop : instr.opcode.operandKind? = some .none) :
    instr.targets = [] := by
  unfold WellFormed at h
  unfold targets
  rw [hop] at h
  cases ho : instr.operand with
  | label | table =>
      rw [ho] at h
      cases h
  | _ => rfl

end Instruction

namespace Plan

/-! ## Plans -/

/-- **A plan whose frames are compared with those of its transformed body.**  Its instructions pass the
checks, the receiver is never overwritten, calls by reflection are what they are declared as. -/
structure Arranged (p : Plan) (nm : Method) : Prop extends p.Typed where
  sound : p.Sound
  lays : p.Lays nm
  desc_eq : nm.desc = p.subject.method.desc
  flags_eq : nm.flags = p.subject.method.flags
  labels : p.LabelsFit
  locals : p.LocalsFit
  fits : ∀ instr ∈ p.code.toList, instr.WellFormed ∧ instr.Fits p.stackVar
  paired : ∀ {i : Nat} {f : Frame}, p.subject.types.frames[i]? = some (some f) → f.Paired p.subject.types
  names : ∀ {i : Nat} {f : Frame}, p.subject.types.frames[i]? = some (some f) → f.Names (· ≠ [])
  receiver : p.subject.method.isStatic = false → ∀ {i : Nat} {f : Frame},
    p.subject.types.frames[i]? = some (some f) → f.locals[0]? = some (.ref p.subject.owner)
  reflective : ∀ instr ∈ p.code.toList, ∀ callee, instr.callee? = some callee →
    callee.isReflective = true → instr.opcode ≠ .invoke .static ∧ callee.desc = reflectedDesc

/-- Locals of which only the frame stack is known. -/
def onlyStack (p : Plan) : Array SlotType := Array.replicate p.stackVar.toNat .unusable ++ p.extraLocals

/-- The locals that the caller supplies again. -/
def receiverLocals (p : Plan) : Array SlotType :=
  if p.subject.method.isStatic then #[] else #[.ref p.subject.owner]

/-- **Locals of which only what the caller supplies and the frame stack is known.** -/
def resumeLocals (p : Plan) : Array SlotType :=
  p.receiverLocals ++ Array.replicate (p.stackVar.toNat - p.subject.firstLocal) .unusable ++ p.extraLocals

@[simp] lemma size_receiverLocals (p : Plan) : p.receiverLocals.size = p.subject.firstLocal := by
  unfold receiverLocals Subject.firstLocal Method.receiverCount
  cases p.subject.method.isStatic <;> rfl

namespace Arranged

variable {p : Plan} {nm : Method} {i q n : Nat} {f g : Frame} {instr : Instruction} {pt : SuspensionPoint}
  {may : Nat → Prop} {ts args : List SlotType} {L : Array SlotType}

lemma mem_code (hcode : p.code[i]? = some instr) : instr ∈ p.code.toList :=
  Array.mem_toList_iff.mpr (Array.mem_of_getElem? hcode)

variable (h : p.Arranged nm)
include h

lemma founded : p.Founded := h.toTyped.toFounded

lemma width (hf : p.subject.types.frames[i]? = some (some f)) : f.locals.size = p.stackVar.toNat :=
  h.certified.width _ _ hf

lemma free (hf : p.subject.types.frames[i]? = some (some f)) :
    ∀ t ∈ f.locals.toList, Site.Free p.subject.types.sites t := (h.orderly hf).locals

/-! ## Images -/

/-- What may be used freely is an ordinary slot in the transformed body. -/
lemma moved_of_free {t : SlotType} (ht : Site.Free p.subject.types.sites t) :
    t.moved p.standsAt = Analysis.settle t :=
  SlotType.moved_of_loose (SlotType.loose_of_free h.founded.unpinned_of_tracked ht)

lemma image_locals (hfree : ∀ t ∈ f.locals.toList, Site.Free p.subject.types.sites t) :
    (p.frameImage f).locals = f.locals.map Analysis.settle ++ p.extraLocals :=
  congrArg (· ++ p.extraLocals) (Array.map_congr_left fun t ht => h.moved_of_free
    (hfree t (Array.mem_toList_iff.mpr ht)))

omit h in
lemma size_extraLocals (p : Plan) : p.extraLocals.size = 1 + p.temporaries 0 p.code.toList := by
  simp [extraLocals]

omit h in
lemma size_image (hw : f.locals.size = p.stackVar.toNat) :
    (p.frameImage f).locals.size = p.stackVar.toNat + (1 + p.temporaries 0 p.code.toList) := by
  simp [frameImage, Frame.image, Frame.moved, Frame.thin, size_extraLocals, hw]

omit h in
/-- The frame stack is behind the locals of the method. -/
lemma holdsStack_append (hL : L.size = p.stackVar.toNat) : Emit.HoldsStack p.stackVar (L ++ p.extraLocals) := by
  unfold Emit.HoldsStack
  rw [Array.getElem?_append_right (by omega), hL]
  simp [extraLocals]

omit h in
lemma holdsStack_image (hw : f.locals.size = p.stackVar.toNat) :
    Emit.HoldsStack p.stackVar (p.frameImage f).locals := holdsStack_append (by simpa [Frame.thin] using hw)

/-- The locals of the transformed body do not wrap. -/
lemma size_lt : p.stackVar.toNat + (1 + p.temporaries 0 p.code.toList) < UInt32.size := by
  have hfit := h.locals
  unfold LocalsFit at hfit
  unfold UInt32.size
  omega

/-- A frame has locals for what the caller supplies. -/
lemma firstLocal_le : p.subject.firstLocal ≤ p.stackVar.toNat := by
  obtain ⟨f, hf, -⟩ := h.certified.entry
  obtain ⟨ds, -, hlen, -⟩ := Analysis.entryFrame_eq_ok hf
  refine Nat.le_trans ?_ hlen
  unfold Subject.firstLocal Method.receiverCount Analysis.givenSlots
  cases p.subject.method.isStatic <;> simp

lemma size_resumeLocals : p.resumeLocals.size = p.stackVar.toNat + (1 + p.temporaries 0 p.code.toList) := by
  have hfirst := h.firstLocal_le
  simp only [resumeLocals, Array.size_append, size_receiverLocals, Array.size_replicate, size_extraLocals]
  omega

lemma holdsStack_resume : Emit.HoldsStack p.stackVar p.resumeLocals := by
  refine holdsStack_append ?_
  have hfirst := h.firstLocal_le
  simp only [Array.size_append, size_receiverLocals, Array.size_replicate]
  omega

omit h in
@[simp] lemma size_onlyStack (p : Plan) :
    p.onlyStack.size = p.stackVar.toNat + (1 + p.temporaries 0 p.code.toList) := by simp [onlyStack,
      size_extraLocals]

omit h in
lemma holdsStack_onlyStack (p : Plan) : Emit.HoldsStack p.stackVar p.onlyStack := holdsStack_append (by simp)

/-! ## Points -/

omit h in
/-- What a point does not put off is an ordinary slot in the transformed body. -/
lemma moved_of_not_deferred {t : SlotType} (ht : p.subject.isDeferred t = false) :
    t.moved p.standsAt = Analysis.settle t := by
  cases t with
  | pending n cls copied =>
      refine SlotType.moved_pending_none (if_neg fun hheld => ?_)
      simp only [isHeld, Bool.and_eq_true, Option.any_eq_true_iff_get] at hheld
      obtain ⟨-, hsome, hpinned⟩ := hheld
      obtain ⟨s, hs⟩ := Option.isSome_iff_exists.mp hsome
      simp only [hs, Option.get_some] at hpinned
      simp [Subject.isDeferred, hs, hpinned] at ht
  | _ => rfl

/-- **What a point keeps of its stack** are the entries of the image. -/
lemma operands_eq (hpt : pt ∈ p.points) :
    Emit.operands pt.plan.stack.reverse = (p.frameImage pt.frame).stack := by
  have hlaid := (h.found pt hpt).laidOut
  show _ = (Frame.present p.isOmitted pt.frame.stack).map (·.moved p.standsAt)
  rw [Running.present_eq_kept h.founded hpt, ← hlaid.operands_eq, List.map_map]
  refine List.map_congr_left fun x hx => ?_
  obtain ⟨hmem, hkeep⟩ := List.mem_filter.mp hx
  exact (moved_of_not_deferred ((hlaid.deferred_iff (List.mem_reverse.mp hmem)).mp (by simpa using hkeep))).symm

omit h in
/-- A slot that is given a place is kept there. -/
lemma keeps_of_placing {l : List (SlotType × Keep)} {c c' : SlotCounts} (hl : SlotPlan.Placing c l c')
    {x : SlotType × Keep} (hx : x ∈ l) (hne : x.2 ≠ .deferred) (hskip : x.2 = .nothing → x.1.isSkipped = true) :
    Emit.Keeps x.1 x.2 := by
  obtain ⟨v, keep⟩ := x
  cases keep with
  | nothing => exact Or.inl ⟨rfl, hskip rfl⟩
  | deferred => exact absurd rfl hne
  | object i => exact Or.inr ⟨.ref, i, rfl, hl.kind_of_object hx⟩
  | prim i =>
      obtain ⟨k, hk, -⟩ := hl.kind_of_prim hx
      exact Or.inr ⟨k, i, by simp [Emit.place?, hk], hk⟩

lemma keeps_stack (hpt : pt ∈ p.points) {x : SlotType × Keep} (hx : x ∈ pt.plan.stack) (hne : x.2 ≠ .deferred) :
    Emit.Keeps x.1 x.2 := by
  have hlaid := (h.found pt hpt).laidOut
  refine keeps_of_placing hlaid.placing (List.mem_append_left _ hx) hne fun hnone => ?_
  obtain ⟨v, keep⟩ := x
  obtain rfl : keep = .nothing := hnone
  exact hlaid.skipped hx

lemma keeps_local (hpt : pt ∈ p.points) {j : Nat} {x : SlotType × Keep} (hx : pt.plan.locals[j]? = some x)
    (hj : p.subject.firstLocal ≤ j) : Emit.Keeps x.1 x.2 := by
  have hlaid := (h.found pt hpt).laidOut
  obtain ⟨hne, -, hskip⟩ := hlaid.local_keep hx
  exact keeps_of_placing hlaid.placing (List.mem_append_right _ (List.mem_of_getElem? hx)) hne (hskip hj)

/-- The local of a point. -/
lemma getElem?_locals (hpt : pt ∈ p.points) {j : Nat} {x : SlotType × Keep} (hx : pt.plan.locals[j]? = some x) :
    pt.frame.locals[j]? = some x.1 := by
  rw [← Array.getElem?_toList, ← (h.found pt hpt).laidOut.locals_eq, List.getElem?_map, hx]
  rfl

/-- **Saving the frame of a point** takes what is there of its stack. -/
lemma runs_saving (hpt : p.points[n]? = some pt) :
    Runs p.imageSites may q (p.frameImage pt.frame) (.mark (p.beforeLabel n) :: Emit.save p.stackVar pt)
      ⟨(p.frameImage pt.frame).locals, []⟩ := by
  have hmem := List.mem_of_getElem? hpt
  have hfound := h.found pt hmem
  have hw := h.width hfound.frame_at
  refine (runs_mark _).append_at (l := [_]) fun q => ?_
  have hrun : Runs p.imageSites may q ⟨(p.frameImage pt.frame).locals, Emit.operands pt.plan.stack.reverse⟩
      (Emit.save p.stackVar pt) ⟨(p.frameImage pt.frame).locals, []⟩ := by
    refine Emit.runs_save (holdsStack_image hw) ((size_image hw).trans_lt h.size_lt)
      (fun x => h.keeps_stack hmem)
      fun j x hx k i hplace => ⟨?_, ?_⟩
    · exact (hfound.laidOut.placing.place?_range (List.mem_append_right _ (List.mem_of_getElem? hx)) hplace).1
    · have hat := h.getElem?_locals hmem hx
      rw [h.image_locals (h.free hfound.frame_at), Array.getElem?_append_left (by
        simpa using (Array.getElem?_eq_some_iff.mp hat).1), Array.getElem?_map, hat]
      rfl
  rwa [h.operands_eq hmem] at hrun

/-- **What is restored are the locals of the image.** -/
lemma set_resumeLocals (hf : p.subject.types.frames[i]? = some (some f)) :
    Emit.setLocals p.subject.firstLocal (f.locals.toList.drop p.subject.firstLocal) p.resumeLocals
      = (p.frameImage f).locals := by
  have hw := h.width hf
  have hfirst := h.firstLocal_le
  have hsize := h.size_resumeLocals
  have hlen : (f.locals.toList.drop p.subject.firstLocal).length = p.stackVar.toNat - p.subject.firstLocal := by
    rw [List.length_drop, Array.length_toList, hw]
  refine Array.ext_getElem? fun j => ?_
  rw [h.image_locals (h.free hf)]
  by_cases hlow : j < p.subject.firstLocal
  · -- the receiver is supplied by the caller
    rw [Emit.getElem?_setLocals_of_not (by omega) (Or.inl hlow), Array.getElem?_append_left (by simp; omega),
      Array.getElem?_map]
    unfold resumeLocals
    rw [Array.append_assoc, Array.getElem?_append_left (by simpa using hlow)]
    unfold Subject.firstLocal Method.receiverCount at hlow
    unfold receiverLocals
    cases hstatic : p.subject.method.isStatic with
    | true => simp [hstatic] at hlow
    | false =>
        obtain rfl : j = 0 := by simpa [hstatic] using hlow
        rw [h.receiver hstatic hf]
        rfl
  by_cases hhigh : j < p.stackVar.toNat
  · obtain ⟨v, hv⟩ : ∃ v, f.locals[j]? = some v := ⟨_, Array.getElem?_eq_getElem (hw ▸ hhigh)⟩
    have hk : (f.locals.toList.drop p.subject.firstLocal)[j - p.subject.firstLocal]? = some v := by
      rw [List.getElem?_drop, Nat.add_sub_cancel' (by omega), Array.getElem?_toList, hv]
    have hset := Emit.getElem?_setLocals (L := p.resumeLocals) (n := p.subject.firstLocal) (by omega) hk
    rw [Nat.add_sub_cancel' (by omega)] at hset
    rw [hset, Array.getElem?_append_left (by simpa [hw] using hhigh), Array.getElem?_map, hv]
    have hnone : p.resumeLocals[j]? = some .unusable := by
      unfold resumeLocals
      rw [Array.getElem?_append_left (by simp; omega), Array.getElem?_append_right (by simp; omega),
        Array.getElem?_replicate, if_pos (by simp; omega)]
    by_cases hunusable : v = .unusable
    · simp [hunusable, hnone, Analysis.settle]
    · simp [hunusable]
  · rw [Emit.getElem?_setLocals_of_not (by omega) (Or.inr (by omega)), Array.getElem?_append_right
      (by simp; omega)]
    unfold resumeLocals
    rw [Array.getElem?_append_right (by simp; omega)]
    congr 1
    simp only [Array.size_append, size_receiverLocals, Array.size_replicate, Array.size_map]
    omega

/-- **Restoring the frame of a point** brings back its image. -/
lemma runs_resuming (hpt : p.points[n]? = some pt) (hmay : ∀ j < p.stackVar.toNat, may j) :
    Runs p.imageSites may q ⟨p.resumeLocals, []⟩
      (.mark (p.callLabel n) :: Emit.restore p.stackVar p.subject.firstLocal pt) (p.frameImage pt.frame) := by
  have hmem := List.mem_of_getElem? hpt
  have hfound := h.found pt hmem
  have hf : p.subject.types.frames[pt.position]? = some (some pt.frame) := hfound.frame_at
  have hsize := h.size_resumeLocals
  have hlen : pt.plan.locals.length = p.stackVar.toNat := by rw [hfound.laidOut.length_locals, h.width hf]
  have hlocals : (pt.plan.locals.drop p.subject.firstLocal).map Prod.fst
      = pt.frame.locals.toList.drop p.subject.firstLocal := by rw [List.map_drop, hfound.laidOut.locals_eq]
  refine (runs_mark _).append_at (l := [_]) fun q => ?_
  have hrun : Runs p.imageSites may q ⟨p.resumeLocals, []⟩ (Emit.restore p.stackVar p.subject.firstLocal pt)
      ⟨Emit.setLocals p.subject.firstLocal ((pt.plan.locals.drop p.subject.firstLocal).map Prod.fst)
        p.resumeLocals,
        Emit.operands pt.plan.stack.reverse⟩ := by
    refine Emit.runs_restore h.holdsStack_resume (hsize ▸ h.size_lt) (hlen ▸ h.firstLocal_le) (by omega)
      (by omega)
      (fun j _ hj => hmay j (by omega)) (fun x hx hne => ⟨h.keeps_stack hmem hx hne, ?_⟩) fun x hx => ?_
    · have hx' : x.1 ∈ pt.frame.stack := by
        rw [← List.mem_reverse, ← hfound.laidOut.stack_eq]
        exact List.mem_map_of_mem hx
      exact ⟨(h.orderly hf).stack.usable _ hx', (h.names hf).1 _ hx'⟩
    · obtain ⟨j, hj⟩ := List.mem_iff_getElem?.mp hx
      rw [List.getElem?_drop] at hj
      refine ⟨h.keeps_local hmem hj (Nat.le_add_right _ _), (h.names hf).2 _ ?_⟩
      exact Array.mem_toList_iff.mpr (Array.mem_of_getElem? (h.getElem?_locals hmem hj))
  rwa [h.operands_eq hmem, hlocals, h.set_resumeLocals hf] at hrun

/-! ## Returns and constructor calls -/

omit h in
/-- **In front of a return** the record is popped. -/
lemma runs_leaving (hw : f.locals.size = p.stackVar.toNat) :
    Runs p.imageSites may q (p.frameImage f) [.slot (.load .ref) p.stackVar, Emit.popMethod] (p.frameImage f) :=
  (runs_load (k := .ref) (holdsStack_image hw) rfl).append_at fun q =>
    runs_call (d := ⟨[], "V"⟩) [] [.ref ClassName.frameStack] _ (by simp) rfl rfl rfl (by simp [Site.Free])

/-- The `new` and the `dup` of a construction that is redone. -/
lemma redone_instructions {e : Deferral} (hdef : p.deferral? i instr = .ok (some e)) :
    (e.create = ⟨.new, .type e.site.cls⟩ ∧ e.create ∈ p.code.toList)
      ∧ e.copy.opcode = .dup ∧ e.copy ∈ p.code.toList := by
  obtain ⟨m, f, cls, cls', dupAt, rest, hr⟩ := deferral?_eq_some hdef
  obtain ⟨hcreate, hcopy⟩ := hr.instructions h.sound
  have hnew := h.sound.sites.new_at e.site hr.site
  obtain ⟨copy, hat, -⟩ := h.sound.sites.dup_at e.site hr.site dupAt hr.dup_at
  refine ⟨⟨hcreate, mem_code (i := e.site.newAt) ?_⟩, hcopy, mem_code (i := dupAt) ?_⟩
  · rw [hcreate]
    exact hnew
  · rw [hr.copy, Array.getD_eq_getD_getElem?]
    exact hat.trans (congrArg some (by rw [hat]; rfl))

/-- **In front of a constructor call whose construction is redone**, the references of the construction come
to lie under the arguments. -/
lemma runs_redoing (hcode : p.code[i]? = some instr) {e : Deferral} (hdef : p.deferral? i instr = .ok (some e))
    (hL : L.size = p.stackVar.toNat + (1 + p.temporaries 0 p.code.toList))
    (hkinds : args.map SlotType.kind? = e.args.map SlotType.kind?)
    (husable : ∀ u ∈ args, u.kind? ≠ none ∧ Analysis.settle u = u)
    (hmay : ∀ j, p.stackVar.toNat < j → j < L.size → may j) : Runs p.imageSites may (p.place i) ⟨L, args ++ ts⟩
      (spill (p.stackVar + 1) e.args ++ [e.create, e.copy] ++ reload (p.stackVar + 1) e.args)
      ⟨Emit.setLocals (p.stackVar.toNat + 1) args L, args ++ .pending (p.place i + e.args.length) e.site.cls
        true
        :: .pending (p.place i + e.args.length) e.site.cls false :: ts⟩ := by
  have hlen : args.length = e.args.length := by simpa using congrArg List.length hkinds
  have htemps : e.args.length ≤ p.temporaries 0 p.code.toList := by
    refine args_le_temporaries (i := 0) (k := i) ?_ (by rwa [Nat.zero_add])
    rw [Array.getElem?_toList, hcode]
  have hsize := h.size_lt
  have hbase : (p.stackVar + 1).toNat = p.stackVar.toNat + 1 := by
    rw [UInt32.toNat_add, show (1 : UInt32).toNat = 1 from rfl]
    exact Nat.mod_eq_of_lt (by unfold UInt32.size at hsize; omega)
  obtain ⟨⟨hcreate, hnew⟩, hcopy, hdup⟩ := h.redone_instructions hdef
  have hspill : Runs p.imageSites may (p.place i) ⟨L, args ++ ts⟩ (spill (p.stackVar + 1) e.args)
      ⟨Emit.setLocals (p.stackVar.toNat + 1) args L, ts⟩ := by
    rw [← hbase]
    exact runs_spill hkinds husable (by omega) (by omega) fun j hj hj' => hmay j (by omega) hj'
  have hnil : e.copy.targets = [] := (h.fits _ hdup).1.targets_eq_nil (by rw [hcopy]; rfl)
  have hbegin : ∀ {q : Nat} {L : Array SlotType}, Runs p.imageSites may q ⟨L, ts⟩ [e.create]
      ⟨L, .pending q e.site.cls false :: ts⟩ := by
    intro q L
    rw [hcreate]
    exact .one ⟨rfl, rfl, hcreate ▸ (h.fits _ hnew).2.named, by simp, rfl, by simp⟩ (.begin rfl rfl)
  have hcopies : ∀ {L : Array SlotType}, Runs p.imageSites may (p.place i + e.args.length + 1)
      ⟨L, .pending (p.place i + e.args.length) e.site.cls false :: ts⟩ [e.copy]
      ⟨L, .pending (p.place i + e.args.length) e.site.cls true
        :: .pending (p.place i + e.args.length) e.site.cls false :: ts⟩ :=
    .one ⟨hnil, by simp [hcopy, Opcode.endsBlock], (h.fits _ hdup).2.named, by simp [hcopy],
      by simp [constructor?, hcopy], by simp [hcopy]⟩ (.copy hcopy rfl (copiedAt_redone hcode hdef))
  have hmiddle : Runs p.imageSites may (p.place i) ⟨L, args ++ ts⟩
      (spill (p.stackVar + 1) e.args ++ [e.create, e.copy]) ⟨Emit.setLocals (p.stackVar.toNat + 1) args L,
        .pending (p.place i + e.args.length) e.site.cls true
          :: .pending (p.place i + e.args.length) e.site.cls false :: ts⟩ := by
    refine hspill.append ?_
    rw [length_spill]
    exact hbegin.append (l := [_]) hcopies
  refine hmiddle.append_at fun q => ?_
  refine runs_reload hkinds (fun u hu => (husable u hu).1) (fun k u hk => ?_) (by simpa [hL] using hsize)
  have hset := Emit.getElem?_setLocals (L := L) (n := p.stackVar.toNat + 1) (by omega) hk
  obtain ⟨hkind, hsettle⟩ := husable u (List.mem_of_getElem? hk)
  rw [hbase, hset, if_neg, hsettle]
  rintro rfl
  exact hkind rfl

end Arranged

/-! ## Constructions that are redone -/

/-- Locals that are set stay settled. -/
lemma settle_setLocals {L : Array SlotType} (h : ∀ t ∈ L.toList, Analysis.settle t = t) (n : Nat)
    (vs : List SlotType) : ∀ t ∈ (Emit.setLocals n vs L).toList, Analysis.settle t = t := by
  induction vs generalizing n L with
  | nil => exact h
  | cons v vs ih =>
      refine ih (fun t ht => ?_) (n + 1)
      unfold Emit.setLocal at ht
      split at ht
      · exact h t ht
      · simp only [Array.set!_eq_setIfInBounds, Array.toList_setIfInBounds] at ht
        rcases List.mem_or_eq_of_mem_set ht with ht | rfl
        · exact h t ht
        · exact SlotType.settle_settle v

/-- Locals behind others are set on their own. -/
lemma setLocals_append (A L : Array SlotType) (n : Nat) (vs : List SlotType) :
    Emit.setLocals (A.size + n) vs (A ++ L) = A ++ Emit.setLocals n vs L := by
  induction vs generalizing n L with
  | nil => rfl
  | cons v vs ih =>
      have hset : Emit.setLocal (A ++ L) (A.size + n) v = A ++ Emit.setLocal L n v := by
        unfold Emit.setLocal
        split
        · rfl
        · simp [Array.set!_eq_setIfInBounds]
      rw [Emit.setLocals, hset, Nat.add_assoc, ih]
      rfl

/-- The locals behind those of the method, with what has been put into temporaries. -/
def usedLocals (p : Plan) (vs : List SlotType) : Array SlotType := Emit.setLocals 1 vs p.extraLocals

/-- Only temporaries that hold nothing are set. -/
lemma usedLocals_of_extra (p : Plan) {vs : List SlotType} (h : vs.length ≤ p.temporaries 0 p.code.toList) :
    List.Forall₂ (fun t u => t = u ∨ t = .unusable ∧ Analysis.settle u = u) p.extraLocals.toList
      (p.usedLocals vs).toList := by
  have hsize : p.extraLocals.size = 1 + p.temporaries 0 p.code.toList := Arranged.size_extraLocals p
  refine List.forall₂_iff_get.mpr ⟨by simp [usedLocals], fun j hj hj' => ?_⟩
  simp only [List.get_eq_getElem, Array.getElem_toList]
  simp only [Array.length_toList] at hj hj'
  by_cases hzero : j = 0
  · refine Or.inl (Option.some.inj ?_)
    rw [← Array.getElem?_eq_getElem hj, ← Array.getElem?_eq_getElem hj']
    exact (Emit.getElem?_setLocals_of_not (by omega) (Or.inl (by omega))).symm
  · refine Or.inr ⟨?_, settle_setLocals p.settle_extraLocals 1 vs _ (Array.getElem_mem_toList hj')⟩
    simp only [extraLocals]
    rw [Array.getElem_append_right (by simp; omega), Array.getElem_replicate]

/-- **The frame in front of a constructor call whose construction is redone**: the references of the
construction lie under the arguments, which have been put into temporaries. -/
def redoneFrame (p : Plan) (i : Nat) (e : Deferral) (f : Frame) : Frame :=
  let args := (p.frameImage f).stack.take e.args.length
  ⟨Emit.setLocals (p.stackVar.toNat + 1) args (p.frameImage f).locals,
    args ++ .pending (p.place i + e.args.length) e.site.cls true
      :: .pending (p.place i + e.args.length) e.site.cls false :: (p.frameImage f).stack.drop e.args.length⟩

namespace Redone

variable {p : Plan} {nm : Method} {i q : Nat} {f g after after' : Frame} {instr : Instruction} {e : Deferral}
  {rest : List SlotType} {may : Nat → Prop} {O : SlotOrder} {src : ClassSource} {V : ClassView}
  {U : ClassOrder src V}

/-- The references of a construction that is left out are missing in the image. -/
lemma image_stack (hr : p.Redone i instr e g after' rest) (h : p.Arranged nm) {args rest' : List SlotType}
    (hfree : ∀ t ∈ args, Site.Free p.subject.types.sites t)
    (hs : f.stack = args ++ .pending e.site.newAt e.site.cls true :: .pending e.site.newAt e.site.cls false
      :: rest') :
    (p.frameImage f).stack = args.map (·.moved p.standsAt)
      ++ (Frame.present p.isOmitted rest').map (·.moved p.standsAt) := by
  show (Frame.present p.isOmitted f.stack).map (·.moved p.standsAt) = _
  rw [hs, Frame.present_append, Frame.present_eq_self fun t ht => h.founded.absent?_of_free (hfree t ht)]
  simp [Frame.present, Frame.absent?_pending hr.omitted]

variable (hr : p.Redone i instr e g after' rest) (h : p.Arranged nm) (hg : p.subject.types.frames[i]? = some
  (some g))
  (hcode : p.code[i]? = some instr) (hdef : p.deferral? i instr = .ok (some e)) (hfg : f.Below O g)
  (hO : O.held = p.unpinned)
include hr h hg hcode hdef hfg hO

/-- **The arguments are put aside and come back**, the references of the construction under them. -/
lemma runs (hmay : ∀ j, p.stackVar.toNat < j → j < (p.frameImage f).locals.size → may j) :
    Runs p.imageSites may (p.place i) (p.frameImage f)
      (spill (p.stackVar + 1) e.args ++ [e.create, e.copy] ++ reload (p.stackVar + 1) e.args)
      (p.redoneFrame i e f) := by
  obtain ⟨args, rest', hs, hargs, hfree, -⟩ := hr.splits h.founded hfg hO
  have hw : f.locals.size = p.stackVar.toNat := hfg.size.trans (h.width hg)
  have hmoved : args.map (·.moved p.standsAt) = args.map Analysis.settle :=
    List.map_congr_left fun t ht => h.moved_of_free (hfree t ht)
  have hkinds : args.map SlotType.kind? = e.args.map SlotType.kind? := SlotType.Below.map_kind?_eq hargs
  have hstack := hr.image_stack h hfree hs
  have hlen : (args.map (·.moved p.standsAt)).length = e.args.length := by simpa using hargs.length_eq
  have husable : ∀ u ∈ args.map (·.moved p.standsAt), u.kind? ≠ none ∧ Analysis.settle u = u := by
    rw [hmoved]
    intro u hu
    obtain ⟨t, ht, rfl⟩ := List.mem_map.mp hu
    refine ⟨?_, SlotType.settle_settle t⟩
    have hmem : t.kind? ∈ e.args.map SlotType.kind? := hkinds ▸ List.mem_map_of_mem ht
    obtain ⟨t', ht', heq⟩ := List.mem_map.mp hmem
    rw [Emit.kind?_settle, ← heq]
    exact (h.orderly hg).stack.usable t' (by rw [hr.stack]; exact List.mem_append_left _ ht')
  have hrun : Runs p.imageSites may (p.place i) ⟨(p.frameImage f).locals, args.map (·.moved p.standsAt)
      ++ (Frame.present p.isOmitted rest').map (·.moved p.standsAt)⟩ _ _ :=
    h.runs_redoing hcode hdef (Arranged.size_image hw) (by rw [Frame.map_kind?_moved, hkinds]) husable hmay
  unfold redoneFrame
  simp only
  rw [hstack, List.take_left' hlen, List.drop_left' hlen]
  rwa [← hstack] at hrun

/-- **The constructor call does to its frame what it does to that of the method.** -/
lemma step (htr : Frame.Transition p.subject.types.sites i instr f after)
    (hlocals : ∀ t ∈ f.locals.toList, Site.Free p.subject.types.sites t) (hbuilds : U.Builds f) :
    ∃ g' vs, Frame.Transition p.imageSites (p.imageAt i) instr (p.redoneFrame i e f) g'
      ∧ vs.length ≤ p.temporaries 0 p.code.toList
      ∧ g'.Below (.level U p.heldAt) ((after.thin p.isOmitted).moved p.standsAt (p.usedLocals vs)) := by
  obtain ⟨args, rest', hs, hargs, hfree, happart⟩ := hr.splits h.founded hfg hO
  have hw : f.locals.size = p.stackVar.toNat := hfg.size.trans (h.width hg)
  have hstack := hr.image_stack h hfree hs
  have hlen : (args.map (·.moved p.standsAt)).length = e.args.length := by simpa using hargs.length_eq
  have hfit : e.args.length ≤ p.temporaries 0 p.code.toList := by
    refine args_le_temporaries (i := 0) (k := i) ?_ (by rwa [Nat.zero_add])
    rw [Array.getElem?_toList, hcode]
  obtain ⟨g', hstep, hle⟩ := h.sound.image_redone h.founded htr hr hcode hdef hfg hO hlocals hbuilds
    (settle_setLocals p.settle_extraLocals 1 (args.map (·.moved p.standsAt))) hs hargs.length_eq hfree happart
  refine ⟨g', _, ?_, hlen.trans_le hfit, hle⟩
  have hset := setLocals_append (f.locals.map (·.moved p.standsAt)) p.extraLocals 1
    (args.map (·.moved p.standsAt))
  rw [Array.size_map, hw] at hset
  unfold redoneFrame
  simp only
  rw [hstack, List.take_left' hlen, List.drop_left' hlen]
  exact hset ▸ hstep

end Redone

end Plan

end Suspension
