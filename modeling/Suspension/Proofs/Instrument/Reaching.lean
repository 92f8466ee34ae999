import Suspension.Proofs.Instrument.Typing

/-!
# The analysis of a transformed body from below

A settled analysis of a transformed body knows **at the place of an instruction no more than the image of
every frame that the analysis of the method comes to there**.  The frame at the entry comes to its place by
the prologue, and what a point restores comes from the switch at its end.  Where a frame has come to its
place, the locals have come to the handlers that cover it.

* `SlotOrder.faint` — the order in which frames are below others of which more is known.
* `Plan.Compared` — two settled analyses.
* `Plan.Rests` — a frame whose image is below what has been found at a place.
* `Plan.Compared.rests_entry`, `Plan.Compared.exists_resumed` — what comes by the prologue.
* `Plan.Compared.rests_within`, `Plan.Compared.rests_covered_mark` — what comes to handlers.
-/

namespace Suspension

open Suspension.Frame (Runs runs_store)

/-! ## Orders -/

section Orders

variable {src : ClassSource} {V : ClassView} {U : ClassOrder src V} {held : Nat → Prop} {t u : SlotType}
  {f g k : Frame}

/-- **The order in which an unusable local is below all others.** -/
def SlotOrder.faint (U : ClassOrder src V) (held : Nat → Prop) : SlotOrder := ⟨U.le, held, True, False⟩

lemma SlotType.Below.flip (h : SlotType.Below (.level U held) t u) : SlotType.Below (.level U held) u t := by
  cases h with
  | same => exact .same _
  | ref ht hu hcd hlt hlu => exact .ref hu ht ⟨hcd.2, hcd.1⟩ hlu hlt

/-- What makes no difference makes none the other way around. -/
lemma Frame.Below.faint_of_level (h : f.Below (.level U held) g) : g.Below (.faint U held) f := by
  have hslot : ∀ {t u}, SlotType.Below (.level U held) t u → SlotType.Below (.faint U held) u t :=
    fun h => h.flip.mono And.left fun _ h => h
  refine ⟨h.stack.flip.imp fun _ _ h => hslot h, h.locals.flip.imp fun _ _ h => ?_⟩
  cases h with
  | below h => exact .below (hslot h)
  | lower h => exact h.elim
  | upper h => exact h.elim

lemma Frame.Below.faint_trans (h : f.Below (.faint U held) g) (h' : g.Below (.faint U held) k) :
    f.Below (.faint U held) k := h.trans h' U.trans id id id id id id rfl rfl (·.1)

/-- What is below in this order is below what bounds the other frame from above. -/
lemma Frame.Below.weak_of_faint (h : f.Below (.faint U held) g) (h' : g.Below (.weak U held) k) :
    f.Below (.weak U held) k := h.trans h' U.trans id id id False.elim id id rfl rfl (·.1)

/-- A trimmed frame is below the one that it is trimmed by. -/
lemma Frame.Below.trim_faint (h : f.Below (.rising U held) g) : (f.trim g).Below (.faint U held) g where
  stack := h.stack.imp fun _ _ h => h.mono id fun _ h => h
  locals := by
    have hlocals := h.locals
    simp only [Frame.trim, Array.toList_zipWith]
    generalize f.locals.toList = ts at hlocals
    generalize g.locals.toList = us at hlocals
    induction hlocals with
    | nil => exact .nil
    | @cons t u ts us htu _ ih =>
        refine .cons ?_ ih
        unfold SlotType.trim
        split
        · next hu => exact hu ▸ .below (.same _)
        · next hu =>
            cases htu with
            | below h => exact .below (h.mono id fun _ h => h)
            | lower h => exact h.elim
            | upper => exact absurd rfl hu

end Orders

/-- A mark leaves the frame as it is. -/
lemma Frame.Transition.of_mark {S : List Site} {q : Nat} {instr : Instruction} {f g : Frame}
    (h : Frame.Transition S q instr f g) (hop : instr.opcode = .label) : g = f := by
  cases h with
  | plain hs shape =>
      cases shape with
      | idle =>
          obtain ⟨L, ts⟩ := f
          obtain rfl : ts = _ := hs
          rfl
      | fixed hfixed => simp [hop, Opcode.hasFixedEffect] at hfixed
      | _ => simp_all
  | store hop' | begin hop' | copy hop' | construct hop' =>
      rw [hop] at hop'
      cases hop'

namespace Plan

variable {src : ClassSource} {V : ClassView}

/-! ## Two analyses -/

/-- **A settled analysis of a transformed body**, beside that of the method. -/
structure Compared (U : ClassOrder src V) (p : Plan) (nm : Method) (spans : List HandlerSpan) (entry : Frame)
    (spans' : List HandlerSpan) (T' : FrameTypes) : Prop where
  arranged : p.Arranged nm
  settles : p.Settles U spans entry
  ranges : Analysis.spans nm.code nm.ranges 0 = .ok spans'
  settled : T'.Settles U p.heldAt nm.code spans'
  entered : T'.Meets U ⟨entry.locals ++ Array.replicate (1 + p.temporaries 0 p.code.toList) .unusable, []⟩ 0

/-- **A frame rests at the place of an instruction**: it is below the frame at the instruction, and its
image, as far as it is known there, below what has been found at the place. -/
structure RestsBelow (U : ClassOrder src V) (p : Plan) (T' : FrameTypes) (i : Nat) (f g k : Frame) : Prop where
  frame_at : p.subject.types.frames[i]? = some (some g)
  below : f.Below (.rising U p.unpinned) g
  placed : T'.frames[p.place i]? = some (some k)
  image : (p.frameImage (f.trim g)).Below (.weak U p.heldAt) k

/-- A frame rests at the place of an instruction. -/
def Rests (U : ClassOrder src V) (p : Plan) (T' : FrameTypes) (i : Nat) (f : Frame) : Prop :=
  ∃ g k, p.RestsBelow U T' i f g k

variable {U : ClassOrder src V} {p : Plan} {nm : Method} {spans spans' : List HandlerSpan}
  {entry f g k after : Frame}
  {T' : FrameTypes} {i j q : Nat} {instr : Instruction} {s : HandlerSpan}

namespace Compared

variable (hC : p.Compared U nm spans entry spans' T')
include hC

/-- Less is known of the image where more is trimmed. -/
lemma image_faint (h : g.Below (.rising U p.unpinned) k) (f : Frame) :
    (p.frameImage (f.trim k)).Below (.faint U p.heldAt) (p.frameImage (f.trim g)) :=
  Frame.Below.image (P := .faint U p.unpinned) (O := .faint U p.heldAt) (h.trim_mono id trivial f)
    hC.arranged.founded.unpinned_of_isOmitted hC.arranged.founded.unpinned_of_tracked id id id p.extraLocals

/-- A trimmed frame has an image below that of the frame that it is trimmed by. -/
lemma image_trim (h : f.Below (.rising U p.unpinned) g) :
    (p.frameImage (f.trim g)).Below (.faint U p.heldAt) (p.frameImage g) :=
  Frame.Below.image (P := .faint U p.unpinned) (O := .faint U p.heldAt) h.trim_faint
    hC.arranged.founded.unpinned_of_isOmitted hC.arranged.founded.unpinned_of_tracked id id id p.extraLocals

/-- **What has reached a position rests there**, if what it leaves in the transformed body reaches the place. -/
lemma rests_of_meets {k k' : Frame} (hf : f.Below (.rising U p.unpinned) k) (hm : p.subject.types.Meets U k i)
    (himage : (p.frameImage (f.trim k)).Below (.weak U p.heldAt) k') (hm' : T'.Meets U k' (p.place i)) :
    p.Rests U T' i f := by
  obtain ⟨g, hg, hclimbs⟩ := hm
  have hkg := hclimbs.held fun n (hn : p.unpinned n) => hn
  obtain ⟨k'', hk'', hle⟩ := hC.settled.weak_of_meets ((hC.image_faint hkg f).weak_of_faint himage) hm'
  exact ⟨g, k'', hg, hf.trans hkg U.trans id id id id id id rfl rfl (·.2), hk'', hle⟩

/-- The same of a handler, to which control comes with the locals. -/
lemma rests_of_handler {k k' : Frame} {cls : Text} (hf : f.Below (.rising U p.unpinned) k)
    (hm : p.subject.types.Meets U ⟨k.locals, [.ref cls]⟩ i)
    (himage : (p.frameImage (f.trim k)).Below (.weak U p.heldAt) ⟨k'.locals, (p.frameImage (f.trim k)).stack⟩)
    (hm' : T'.Meets U ⟨k'.locals, [.ref cls]⟩ (p.place i)) : p.Rests U T' i ⟨f.locals, [.ref cls]⟩ := by
  have hframe : Frame.Below (.rising U p.unpinned) ⟨f.locals, [.ref cls]⟩ ⟨k.locals, [.ref cls]⟩ :=
    ⟨.cons (.same _) .nil, hf.locals⟩
  refine hC.rests_of_meets hframe hm ?_ hm'
  change (p.frameImage ⟨(f.trim k).locals, [.ref cls]⟩).Below _ _
  rw [frameImage_handler]
  exact ⟨.cons (.same _) .nil, himage.locals⟩

/-! ## Handlers -/

omit hC in
/-- **A part of a range is a handler of the transformed body.** -/
lemma exists_part (h : p.Arranged nm) (hranges : Analysis.spans nm.code nm.ranges 0 = .ok spans')
    {r t : ExceptionRange} (hr : r ∈ p.subject.method.ranges) (hat : Analysis.span p.code r = .ok s)
    (ht : t ∈ p.parts r) (hcov : Cut.Covers nm.labelPosition t q) :
    ∃ s' ∈ spans', s'.start ≤ q ∧ q < s'.stop ∧ s'.handler = p.place s.handler ∧ s'.cls = s.cls := by
  have hmem : t ∈ nm.ranges := by
    rw [h.lays.ranges, ranges_eq]
    exact List.mem_cons_of_mem _ (List.mem_append_left _ (List.mem_flatMap.mpr ⟨r, hr, ht⟩))
  obtain ⟨s', hs', hspan⟩ := (Analysis.spans_eq_ok hranges).1 t hmem
  obtain ⟨h₁, h₂, h₃, hcls⟩ := Analysis.span_eq_ok hspan
  obtain ⟨-, -, h₃', hcls'⟩ := Analysis.span_eq_ok hat
  have hpart := Cut.isPart_of_mem ht
  obtain ⟨hlow, hhigh⟩ := hcov
  unfold Method.labelPosition at hlow hhigh
  rw [h₁] at hlow
  rw [h₂] at hhigh
  refine ⟨s', hs', hlow, hhigh, ?_, ?_⟩
  · rw [hpart.handler_eq, h.lays.labelAt?_user h.sound h.labels h₃'] at h₃
    exact (Option.some.inj h₃).symm
  · rw [hcls, hcls', Analysis.caughtClass, Analysis.caughtClass, hpart.type_eq]

/-- **Where a handler of the method covers an instruction**, one of its parts covers the places within the
segment. -/
lemma exists_part_within (hs : s ∈ spans) (hlow : s.start ≤ i) (hhigh : i < s.stop) (hq : p.Within i q) :
    ∃ s' ∈ spans', s'.start ≤ q ∧ q < s'.stop ∧ s'.handler = p.place s.handler ∧ s'.cls = s.cls := by
  have h := hC.arranged
  obtain ⟨r, hr, hat⟩ := (Analysis.spans_eq_ok hC.settles.spans_eq).2 s hs
  obtain ⟨h₁, h₂, -, -⟩ := Analysis.span_eq_ok hat
  have hcov : Cut.Covers p.subject.method.labelPosition r i := by
    have h₁ : p.subject.method.code.labelAt? r.start = some s.start := h₁
    have h₂ : p.subject.method.code.labelAt? r.stop = some s.stop := h₂
    unfold Cut.Covers Method.labelPosition
    rw [h₁, h₂]
    exact ⟨hlow, hhigh⟩
  obtain ⟨t, ht, htcov⟩ := (Cut.exists_covers_applyAll (placed_cuts h.lays h.sound h.labels)).mpr
    ((hq.covers_range_iff h.lays h.sound h.labels hr).mpr hcov)
  exact exists_part h hC.ranges hr hat ht ((hq.covers_iff h.lays h.sound h.labels hr ht).mpr htcov)

/-- **The locals within a segment rest at the handlers** that cover the instruction. -/
lemma rests_within {k : Frame} (hr : p.subject.types.frames[i]? = some (some g))
    (hf : f.Below (.rising U p.unpinned) g)
    (hq : p.Within i q) (hk : T'.frames[q]? = some (some k))
    (himage : (p.frameImage (f.trim g)).Below (.weak U p.heldAt) ⟨k.locals, (p.frameImage (f.trim g)).stack⟩)
    (hs : s ∈ spans) (hlow : s.start ≤ i) (hhigh : i < s.stop) :
    p.Rests U T' s.handler ⟨f.locals, [.ref s.cls]⟩ := by
  obtain ⟨_, _, hpassed⟩ := hC.settles.passed i g hr
  obtain ⟨s', hs', hlow', hhigh', hhandler, hcls⟩ := hC.exists_part_within hs hlow hhigh hq
  obtain ⟨_, _, hpassed'⟩ := hC.settled.passed q k hk
  have hm' := (hpassed'.handlers s' hs' hlow' hhigh').1
  rw [hhandler, hcls] at hm'
  exact hC.rests_of_handler hf (hpassed.handlers s hs hlow hhigh).1 himage hm'

/-! ## Marks -/

omit hC in
/-- A mark stands alone in its segment. -/
lemma segmentAt_mark (h : p.Arranged nm) (hcode : p.code[i]? = some instr) (hmark : instr.isMark = true) :
    instr.opcode = .label ∧ p.segmentAt i = [instr] := by
  have hop : instr.opcode = .label := by simpa [Instruction.isMark] using hmark
  have hseg := h.sound.segment_cases hcode
  have hnone : p.pointAt? i = none := by
    cases hpt : p.pointAt? i with
    | none => rfl
    | some x =>
        obtain ⟨hn, hpos⟩ := pointAt?_eq_some (show p.pointAt? i = some (x.1, x.2) from hpt)
        exact absurd ⟨instr, hpos ▸ hcode, hmark⟩ (h.sound.not_markAt_point hn)
  rcases h.sound.segment_marks hcode hnone with ⟨-, hseg⟩ | ⟨hne, -⟩
  · exact ⟨hop, hseg⟩
  · exact absurd hop hne

/-- **Behind a mark** rests what rests at it. -/
lemma rests_mark (hf : p.Rests U T' i f) (hmark : p.code.MarkAt i) : p.Rests U T' (i + 1) f := by
  have h := hC.arranged
  obtain ⟨g, k, hr⟩ := hf
  obtain ⟨instr, after, hpassed⟩ := hC.settles.passed i g hr.frame_at
  obtain ⟨_, hcode, hmark⟩ := hmark
  rw [hpassed.code_at] at hcode
  cases hcode
  obtain ⟨hop, hseg⟩ := segmentAt_mark h hpassed.code_at hmark
  have hi : i < p.code.size := (Array.getElem?_eq_some_iff.mp hpassed.code_at).1
  have hat : nm.code[p.place i]? = some instr := by
    have := h.lays.segment i hi 0 (by rw [hseg]; exact Nat.zero_lt_one)
    rwa [hseg] at this
  obtain ⟨instr', k', hpassed'⟩ := hC.settled.passed _ k hr.placed
  rw [hpassed'.code_at] at hat
  cases hat
  obtain rfl := hpassed.transition.of_mark hop
  obtain rfl := hpassed'.transition.of_mark hop
  have hends : instr.opcode.endsBlock = false := by rw [hop]; rfl
  have hm' := (hpassed'.next hends).2
  have hplace : p.place (i + 1) = p.place i + 1 := by rw [place_succ, hseg]; rfl
  rw [← hplace] at hm'
  exact hC.rests_of_meets hr.below (hpassed.next hends).2 hr.image hm'

/-! ## Entry -/

omit hC in
/-- A point is resumed with what is known at the entry, or less. -/
lemma resume_entry (hS : p.Settles U spans entry) (h : p.Arranged nm) :
    Frame.Below (.faint U p.heldAt) ⟨p.resumeLocals, []⟩ ⟨(p.frameImage entry).locals, []⟩ := by
  refine ⟨.nil, ?_⟩
  have hfirst := h.firstLocal_le
  rw [hS.image_entry]
  obtain ⟨d, -, hlen, rfl⟩ := Analysis.entryFrame_eq_ok hS.entry_eq
  have hgiven : Analysis.givenSlots p.subject.owner p.subject.method d
      = p.receiverLocals.toList ++ d.params.map SlotType.ofDesc := by
    unfold Analysis.givenSlots receiverLocals
    cases p.subject.method.isStatic <;> rfl
  simp only [resumeLocals, Array.toList_append, Array.toList_replicate, hgiven, List.append_assoc]
  refine List.rel_append (List.forall₂_same.mpr fun t _ => .below (.same t)) ?_
  rw [← List.append_assoc]
  refine List.rel_append ?_ (List.forall₂_same.mpr fun t _ => .below (.same t))
  rw [hgiven, List.length_append, Array.length_toList, size_receiverLocals, List.length_map] at hlen
  refine List.forall₂_iff_get.mpr ⟨?_, fun k hk hk' => ?_⟩
  · simp only [List.length_replicate, List.length_append, List.length_map, Array.length_toList,
      size_receiverLocals]
    unfold stackVar
    omega
  · simp only [List.get_eq_getElem, List.getElem_replicate]
    exact .lower trivial

/-- **From the entry control comes to where the points are resumed**, and to the beginning of the method's
code. -/
lemma exists_switch : ∃ k, Frame.Below (.weak U p.heldAt) ⟨(p.frameImage entry).locals, []⟩ k
    ∧ (∀ (n : Nat) (pt : SuspensionPoint), p.points[n]? = some pt →
        T'.Meets U k (p.place pt.position + p.resumeOffset pt)) ∧ T'.Meets U k 5 := by
  have h := hC.arranged
  have hS := hC.settles
  have hentry : entry.locals.size = p.stackVar.toNat := Analysis.size_entryFrame hS.entry_eq
  obtain ⟨k₀, hk₀, hle₀⟩ := hC.settled.weak_of_meets (.refl _ _) hC.entered
  have hstore : ∀ q, Runs p.imageSites (fun _ => True) q ⟨entry.locals ++ Array.replicate
      (1 + p.temporaries 0 p.code.toList) .unusable, [.ref ClassName.frameStack, .ref ClassName.frameStack]⟩
      [.slot (.store .ref) p.stackVar] ⟨(p.frameImage entry).locals, [.ref ClassName.frameStack]⟩ := by
    intro q
    rw [← hS.set_entry]
    exact runs_store trivial (by simp [hentry]) rfl trivial
  have hrun : Runs p.imageSites (fun _ => True) 0 ⟨entry.locals ++ Array.replicate
      (1 + p.temporaries 0 p.code.toList) .unusable, []⟩
      [Emit.getStack, .plain .dup, .slot (.store .ref) p.stackVar, Emit.nextEntry]
      ⟨(p.frameImage entry).locals, [.int]⟩ :=
    runs_getStack.append_at fun _ => (runs_dup (v := .ref ClassName.frameStack) trivial).append_at fun q =>
      (hstore q).append_at fun _ => runs_nextEntry
  have hall : nm.code.Has 0 ([Emit.getStack, .plain .dup, .slot (.store .ref) p.stackVar, Emit.nextEntry]
      ++ [⟨.tableSwitch, .table 1 ((List.range p.points.length).map p.callLabel) p.startLabel⟩,
        .mark p.startLabel]) :=
    h.lays.prologue
  obtain ⟨hcode, -⟩ := Code.has_append.mp hall
  have hbuilds : U.BuildsAll ⟨entry.locals ++ Array.replicate (1 + p.temporaries 0 p.code.toList) .unusable,
    []⟩ := by
    refine ⟨by simp [ClassOrder.Builds], fun t ht => ?_⟩
    rw [Array.toList_append, List.mem_append] at ht
    rcases ht with ht | ht
    · rintro n cls copied rfl
      obtain ⟨s, hs, -⟩ := (Analysis.known_entryFrame hS.entry_eq []).2 _ ht
      cases hs
    · rw [Array.toList_replicate] at ht
      rw [List.eq_of_mem_replicate ht]
      exact buildsSlot_of_settle rfl
  obtain ⟨k₄, hk₄, hle₄⟩ := hC.settled.follows_runs (fun q _ => p.not_pinned_imageSites q) hrun hcode hk₀
    hle₀ hbuilds
    (by simp [Emit.getStack, Emit.nextEntry, Instruction.plain, Instruction.slot, Instruction.member])
  -- the switch
  have hshape : Frame.Shape ⟨.tableSwitch, .table 1 ((List.range p.points.length).map p.callLabel) p.startLabel⟩
      (p.frameImage entry).locals [.int] [] := .fixed (e := ⟨[.int], []⟩) rfl rfl rfl
  obtain ⟨k, hpassed, hle⟩ := hC.settled.follows (fun q _ => p.not_pinned_imageSites q)
    (h.lays.prologue 4 (by simp [prologue]))
    (.plain (f := ⟨(p.frameImage entry).locals, [.int]⟩) rfl hshape (by simp [Site.Free])) hk₄ hle₄
    (fun hop => by cases hop) (by simp [ClassOrder.Builds, ClassOrder.BuildsSlot])
  have hmeets : ∀ {n t : Nat}, n < p.freshCount → p.Marked t (p.fresh n) →
      p.fresh n ∈ (List.range p.points.length).map p.callLabel ++ [p.startLabel] → T'.Meets U k t := by
    intro n t hn hmarked hmem
    obtain ⟨t', ht', hm⟩ := hpassed.targets _ hmem
    rw [h.lays.labelAt?_fresh h.sound h.labels hn hmarked] at ht'
    cases ht'
    exact hm
  refine ⟨k, hle, fun n pt hpt => ?_, hmeets (n := 2 * p.points.length) (by unfold freshCount; omega) .start
    (List.mem_append_right _ (List.mem_singleton.mpr rfl))⟩
  refine hmeets (by unfold freshCount; have := (List.getElem?_eq_some_iff.mp hpt).1; omega) (.resume hpt) ?_
  exact List.mem_append_left _ (List.mem_map_of_mem (List.mem_range.mpr (List.getElem?_eq_some_iff.mp hpt).1))

/-- **The frame at the entry rests at the first instruction.** -/
lemma rests_entry : p.Rests U T' 0 entry := by
  have h := hC.arranged
  obtain ⟨k, hle, -, hm⟩ := hC.exists_switch
  obtain ⟨k₅, hk₅, hle₅⟩ := hC.settled.weak_of_meets hle hm
  obtain ⟨instr, after, hpassed⟩ := hC.settled.passed 5 k₅ hk₅
  have hcode := h.lays.prologue 5 (by simp [prologue])
  rw [Nat.zero_add] at hcode
  rw [hpassed.code_at] at hcode
  cases hcode
  obtain rfl := hpassed.transition.of_mark rfl
  have himage : p.frameImage entry = ⟨(p.frameImage entry).locals, []⟩ := by rw [hC.settles.image_entry]
  refine hC.rests_of_meets (k := entry) (.refl _ _) hC.settles.meets ?_ (hpassed.next rfl).2
  rwa [Frame.trim_self, himage]

/-- **The frame of a point comes back.** -/
lemma exists_resumed {n : Nat} {pt : SuspensionPoint} (hpt : p.points[n]? = some pt) :
    ∃ k, T'.frames[p.place pt.position + p.afterOffset pt]? = some (some k)
      ∧ (p.frameImage pt.frame).Below (.weak U p.heldAt) k := by
  have h := hC.arranged
  obtain ⟨k, hle, hresume, -⟩ := hC.exists_switch
  obtain ⟨k₁, hk₁, hle₁⟩ := hC.settled.weak_of_meets ((resume_entry hC.settles h).weak_of_faint hle)
    (hresume n pt hpt)
  obtain ⟨hlt, hseg⟩ := h.sound.segmentAt_point hpt
  have hall := h.lays.segment pt.position hlt
  have himage : p.segmentAt pt.position = (.mark (p.beforeLabel n) :: Emit.save p.stackVar pt
      ++ if pt.isYield then [Emit.signal, .plain .throw] else [])
      ++ ((.mark (p.callLabel n) :: Emit.restore p.stackVar p.subject.firstLocal pt)
        ++ (.mark (p.afterLabel n) :: if pt.isYield then [] else [pt.call])) := by
    rw [hseg]
    simp [pointImage]
  have hlength : (.mark (p.beforeLabel n) :: Emit.save p.stackVar pt
      ++ if pt.isYield then [Emit.signal, .plain .throw] else []).length = p.resumeOffset pt := by
    unfold resumeOffset
    cases pt.isYield <;> simp <;> omega
  rw [himage] at hall
  obtain ⟨-, hall⟩ := Code.has_append.mp hall
  rw [hlength] at hall
  obtain ⟨hrestore, -⟩ := Code.has_append.mp hall
  have hrun : ∀ q, Runs p.imageSites (fun _ => True) q _ _ _ := fun q => h.runs_resuming hpt fun _ _ => trivial
  obtain ⟨k₂, hk₂, hle₂⟩ := hC.settled.follows_runs (fun q _ => p.not_pinned_imageSites q)
    (hrun _) hrestore hk₁ hle₁
    (buildsAll_resume U p) fun cls hcls => absurd hcls (h.new_notMem_restore hpt cls)
  refine ⟨k₂, ?_, hle₂⟩
  have hoffset : p.afterOffset pt = p.resumeOffset pt
      + (Instruction.mark (p.callLabel n) :: Emit.restore p.stackVar p.subject.firstLocal pt).length := by
    unfold afterOffset
    simp only [List.length_cons]
    omega
  rwa [hoffset, ← Nat.add_assoc]

/-! ## Handlers at marks -/

omit hC in
/-- **A cut in front of what a mark stands at** leaves a part that covers the mark, unless the mark stands
at the point of the cut. -/
lemma covers_mark_apply (h : p.Arranged nm) (hmark : p.code.MarkAt i) {t : ExceptionRange} (ht : p.Confined s t)
    (hcov : Cut.Covers nm.labelPosition t (p.place i)) {c : Cut} (hc : c ∈ p.cuts) :
    (∃ t' ∈ Cut.apply p.cutPosition c t, Cut.Covers nm.labelPosition t' (p.place i)) ∨
      ∃ (n : Nat) (pt : SuspensionPoint), p.points[n]? = some pt ∧ i < pt.position ∧ pt.position < s.stop
        ∧ ∀ k, i ≤ k → k < pt.position → p.code.MarkAt k := by
  obtain ⟨n, pt, hn, rfl⟩ := mem_cuts.mp hc
  obtain ⟨⟨i₀, b, hstart, -⟩, k₀, d, hstop, hd⟩ := ht
  obtain ⟨hi₀, hb⟩ := hstart.positions h.lays h.sound h.labels
  obtain ⟨hk₀, hd'⟩ := hstop.positions h.lays h.sound h.labels
  have hpoint := h.sound.not_markAt_point hn
  have hlt := afterOffset_lt h.sound hn
  have hstep : p.place i < p.place (i + 1) := by
    obtain ⟨instr, hcode, hmark⟩ := hmark
    rw [place_succ, (segmentAt_mark h hcode hmark).2]
    exact Nat.lt_succ_self _
  by_cases hcut : Cut.Covers p.cutPosition t pt.position
  · rcases Nat.lt_trichotomy pt.position i with hpos | rfl | hpos
    · refine Or.inl ⟨_, Cut.mem_apply.mpr (Or.inr (Or.inl ⟨hcut, rfl⟩)), ?_, hcov.2⟩
      have hmono := p.place_mono (show pt.position + 1 ≤ i from hpos)
      rw [((Boundary.after hn).positions h.lays h.sound h.labels).2]
      omega
    · exact absurd hmark hpoint
    · have hmono := p.place_mono (show i + 1 ≤ pt.position from hpos)
      by_cases hne : p.cutPosition t.start = pt.position
      · -- the part begins at the point, and so does whatever it begins with
        refine Or.inr ⟨n, pt, hn, hpos, ?_, fun k hik hk => ?_⟩
        · have hiff := hstop.le_iff h.sound hpoint (q := p.place (pt.position + 1) - 1) (by omega) (by omega)
            fun n' pt' hn' hpos' _ => by
              obtain ⟨-, rfl⟩ := h.sound.point_unique hn hn' hpos'.symm
              omega
          have hhigh := hcut.2
          rw [hk₀] at hhigh
          by_contra hle
          have := p.place_mono (show s.stop ≤ pt.position by omega)
          omega
        · have hlow := hcov.1
          rw [hb] at hlow
          rw [hi₀] at hne
          generalize t.start = id at hstart
          cases hstart with
          | @user _ i₁ _ =>
              have hi₁ : i₁ ≤ i := by
                by_contra hle
                have := p.place_mono (show i + 1 ≤ i₁ by omega)
                omega
              exact Code.markAt_of_lt_skipMarks (i := i₁) (by omega) (by omega)
          | before | after =>
              rw [hne] at hlow
              omega
      · refine Or.inl ⟨_, Cut.mem_apply.mpr (Or.inr (Or.inr ⟨hcut, hne, rfl⟩)), hcov.1, ?_⟩
        rw [((Boundary.before hn).positions h.lays h.sound h.labels).2]
        omega
  · exact Or.inl ⟨t, Cut.mem_apply.mpr (Or.inl ⟨hcut, rfl⟩), hcov⟩

/-- **Where a handler of the method covers a mark**, one of its parts does in the transformed body, or the
mark stands at a point that the handler covers. -/
lemma exists_part_mark (hs : s ∈ spans) (hlow : s.start ≤ i) (hhigh : i < s.stop) (hmark : p.code.MarkAt i) :
    (∃ s' ∈ spans', s'.start ≤ p.place i ∧ p.place i < s'.stop ∧ s'.handler = p.place s.handler
      ∧ s'.cls = s.cls) ∨
      ∃ (n : Nat) (pt : SuspensionPoint), p.points[n]? = some pt ∧ i < pt.position ∧ pt.position < s.stop
        ∧ ∀ k, i ≤ k → k < pt.position → p.code.MarkAt k := by
  have h := hC.arranged
  obtain ⟨r, hr, hat⟩ := (Analysis.spans_eq_ok hC.settles.spans_eq).2 s hs
  obtain ⟨h₁, h₂, -, -⟩ := Analysis.span_eq_ok hat
  have hstep : p.place i < p.place (i + 1) := by
    obtain ⟨instr, hcode, hmark⟩ := hmark
    rw [place_succ, (segmentAt_mark h hcode hmark).2]
    exact Nat.lt_succ_self _
  have hcov : Cut.Covers nm.labelPosition r (p.place i) := by
    have hle := p.place_mono hlow
    have hle' := p.place_mono (show i + 1 ≤ s.stop from hhigh)
    unfold Cut.Covers
    rw [((Boundary.user h₁).positions h.lays h.sound h.labels).2,
      ((Boundary.user h₂).positions h.lays h.sound h.labels).2]
    omega
  suffices hall : ∀ (cuts : List Cut), (∀ c ∈ cuts, c ∈ p.cuts) → ∀ t, p.Confined s t →
      Cut.Covers nm.labelPosition t (p.place i) →
        (∃ t' ∈ Cut.applyAll p.cutPosition cuts [t], Cut.Covers nm.labelPosition t' (p.place i)) ∨
          ∃ (n : Nat) (pt : SuspensionPoint), p.points[n]? = some pt ∧ i < pt.position ∧ pt.position < s.stop
            ∧ ∀ k, i ≤ k → k < pt.position → p.code.MarkAt k by
    refine (hall p.cuts (fun _ hc => hc) r ⟨⟨_, _, .user h₁, Nat.le_refl _⟩, _, _, .user h₂,
      Nat.le_refl _⟩ hcov).imp_left ?_
    rintro ⟨t, ht, htcov⟩
    exact exists_part h hC.ranges hr hat ht htcov
  intro cuts hcuts
  induction cuts with
  | nil => exact fun t _ hcov => Or.inl ⟨t, by simp, hcov⟩
  | cons c cuts ih =>
      intro t ht hcov
      rcases covers_mark_apply h hmark ht hcov (hcuts c List.mem_cons_self) with ⟨t', ht', hcov'⟩ | hpoint
      · refine (ih (fun c hc => hcuts c (List.mem_cons_of_mem _ hc)) t'
          (ht.apply h.lays h.sound h.labels (hcuts c List.mem_cons_self) ht') hcov').imp_left ?_
        rintro ⟨t'', ht'', hcov''⟩
        exact ⟨t'', Cut.mem_applyAll_cons.mpr ⟨t', ht', ht''⟩, hcov''⟩
      · exact Or.inr hpoint

/-- What rests at a point rests at the handlers that cover it, to which control comes with what is restored. -/
lemma rests_covered_point {n : Nat} {pt : SuspensionPoint} (hn : p.points[n]? = some pt)
    (hf : p.Rests U T' pt.position f) (hs : s ∈ spans) (hlow : s.start ≤ pt.position)
    (hhigh : pt.position < s.stop) :
    p.Rests U T' s.handler ⟨f.locals, [.ref s.cls]⟩ := by
  have h := hC.arranged
  obtain ⟨g, _, hr⟩ := hf
  have hframe : p.subject.types.frames[pt.position]? = some (some pt.frame) :=
    (h.found pt (List.mem_of_getElem? hn)).frame_at
  obtain rfl : g = pt.frame := Option.some.inj (Option.some.inj (hr.frame_at.symm.trans hframe))
  obtain ⟨k, hk, hle⟩ := hC.exists_resumed hn
  have hwithin : p.Within pt.position (p.place pt.position + p.afterOffset pt) :=
    ⟨(h.sound.segmentAt_point hn).1, h.sound.not_markAt_point hn, Nat.le_add_right _ _,
      afterOffset_lt h.sound hn,
      fun n' pt' hn' hpos => by
        obtain ⟨-, rfl⟩ := h.sound.point_unique hn hn' hpos.symm
        exact Nat.le_refl _⟩
  have himage := (hC.image_trim hr.below).weak_of_faint hle
  exact hC.rests_within hr.frame_at hr.below hwithin hk
    ⟨List.forall₂_same.mpr fun t _ => .same t, himage.locals⟩ hs hlow hhigh

/-- **What rests at a mark rests at the handlers** that cover it. -/
lemma rests_covered_mark (hf : p.Rests U T' i f) (hmark : p.code.MarkAt i) (hs : s ∈ spans) (hlow : s.start ≤ i)
    (hhigh : i < s.stop) : p.Rests U T' s.handler ⟨f.locals, [.ref s.cls]⟩ := by
  have h := hC.arranged
  rcases hC.exists_part_mark hs hlow hhigh hmark with ⟨s', hs', hlow', hhigh', hhandler, hcls⟩ | ⟨n, pt, hn,
    hlt, hstop, hmarks⟩
  · obtain ⟨g, k, hr⟩ := hf
    obtain ⟨_, _, hpassed⟩ := hC.settles.passed i g hr.frame_at
    obtain ⟨_, _, hpassed'⟩ := hC.settled.passed _ k hr.placed
    have hm' := (hpassed'.handlers s' hs' hlow' hhigh').1
    rw [hhandler, hcls] at hm'
    exact hC.rests_of_handler hr.below (hpassed.handlers s hs hlow hhigh).1
      ⟨List.forall₂_same.mpr fun t _ => .same t, hr.image.locals⟩ hm'
  · -- the locals come to the point that the mark stands at
    have hall : ∀ d, i + d ≤ pt.position → p.Rests U T' (i + d) f := by
      intro d
      induction d with
      | zero => exact fun _ => hf
      | succ d ih => exact fun hd => hC.rests_mark (ih (by omega)) (hmarks (i + d) (Nat.le_add_right i d)
        (by omega))
    have hat := hall (pt.position - i) (by omega)
    rw [Nat.add_sub_cancel' (by omega)] at hat
    exact hC.rests_covered_point hn hat hs (by omega) hstop

end Compared

end Plan

end Suspension
