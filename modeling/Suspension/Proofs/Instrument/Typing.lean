import Suspension.Proofs.Instrument.Charting
import Suspension.Proofs.Instrument.Guarding

/-!
# The analysis of a transformed body from above

The frames of segments, with those of prologue and epilogue, **bound the analysis of a transformed body**:
what an instruction makes of its frame is below the frames of its successors and handlers.  So the analysis
succeeds, and the frame that it finds at the place of an instruction is below the image of the frame at the
instruction.

* `Plan.Settles` — the settled analysis of the method.
* `Plan.Given` — the frames of a transformed body.
* `Plan.Settles.lies_place` — the image of a frame lies at the place of its instruction.
* `Plan.Settles.bounds` — the frames bound the analysis.
-/

namespace Suspension

open Suspension.Frame (Runs runs_call runs_load runs_mark runs_shape runs_store)
open Analysis (Lies Advances Bounds)

/-! ## The frame stack -/

section FrameStack

variable {S : List Site} {may : Nat → Prop} {q : Nat} {L : Array SlotType} {ts : List SlotType} {v : SlotType}

lemma runs_getStack : Runs S may q ⟨L, ts⟩ [Emit.getStack] ⟨L, .ref ClassName.frameStack :: ts⟩ :=
  runs_call (d := ⟨[], Text.ofString "Lcoro/Stack;"⟩) [] [] ts (by simp) rfl rfl rfl (by simp)

lemma runs_nextEntry : Runs S may q ⟨L, .ref ClassName.frameStack :: ts⟩ [Emit.nextEntry] ⟨L, .int :: ts⟩ :=
  runs_call (d := ⟨[], Text.ofString "I"⟩) [] [.ref ClassName.frameStack] ts (by simp) rfl rfl rfl
    (by simp [Site.Free])

lemma runs_popMethod : Runs S may q ⟨L, .ref ClassName.frameStack :: ts⟩ [Emit.popMethod] ⟨L, ts⟩ :=
  runs_call (d := ⟨[], Text.ofString "V"⟩) [] [.ref ClassName.frameStack] ts (by simp) rfl rfl rfl
    (by simp [Site.Free])

lemma runs_dup (hv : Site.Free S v) : Runs S may q ⟨L, v :: ts⟩ [.plain .dup] ⟨L, v :: v :: ts⟩ :=
  runs_shape ts ⟨rfl, rfl, by simp [Instruction.Named, Instruction.plain], by simp [Instruction.plain], rfl,
    by simp [Instruction.plain]⟩ (.dup rfl) (by simpa using hv)

end FrameStack

/-- A method has a frame at its entry if its locals hold what the caller fills. -/
lemma Analysis.entryFrame_of_fits {owner : Text} {m : Method} {d : Descriptor.Method}
    (hd : Descriptor.parseMethod m.desc = .ok d) (hlen : (givenSlots owner m d).length ≤ m.maxLocals.toNat)
    (hrecv : m.isStatic = false → m.maxLocals.toNat ≠ 0) :
    entryFrame owner m = .ok ⟨(givenSlots owner m d ++ List.replicate
      (m.maxLocals.toNat - (givenSlots owner m d).length) SlotType.unusable).toArray, []⟩ := by
  unfold entryFrame
  rw [hd]
  have hsome : (!m.isStatic && m.maxLocals.toNat == 0) = false := by
    cases hstatic : m.isStatic with
    | true => rfl
    | false => simpa using hrecv hstatic
  simp only [hsome, Bool.false_eq_true, if_false]
  exact if_neg (Nat.not_lt.mpr hlen)

namespace Plan

variable {src : ClassSource} {V : ClassView}

/-- **The settled analysis of a method**, whose frames a plan goes by. -/
structure Settles (U : ClassOrder src V) (p : Plan) (spans : List HandlerSpan) (entry : Frame) : Prop where
  size : 0 < p.code.size
  spans_eq : Analysis.spans p.code p.subject.method.ranges 0 = .ok spans
  entry_eq : Analysis.entryFrame p.subject.owner p.subject.method = .ok entry
  meets : p.subject.types.Meets U entry 0
  passed : ∀ (i : Nat) (f : Frame), p.subject.types.frames[i]? = some (some f) →
    ∃ instr after, p.subject.types.Passed U p.code spans i f instr after
  news : ∀ cls, (⟨.new, .type cls⟩ : Instruction) ∈ p.code.toList → U.builds cls

/-! ## Frames -/

/-- The frames of the prologue. -/
def prologueFrames (p : Plan) (entry : Frame) : List Frame :=
  let stack := SlotType.ref ClassName.frameStack
  let before := entry.locals ++ Array.replicate (1 + p.temporaries 0 p.code.toList) .unusable
  let behind := (p.frameImage entry).locals
  [⟨before, []⟩, ⟨before, [stack]⟩, ⟨before, [stack, stack]⟩, ⟨behind, [stack]⟩, ⟨behind, [.int]⟩, ⟨behind, []⟩]

/-- The frames of the epilogue, from its first handler on. -/
def epilogueFrames (p : Plan) : List Frame :=
  [⟨p.onlyStack, [.ref ClassName.throwable]⟩, ⟨p.onlyStack, [.ref ClassName.throwable]⟩,
    ⟨p.onlyStack, [.ref ClassName.frameStack, .ref ClassName.throwable]⟩, ⟨p.onlyStack,
      [.ref ClassName.object]⟩,
    ⟨p.onlyStack, [.ref ClassName.object]⟩]

/-- **The frames of a transformed body**, with some for each segment. -/
inductive Given (U : ClassOrder src V) (p : Plan) (spans : List HandlerSpan) (entry : Frame)
    (charts : Nat → List Frame) : Nat → Frame → Prop where
  | prologue {q : Nat} {g : Frame} (h : (p.prologueFrames entry)[q]? = some g) :
    Given U p spans entry charts q g
  | segment {i k : Nat} {f after g : Frame} {instr : Instruction}
      (hf : p.subject.types.frames[i]? = some (some f))
      (hpassed : p.subject.types.Passed U p.code spans i f instr after)
      (hcharts : p.Charts U i instr f after (charts i)) (hk : (charts i)[k]? = some g) :
      Given U p spans entry charts (p.place i + k) g
  | epilogue {k : Nat} {g : Frame} (h : p.epilogueFrames[k]? = some g) :
      Given U p spans entry charts (p.place p.code.size + 1 + k) g

/-- **Every instruction that is reached has frames for its segment.** -/
def Drawn (U : ClassOrder src V) (p : Plan) (spans : List HandlerSpan) (charts : Nat → List Frame) : Prop :=
  ∀ (i : Nat) (f : Frame), p.subject.types.frames[i]? = some (some f) → 0 < (p.segmentAt i).length →
    ∃ instr after, p.subject.types.Passed U p.code spans i f instr after ∧ p.Charts U i instr f after (charts i)

variable {U : ClassOrder src V} {p : Plan} {nm : Method} {spans : List HandlerSpan} {entry f after g g' : Frame}
  {charts : Nat → List Frame} {i k q : Nat} {instr : Instruction}

lemma Charts.length_eq (h : p.Charts U i instr f after (charts i)) :
    (charts i).length = (p.segmentAt i).length :=
  h.charted.length_eq

/-- A frame of a segment is within it. -/
lemma Charts.lt (h : p.Charts U i instr f after (charts i)) (hk : (charts i)[k]? = some g) :
    k < (p.segmentAt i).length := h.length_eq ▸ (List.getElem?_eq_some_iff.mp hk).1

lemma place_le_size (hk : k < (p.segmentAt i).length) : p.place i + k < p.place p.code.size := by
  have hi : i < p.code.size := by
    by_contra hle
    have hnone : p.segmentAt i = [] := by
      unfold segmentAt
      rw [Array.getElem?_eq_none (by omega)]
    rw [hnone] at hk
    cases hk
  have := p.place_add_le hi
  omega

/-- **A place has one frame.** -/
lemma Given.unique (h : p.Given U spans entry charts q g) (h' : p.Given U spans entry charts q g') :
    g = g' := by
  have hpro : ∀ {q : Nat} {g : Frame}, (p.prologueFrames entry)[q]? = some g → q < 6 := by
    intro q g h
    have := (List.getElem?_eq_some_iff.mp h).1
    simpa [prologueFrames] using this
  have hlow : ∀ i, 6 ≤ p.place i := fun i => p.place_mono (Nat.zero_le i)
  have hend := hlow p.code.size
  cases h with
  | prologue h =>
      generalize hq : q = q' at h'
      cases h' with
      | prologue h' => exact Option.some.inj (h.symm.trans (hq ▸ h'))
      | @segment i =>
          have := hpro h
          have := hlow i
          omega
      | epilogue =>
          have := hpro h
          omega
  | @segment i k _ _ _ _ hf hpassed hcharts hk =>
      have hlt := place_le_size (hcharts.lt hk)
      generalize hq : p.place i + k = q' at h'
      cases h' with
      | prologue h' =>
          have := hpro h'
          have := hlow i
          omega
      | @segment i' k' _ _ _ _ _ _ hcharts' hk' =>
          obtain ⟨rfl, rfl⟩ := place_inj (hcharts.lt hk) (hcharts'.lt hk') hq
          exact Option.some.inj (hk.symm.trans hk')
      | epilogue => omega
  | @epilogue k _ h =>
      generalize hq : p.place p.code.size + 1 + k = q' at h'
      cases h' with
      | prologue h' =>
          have := hpro h'
          omega
      | @segment i' k' _ _ _ _ _ _ hcharts' hk' =>
          have := place_le_size (hcharts'.lt hk')
          omega
      | @epilogue k' _ h' =>
          obtain rfl : k = k' := by omega
          exact Option.some.inj (h.symm.trans h')

/-- A segment is empty only where an instruction is dropped. -/
lemma Sound.isDropped_of_empty (hp : p.Sound) (hcode : p.code[i]? = some instr) (h : p.segmentAt i = []) :
    p.isDropped i = true := by
  have hseg := hp.segment_cases hcode
  rw [h] at hseg
  generalize hl : ([] : List Instruction) = l at hseg
  cases hseg with
  | dropped _ hd => exact hd
  | point => simp [pointImage] at hl
  | returns | plain => cases hl
  | redone => simp [Deferral.emit] at hl

/-- The segment of an instruction that is not dropped is not empty. -/
lemma Sound.segmentAt_pos (hp : p.Sound) (hcode : p.code[i]? = some instr) (hd : p.isDropped i = false) :
    0 < (p.segmentAt i).length := by
  by_contra hlen
  have hempty := hp.isDropped_of_empty hcode (List.length_eq_zero_iff.mp (by omega))
  rw [hd] at hempty
  cases hempty

/-- What a handler finds is the image of what it finds in the method. -/
lemma frameImage_handler (p : Plan) (f : Frame) (cls : Text) :
    p.frameImage ⟨f.locals, [.ref cls]⟩ = ⟨(p.frameImage f).locals, [.ref cls]⟩ := by
  simp [frameImage, Frame.image, Frame.thin, Frame.moved, Frame.present, SlotType.absent?, SlotType.moved]

/-- A handler is reached below where its locals are said to be. -/
lemma lies_handler {G : Nat → Frame → Prop} {B : Array SlotType} {cls cls' : Text} (hG : G q ⟨B, [.ref cls']⟩)
    (hcls : U.le cls cls') (hg : g.LocalsBelow U p.heldAt B) : Lies U p.heldAt G q ⟨g.locals, [.ref cls]⟩ :=
  ⟨_, hG, ⟨.cons (.ref rfl rfl hcls trivial trivial) .nil, hg⟩⟩

namespace Settles

variable (hS : p.Settles U spans entry) (h : p.Arranged nm) (hdrawn : p.Drawn U spans charts)
include hS h

omit hS in
/-- Frames that compare have images that compare. -/
lemma image_below (hfg : f.Below (.rising U p.unpinned) g) :
    (p.frameImage f).Below (.rising U p.heldAt) (p.frameImage g) :=
  Frame.Below.image (P := .rising U p.unpinned) (O := .rising U p.heldAt) hfg h.founded.unpinned_of_isOmitted
    h.founded.unpinned_of_tracked id id id p.extraLocals

/-- Constructions of a frame are of classes that may be constructed. -/
lemma buildsAll (hf : p.subject.types.frames[i]? = some (some f)) : U.BuildsAll f := by
  have hslot : ∀ t : SlotType, Site.Known p.subject.types.sites t → U.BuildsSlot t := by
    rintro t ht n cls copied rfl
    obtain ⟨s, hs, -, rfl⟩ := ht
    exact hS.news s.cls (Arranged.mem_code (h.sound.sites.new_at s hs))
  obtain ⟨hstack, hlocals⟩ := h.certified.known i f hf
  exact ⟨fun t ht => hslot t (hstack t ht), fun t ht => hslot t (hlocals t ht)⟩

include hdrawn

/-- **The image of a frame lies at the place of its instruction.**  One that is dropped leaves the image as
it is. -/
lemma lies_place (hf : p.subject.types.frames[i]? = some (some f)) :
    Lies U p.heldAt (p.Given U spans entry charts) (p.place i) (p.frameImage f) := by
  obtain ⟨n, hn⟩ : ∃ n, p.code.size - i = n := ⟨_, rfl⟩
  induction n generalizing i f with
  | zero =>
      obtain ⟨instr, after, hpassed⟩ := hS.passed i f hf
      have := (Array.getElem?_eq_some_iff.mp hpassed.code_at).1
      omega
  | succ n ih =>
      rcases Nat.eq_zero_or_pos (p.segmentAt i).length with hlen | hlen
      · obtain ⟨instr, after, hpassed⟩ := hS.passed i f hf
        obtain ⟨hop, m, cls, copied, homitted, rfl⟩ := h.founded.puts_dropped hf hpassed.code_at
          (h.sound.isDropped_of_empty hpassed.code_at (List.length_eq_zero_iff.mp hlen)) hpassed.transition
          (.refl (.rising U p.unpinned) f) rfl
        have hends : instr.opcode.endsBlock = false := by rcases hop with hop | hop <;> rw [hop] <;> rfl
        obtain ⟨hlt, g, hg, hclimbs⟩ := hpassed.next hends
        have hbelow := image_below h (hclimbs.held fun _ hn => hn)
        rw [frameImage_dropped homitted] at hbelow
        have hnext := (ih hg (by omega)).of_below hbelow
        rwa [place_succ, hlen] at hnext
      · obtain ⟨instr, after, hpassed, hcharts⟩ := hdrawn i f hf hlen
        exact ⟨_, .segment hf hpassed hcharts hcharts.first, .refl _ _⟩

/-- So does that of a frame that reaches it. -/
lemma lies_of_meets (hm : p.subject.types.Meets U f i) :
    Lies U p.heldAt (p.Given U spans entry charts) (p.place i) (p.frameImage f) := by
  obtain ⟨g, hg, hclimbs⟩ := hm
  exact (hS.lies_place h hdrawn hg).of_below (image_below h (hclimbs.held fun _ hn => hn))

/-! ## Handlers -/

omit hS hdrawn in
/-- **Whatever is sheltered**, the frame stack is there. -/
lemma shelter_onlyStack {B : Array SlotType} (hf : p.subject.types.frames[i]? = some (some f))
    (hpassed : p.subject.types.Passed U p.code spans i f instr after) (hB : p.Shelter i f after k B) :
    Frame.LocalsBelow U p.heldAt ⟨B, []⟩ p.onlyStack := by
  cases hB with
  | saved => exact List.forall₂_same.mpr fun t _ => .below (.same t)
  | before => exact h.image_onlyStack (h.width hf) (h.free hf)
  | behind =>
      have hreads := (h.fits instr (Arranged.mem_code hpassed.code_at)).2.readsValue
      exact h.image_onlyStack (hpassed.transition.size_locals.trans (h.width hf))
        (hpassed.transition.orderly hf hreads (h.orderly hf)).locals

omit hS h hdrawn in
/-- The suspend signal is handled at the end of a transformed body. -/
lemma lies_signal (hg : g.LocalsBelow U p.heldAt p.onlyStack) (cls : Text) :
    Lies U p.heldAt (p.Given U spans entry charts) (p.place p.code.size + 4) ⟨g.locals, [.ref cls]⟩ :=
  lies_handler (.epilogue (k := 3) rfl) (U.object cls) hg

omit hS h hdrawn in
/-- So is what the method does not catch. -/
lemma lies_catchAll (hg : g.LocalsBelow U p.heldAt p.onlyStack) :
    Lies U p.heldAt (p.Given U spans entry charts) (p.place p.code.size + 1) ⟨g.locals,
      [.ref ClassName.throwable]⟩ :=
  lies_handler (.epilogue (k := 0) rfl) (U.refl _) hg

/-- **Handlers of a segment**: those of its instruction, but where a frame is saved and restored. -/
lemma handlers_segment {s : HandlerSpan} (hguards : p.Guards nm spans s)
    (hf : p.subject.types.frames[i]? = some (some f))
    (hpassed : p.subject.types.Passed U p.code spans i f instr after) (hk : k < (p.segmentAt i).length)
    (hstart : s.start ≤ p.place i + k) (hstop : p.place i + k < s.stop) (hg : p.Inner U i f after k g) :
    Lies U p.heldAt (p.Given U spans entry charts) s.handler ⟨g.locals, [.ref s.cls]⟩ := by
  obtain ⟨-, B, hB, hlocals⟩ := hg
  cases hguards with
  | signal => exact lies_signal (hlocals.trans (shelter_onlyStack h hf hpassed hB)) _
  | catchAll => exact lies_catchAll (hlocals.trans (shelter_onlyStack h hf hpassed hB))
  | @part r s span hr hs hspan hat =>
      obtain ⟨hlow, hhigh⟩ := (h.sound.confined h.lays h.labels hat hs).of_covers h.lays h.sound h.labels hk
        ⟨hstart, hstop⟩
      obtain ⟨hbefore, hbehind⟩ := hpassed.handlers span hspan hlow hhigh
      cases hB with
      | @saved n pt hpt hpos hsaved =>
          refine absurd ⟨hstart, hstop⟩ (h.sound.not_covers_saved h.lays h.labels hpt ?_ ?_ hr hs)
          · rw [((Boundary.before hpt).positions h.lays h.sound h.labels).2, hpos]
            exact Nat.le_add_right _ _
          · rw [((Boundary.after hpt).positions h.lays h.sound h.labels).2, hpos]
            exact Nat.add_lt_add_left hsaved _
      | before =>
          refine (hS.lies_of_meets h hdrawn hbefore).of_below ?_
          rw [frameImage_handler]
          exact hlocals.handler span.cls
      | behind =>
          refine (hS.lies_of_meets h hdrawn hbehind).of_below ?_
          rw [frameImage_handler]
          exact hlocals.handler span.cls

/-! ## Instructions -/

variable {spans' : List HandlerSpan} (hguards : ∀ s ∈ spans', p.Guards nm spans s)
include hguards

/-- **What an instruction of a segment makes of its frame.** -/
lemma advances_segment (hf : p.subject.types.frames[i]? = some (some f))
    (hpassed : p.subject.types.Passed U p.code spans i f instr after)
    (hcharts : p.Charts U i instr f after (charts i)) (hk : (charts i)[k]? = some g) :
    ∃ x g', Advances U p.heldAt p.imageSites nm.code spans' (p.Given U spans entry charts)
      (p.place i + k) g x g' := by
  have hlt := hcharts.lt hk
  have hi : i < p.code.size := (Array.getElem?_eq_some_iff.mp hpassed.code_at).1
  obtain ⟨x, g', hx, hat⟩ := hcharts.charted.getElem? hk
  rw [Nat.zero_add] at hat
  refine ⟨x, g', ?_, hat.step.named, hat.step.transition, fun id hid => ?_, fun hends => ?_,
    fun s hs hstart hstop =>
    ⟨hS.handlers_segment h hdrawn (hguards s hs) hf hpassed hlt hstart hstop hat.step.before,
      hS.handlers_segment h hdrawn (hguards s hs) hf hpassed hlt hstart hstop hat.step.behind⟩⟩
  · rw [h.lays.segment i hi k hlt]
    exact hx
  · obtain ⟨hmem, hle⟩ := hat.targets id hid
    obtain ⟨t, ht, hmeets⟩ := hpassed.targets id hmem
    exact ⟨p.place t, h.lays.labelAt?_user h.sound h.labels ht, (hS.lies_of_meets h hdrawn hmeets).of_below hle⟩
  · have hsize := place_le_size hlt
    refine ⟨by rw [h.lays.size]; omega, ?_⟩
    rcases hat.next hends with ⟨g'', hnext, hle⟩ | ⟨hnone, hgoes, hle⟩
    · exact ⟨g'', .segment hf hpassed hcharts hnext, hle⟩
    · obtain ⟨-, hmeets⟩ := hpassed.next hgoes
      have hlast := List.getElem?_eq_none_iff.mp hnone
      rw [hcharts.length_eq] at hlast
      have hplace : p.place i + k + 1 = p.place (i + 1) := by
        rw [place_succ]
        omega
      rw [hplace]
      exact (hS.lies_of_meets h hdrawn hmeets).of_below hle

omit hS h hdrawn hguards in
/-- Handlers cover neither the prologue nor the epilogue. -/
lemma guards_bounds (h : p.Arranged nm) {s : HandlerSpan} (hguards : p.Guards nm spans s) :
    5 ≤ s.start ∧ s.stop ≤ p.place p.code.size := by
  cases hguards with
  | signal | catchAll => exact ⟨Nat.le_refl _, Nat.le_refl _⟩
  | part hr hs =>
      obtain ⟨⟨_, b, hb⟩, ⟨_, d, hd⟩, -⟩ := h.sound.part_ends h.labels hr hs
      have hlow := (hb.bounds h.sound).1
      have hhigh := (hd.bounds h.sound).2
      rw [← (hb.positions h.lays h.sound h.labels).2] at hlow
      rw [← (hd.positions h.lays h.sound h.labels).2] at hhigh
      exact ⟨Nat.le_trans (by decide) hlow, hhigh⟩

/-! ## Entry -/

omit h hdrawn hguards in
/-- The frame at the entry has no constructions. -/
lemma image_entry : p.frameImage entry = ⟨entry.locals ++ p.extraLocals, []⟩ := by
  obtain ⟨d, -, -, rfl⟩ := Analysis.entryFrame_eq_ok hS.entry_eq
  have hmoved : ∀ t ∈ Analysis.givenSlots p.subject.owner p.subject.method d ++ List.replicate
      (p.subject.method.maxLocals.toNat - (Analysis.givenSlots p.subject.owner p.subject.method d).length)
      .unusable,
      t.moved p.standsAt = t := by
    intro t ht
    simp only [Analysis.givenSlots, List.mem_append, List.mem_map, List.mem_replicate] at ht
    rcases ht with (ht | ⟨desc, -, rfl⟩) | ⟨-, rfl⟩
    · split at ht
      · simp at ht
      · rw [List.mem_singleton.mp ht]
        rfl
    · exact SlotType.moved_ofDesc desc
    · rfl
  refine congrArg (Frame.mk · []) (congrArg (· ++ p.extraLocals) ?_)
  exact (Array.map_congr_left fun t ht => hmoved t (List.mem_toArray.mp ht)).trans (Array.map_id _)

omit hdrawn hguards in
/-- **The frame at the entry of a transformed body** has more locals. -/
lemma entryFrame_transformed : Analysis.entryFrame p.subject.owner nm
    = .ok ⟨entry.locals ++ Array.replicate (1 + p.temporaries 0 p.code.toList) .unusable, []⟩ := by
  obtain ⟨d, hd, hlen, rfl⟩ := Analysis.entryFrame_eq_ok hS.entry_eq
  have hstatic : nm.isStatic = p.subject.method.isStatic := by
    unfold Method.isStatic
    rw [h.flags_eq]
  have hlocals : nm.maxLocals.toNat = p.subject.method.maxLocals.toNat + 1 + p.temporaries 0 p.code.toList :=
    h.locals.toNat_maxLocals h.lays
  have hgiven : Analysis.givenSlots p.subject.owner nm d = Analysis.givenSlots p.subject.owner
    p.subject.method d := by
    unfold Analysis.givenSlots
    rw [hstatic]
  rw [Analysis.entryFrame_of_fits (h.desc_eq ▸ hd) (by rw [hgiven]; omega) fun _ => by omega]
  refine congrArg Except.ok (congrArg (Frame.mk · []) (Array.ext' ?_))
  rw [hgiven, Array.toList_append, Array.toList_replicate, List.append_assoc, List.replicate_append_replicate]
  exact congrArg (_ ++ ·) (congrArg (List.replicate · _) (by omega))

/-! ## Prologue and epilogue -/

omit hS hdrawn in
/-- **What is outside of the method's code** has no handlers. -/
lemma advances_outside {x : Instruction} (hcode : nm.code[q]? = some x)
    (hq : q < 5 ∨ p.place p.code.size ≤ q) (hx : x.Named ∧ Frame.Transition p.imageSites q x g g')
    (htargets : ∀ id ∈ x.targets, ∃ t, nm.code.labelAt? id = some t
      ∧ Lies U p.heldAt (p.Given U spans entry charts) t g')
    (hnext : x.opcode.endsBlock = false → q + 1 < nm.code.size
      ∧ Lies U p.heldAt (p.Given U spans entry charts) (q + 1) g') :
    Advances U p.heldAt p.imageSites nm.code spans' (p.Given U spans entry charts) q g x g' := by
  refine ⟨hcode, hx.1, hx.2, htargets, hnext, fun s hs hstart hstop => ?_⟩
  obtain ⟨hlow, hhigh⟩ := guards_bounds h (hguards s hs)
  omega

omit h hdrawn hguards in
/-- The frame stack is stored behind the locals of the method. -/
lemma set_entry : (entry.locals ++ Array.replicate (1 + p.temporaries 0 p.code.toList) SlotType.unusable).set!
    p.stackVar.toNat (.ref ClassName.frameStack) = (p.frameImage entry).locals := by
  have hsize : entry.locals.size = p.stackVar.toNat := Analysis.size_entryFrame hS.entry_eq
  rw [hS.image_entry, Array.set!_eq_setIfInBounds]
  refine Array.ext' ?_
  rw [Array.toList_setIfInBounds, Array.toList_append, Array.toList_replicate, Nat.add_comm 1,
    List.replicate_succ,
    List.set_append_right _ _ (by rw [Array.length_toList, hsize]), Array.length_toList, hsize, Nat.sub_self,
    List.set_cons_zero]
  simp [extraLocals]

omit h hdrawn hguards in
/-- What is known at the entry is what a point is resumed with, or more. -/
lemma entry_resume (h : p.Arranged nm) :
    Frame.Below (.rising U p.heldAt) ⟨(p.frameImage entry).locals, []⟩ ⟨p.resumeLocals, []⟩ := by
  obtain ⟨g, hg, hclimbs⟩ := hS.meets
  have hbelow := image_below h (hclimbs.held fun _ hn => hn)
  exact Frame.Below.trans (g := ⟨(p.frameImage g).locals, []⟩) ⟨.nil, hbelow.locals⟩ (h.image_resume hg) U.trans
    id id id id id id rfl rfl (·.2)

/-- **What an instruction of the prologue makes of its frame.** -/
lemma advances_prologue (hg : (p.prologueFrames entry)[q]? = some g) :
    ∃ x g', Advances U p.heldAt p.imageSites nm.code spans' (p.Given U spans entry charts) q g x g' := by
  have hsize : 6 + 6 ≤ nm.code.size := by
    have := p.place_mono (Nat.zero_le p.code.size)
    rw [h.lays.size]
    rw [place_zero] at this
    omega
  have hcode : ∀ (k : Nat) (x : Instruction), p.prologue[k]? = some x → nm.code[k]? = some x := by
    intro k x hx
    rw [← hx, ← h.lays.prologue k (List.getElem?_eq_some_iff.mp hx).1, Nat.zero_add]
  have hlies : ∀ (k : Nat) (g : Frame), (p.prologueFrames entry)[k]? = some g →
      Lies U p.heldAt (p.Given U spans entry charts) k g := fun k g hk => ⟨g, .prologue hk, .refl _ g⟩
  have hentry : entry.locals.size = p.stackVar.toNat := Analysis.size_entryFrame hS.entry_eq
  have hstep : ∀ {k : Nat} {x : Instruction} {g g' : Frame}, p.prologue[k]? = some x → k < 5 → x.targets = [] →
      Runs p.imageSites (fun _ => True) k g [x] g' → (p.prologueFrames entry)[k + 1]? = some g' →
        ∃ x g', Advances U p.heldAt p.imageSites nm.code spans' (p.Given U spans entry charts) k g x g' :=
    fun hx hk htargets hrun hnext => ⟨_, _, advances_outside h hguards (hcode _ _ hx) (Or.inl hk) hrun.single
      (by simp [htargets]) fun _ => ⟨by omega, hlies _ _ hnext⟩⟩
  match q, hg with
  | 0, rfl => exact hstep rfl (by decide) rfl runs_getStack rfl
  | 1, rfl => exact hstep rfl (by decide) rfl (runs_dup trivial) rfl
  | 2, rfl =>
      have hrun : Runs p.imageSites (fun _ => True) 2 ⟨entry.locals ++ Array.replicate
        (1 + p.temporaries 0 p.code.toList)
          SlotType.unusable, [.ref ClassName.frameStack, .ref ClassName.frameStack]⟩ [.slot
            (.store .ref) p.stackVar] _ :=
        runs_store trivial (by simp [hentry]) rfl trivial
      rw [hS.set_entry] at hrun
      exact hstep rfl (by decide) rfl hrun rfl
  | 3, rfl => exact hstep rfl (by decide) rfl runs_nextEntry rfl
  | 4, rfl =>
      -- the switch goes to the labels to resume points at, and to the beginning of the method's code
      have hcount : 2 * p.points.length + 3 < p.freshCount := by unfold freshCount; omega
      have hshape : Frame.Shape ⟨.tableSwitch, .table 1 ((List.range p.points.length).map p.callLabel)
        p.startLabel⟩
          (p.frameImage entry).locals [.int] [] := .fixed (e := ⟨[.int], []⟩) rfl rfl rfl
      refine ⟨_, _, advances_outside h hguards (hcode 4 _ rfl) (Or.inl (by decide))
        ⟨by simp [Instruction.Named],
        .plain (f := ⟨(p.frameImage entry).locals, [.int]⟩) rfl hshape (by simp [Site.Free])⟩ (fun id hid => ?_)
          fun hends => by cases hends⟩
      simp only [Instruction.targets, List.mem_append, List.mem_map, List.mem_range, List.mem_singleton] at hid
      rcases hid with ⟨n, hn, rfl⟩ | rfl
      · have hpt : p.points[n]? = some p.points[n] := List.getElem?_eq_getElem hn
        have hf := (h.found _ (List.mem_of_getElem? hpt)).frame_at
        have hlen : 0 < (p.segmentAt p.points[n].position).length := by
          rw [(h.sound.segmentAt_point hpt).2, length_pointImage]
          omega
        obtain ⟨instr, after, hpassed, hcharts⟩ := hdrawn _ _ hf hlen
        obtain ⟨g, hg, hle⟩ := hcharts.resumes hpt rfl
        exact ⟨_, h.lays.labelAt?_fresh h.sound h.labels (by unfold freshCount; omega) (.resume hpt),
          g, .segment hf hpassed hcharts hg, (hS.entry_resume h).trans hle U.trans id id id id id id rfl rfl
            (·.2)⟩
      · exact ⟨5, h.lays.labelAt?_fresh h.sound h.labels (by omega) .start, hlies 5 _ rfl⟩
  | 5, rfl =>
      have hlocals : (p.frameImage entry).LocalsBelow U p.heldAt p.onlyStack := by
        obtain ⟨g, hg, hclimbs⟩ := hS.meets
        exact Frame.LocalsBelow.trans (B := (p.frameImage g).locals)
          (image_below h (hclimbs.held fun _ hn => hn)).locals
          (h.image_onlyStack (h.width hg) (h.free hg))
      have hrun : Runs p.imageSites (fun _ => True) 5 ⟨(p.frameImage entry).locals, []⟩ [.mark p.startLabel]
        _ :=
        runs_mark p.startLabel
      have hhandlers : ∀ s ∈ spans', s.start ≤ 5 → 5 < s.stop →
          Lies U p.heldAt (p.Given U spans entry charts) s.handler ⟨(p.frameImage entry).locals,
            [.ref s.cls]⟩ := by
        intro s hs hstart hstop
        cases hguards s hs with
        | signal => exact lies_signal hlocals _
        | catchAll => exact lies_catchAll hlocals
        | part hr hpart =>
            -- the parts of ranges begin behind the prologue
            obtain ⟨⟨_, b, hb⟩, -⟩ := h.sound.part_ends h.labels hr hpart
            have hlow := (hb.bounds h.sound).1
            rw [← (hb.positions h.lays h.sound h.labels).2] at hlow
            exact absurd (Nat.le_trans hlow hstart) (by decide)
      have hnext := hS.lies_of_meets h hdrawn hS.meets
      rw [place_zero, hS.image_entry] at hnext
      have hlast : Lies U p.heldAt (p.Given U spans entry charts) 6 ⟨(p.frameImage entry).locals, []⟩ := by
        rwa [hS.image_entry]
      exact ⟨.mark p.startLabel, ⟨(p.frameImage entry).locals, []⟩, hcode 5 _ rfl, hrun.single.1, hrun.single.2,
        by simp [Instruction.mark, Instruction.targets], fun _ => ⟨by omega, hlast⟩,
        fun s hs hstart hstop => ⟨hhandlers s hs hstart hstop, hhandlers s hs hstart hstop⟩⟩

omit hS hdrawn in
/-- **What an instruction of the epilogue makes of its frame.** -/
lemma advances_epilogue (hg : p.epilogueFrames[k]? = some g) :
    ∃ x g', Advances U p.heldAt p.imageSites nm.code spans' (p.Given U spans entry charts)
      (p.place p.code.size + 1 + k) g x g' := by
  have hsize := h.lays.size
  have hcode : ∀ (k : Nat) (x : Instruction), p.epilogue[k + 1]? = some x →
      nm.code[p.place p.code.size + 1 + k]? = some x := by
    intro k x hx
    rw [← hx, ← h.lays.epilogue (k + 1) (List.getElem?_eq_some_iff.mp hx).1, Nat.add_assoc, Nat.add_comm 1]
  have hstep : ∀ {k : Nat} {x : Instruction} {g g' g'' : Frame}, p.epilogue[k + 1]? = some x → k < 4
    → x.targets = [] →
      Runs p.imageSites (fun _ => True) (p.place p.code.size + 1 + k) g [x] g'
        → p.epilogueFrames[k + 1]? = some g'' →
        g'.Below (.rising U p.heldAt) g'' → ∃ x g', Advances U p.heldAt p.imageSites nm.code spans'
          (p.Given U spans entry charts) (p.place p.code.size + 1 + k) g x g' :=
    fun hx hk htargets hrun hnext hle => ⟨_, _, advances_outside h hguards (hcode _ _ hx) (Or.inr (by omega))
      hrun.single (by simp [htargets]) fun _ => ⟨by omega, _, .epilogue hnext, hle⟩⟩
  match k, hg with
  | 0, rfl => exact hstep rfl (by decide) rfl (runs_mark _) rfl (.refl _ _)
  | 1, rfl =>
      exact hstep rfl (by decide) rfl (runs_load (k := .ref) (Arranged.holdsStack_onlyStack p) rfl) rfl
        (.refl _ _)
  | 2, rfl =>
      refine hstep rfl (by decide) rfl runs_popMethod rfl ⟨.cons ?_ .nil, (Frame.Below.refl _ _).locals⟩
      exact .ref rfl rfl (U.object _) trivial trivial
  | 3, rfl => exact hstep rfl (by decide) rfl (runs_mark _) rfl (.refl _ _)
  | 4, rfl =>
      exact ⟨_, _, advances_outside h hguards (hcode 4 _ rfl) (Or.inr (by omega)) ⟨by simp [Instruction.Named,
        Instruction.plain], .throws _ _ _ _⟩ (by simp [Instruction.plain, Instruction.targets])
          fun hends => by cases hends⟩

/-- **The frames of a transformed body bound its analysis.** -/
lemma bounds : Bounds U p.heldAt p.imageSites nm.code spans' (p.Given U spans entry charts) where
  sites := h.sound.held_imageSites
  unique _ _ _ := Given.unique
  builds q g hg := by
    cases hg with
    | prologue hg =>
        have hall : ∀ g ∈ p.prologueFrames entry, U.Builds g := by
          simp [prologueFrames, ClassOrder.Builds, ClassOrder.BuildsSlot]
        exact hall g (List.mem_of_getElem? hg)
    | segment hf hpassed hcharts hk =>
        obtain ⟨x, g', -, hat⟩ := hcharts.charted.getElem? hk
        exact hat.step.before.builds.1
    | epilogue hg =>
        have hall : ∀ g ∈ p.epilogueFrames, U.Builds g := by
          simp [epilogueFrames, ClassOrder.Builds, ClassOrder.BuildsSlot]
        exact hall g (List.mem_of_getElem? hg)
  advances q g hg := by
    cases hg with
    | prologue hg => exact hS.advances_prologue h hdrawn hguards hg
    | segment hf hpassed hcharts hk => exact hS.advances_segment h hdrawn hguards hf hpassed hcharts hk
    | epilogue hg => exact advances_epilogue h hguards hg

end Settles

end Plan

end Suspension
