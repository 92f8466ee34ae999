import Suspension.Proofs.Instrument.Reaching

/-!
# Control leaves the segments of a transformed body

From the place of an instruction control comes to the image of the instruction, and **what is behind the
image is no less than the image of what is behind the instruction**.  So every frame that the analysis of
the method finds has come to its place.

* `Plan.Leaves`, `Plan.Compared.exists_leaves` — the frame with which control leaves a segment.
* `Plan.Compared.rests_after`, `Plan.Compared.rests_dropped` — where it comes to.
* `Plan.Compared.rests` — all frames of the method.
-/

namespace Suspension

open Suspension.Frame (Runs)

namespace Plan

variable {src : ClassSource} {V : ClassView}
variable {U : ClassOrder src V} {p : Plan} {nm : Method} {spans spans' : List HandlerSpan}
  {entry f g k after : Frame}
  {T' : FrameTypes} {i j q : Nat} {instr : Instruction} {s : HandlerSpan}

namespace Compared

variable (hC : p.Compared U nm spans entry spans' T')
include hC

/-! ## Leaving a segment -/

omit hC in
/-- Where the locals may be used freely, all constructions of an image are those of the stack. -/
lemma buildsAll_image_of_free (h : p.Arranged nm) (hbuilds : U.Builds f)
    (hfree : ∀ t ∈ f.locals.toList, Site.Free p.subject.types.sites t) : U.BuildsAll (p.frameImage f) := by
  have hstack : U.BuildsAll (p.frameImage ⟨#[], f.stack⟩) := buildsAll_image ⟨hbuilds, by simp⟩
  refine ⟨hstack.1, fun t ht => buildsSlot_of_settle ?_⟩
  rw [h.image_locals hfree, Array.toList_append, List.mem_append] at ht
  rcases ht with ht | ht
  · rw [Array.toList_map] at ht
    obtain ⟨u, -, rfl⟩ := List.mem_map.mp ht
    exact SlotType.settle_settle u
  · exact p.settle_extraLocals t ht

omit hC in
/-- The image of a frame is loaded from as the frame is. -/
lemma loadsFrom_image (h : p.Arranged nm) (htr : Frame.Transition p.subject.types.sites i instr f after)
    (hloads : U.LoadsFrom instr f) : U.LoadsFrom instr (p.frameImage f) := by
  intro hop index array below hs
  cases htr with
  | @plain used put rest hstack shape free =>
      cases shape with
      | @element x y =>
          have hpresent : ∀ t ∈ [x, y], t.absent? p.isOmitted = none :=
            fun t ht => h.founded.absent?_of_free (free t ht)
          have himage : (p.frameImage f).stack = [x, y].map (·.moved p.standsAt)
              ++ (Frame.present p.isOmitted rest).map (·.moved p.standsAt) := by
            show (Frame.present p.isOmitted f.stack).map (·.moved p.standsAt) = _
            rw [hstack, Frame.present_append, Frame.present_eq_self hpresent, List.map_append]
          rw [himage] at hs
          cases hs
          rw [SlotType.typeName_moved]
          exact hloads hop x y rest hstack
      | fixed hfixed => simp [hop, Opcode.hasFixedEffect] at hfixed
      | _ => simp_all
  | store hop' | begin hop' | copy hop' | construct hop' =>
      rw [hop] at hop'
      cases hop'

/-- **The frame with which control leaves the segment of an instruction**, and what the last instruction
there makes of it: no less than the image of what is behind the instruction. -/
structure Leaves (U : ClassOrder src V) (p : Plan) (nm : Method) (T' : FrameTypes) (i : Nat)
    (instr : Instruction)
    (before after : Frame) (x : Instruction) (e e' k : Frame) : Prop where
  placed : T'.frames[p.imageAt i]? = some (some k)
  code_at : nm.code[p.imageAt i]? = some x
  below : e.Below (.weak U p.heldAt) k
  plain : p.deferral? i instr = .ok none → e = p.frameImage before
  step : Frame.Transition p.imageSites (p.imageAt i) x e e'
  loads : U.LoadsFrom x e
  builds : U.Builds e
  image : (p.frameImage after).Below (.faint U p.heldAt) e'
  targets : instr.targets ⊆ x.targets
  goesOn : instr.opcode.endsBlock = false → x.opcode.endsBlock = false

section Leaving

variable {k' : Frame} (hr : p.RestsBelow U T' i f g k) (hcode : p.code[i]? = some instr)
  (htr : Frame.Transition p.subject.types.sites i instr (f.trim g) after)
  (hloads : U.LoadsFrom instr (f.trim g))
  (hbuilds : U.Builds (f.trim g))
include hr hcode htr hloads hbuilds

/-- The instruction itself, with which control leaves its segment, or the call that stands in for it. -/
lemma leaves_plain {x : Instruction} (hd : p.isDropped i = false) (hdef : p.deferral? i instr = .ok none)
    (hlen : 0 < (p.segmentAt i).length) (hat : nm.code[p.imageAt i]? = some x)
    (hx : x = instr ∨ x = reflectInvoke ∧ instr.targets = [] ∧ ∀ {q : Nat} {e e' : Frame},
      Frame.Transition p.imageSites q instr e e' → Frame.Transition p.imageSites q reflectInvoke e e')
    (hk : T'.frames[p.imageAt i]? = some (some k')) (hle : (p.frameImage (f.trim g)).Below
      (.weak U p.heldAt) k') :
    ∃ x e e' k, Leaves U p nm T' i instr (f.trim g) after x e e' k := by
  have h := hC.arranged
  have hbelow := hr.below.trim_left
  have hfree := free_locals hbelow rfl (h.free hr.frame_at)
  obtain ⟨e', hstep, hlevel⟩ := h.sound.image_plain h.founded htr
    ((h.founded.spares hr.frame_at hd hdef).of_below hbelow h.founded.unpinned_of_isOmitted) hfree hlen hbuilds
  have hbuilds' := (buildsAll_image_of_free h hbuilds hfree).1
  rcases hx with rfl | ⟨rfl, htargets, hmirrored⟩
  · exact ⟨x, _, e', k', hk, hat, hle, fun _ => rfl, hstep, loadsFrom_image h htr hloads, hbuilds',
      hlevel.faint_of_level,
      fun _ hid => hid, id⟩
  · exact ⟨reflectInvoke, _, e', k', hk, hat, hle, fun _ => rfl, hmirrored hstep, (fun hop => by cases hop),
      hbuilds',
      hlevel.faint_of_level, by simp [htargets], fun _ => rfl⟩

omit hloads in
/-- In front of a constructor call whose construction is redone. -/
lemma leaves_redone {rest : List SlotType} {e : Deferral} {after' : Frame}
    (hdef : p.deferral? i instr = .ok (some e))
    (hredone : p.Redone i instr e g after' rest) :
    ∃ x e e' k, Leaves U p nm T' i instr (f.trim g) after x e e' k := by
  have h := hC.arranged
  have hbelow := hr.below.trim_left
  have hfree := free_locals hbelow rfl (h.free hr.frame_at)
  have hi : i < p.code.size := (Array.getElem?_eq_some_iff.mp hcode).1
  have hrun : Runs p.imageSites (fun _ => True) _ _ _ _ :=
    hredone.runs h hr.frame_at hcode hdef hbelow rfl fun _ _ _ => trivial
  obtain ⟨e', vs, hstep, hvs, hlevel⟩ := hredone.step h hr.frame_at hcode hdef hbelow rfl htr hfree hbuilds
  obtain ⟨⟨hcreate, hmem⟩, -⟩ := h.redone_instructions hdef
  have hnews : ∀ cls, (⟨.new, .type cls⟩ : Instruction) ∈
      spill (p.stackVar + 1) e.args ++ [e.create, e.copy] ++ reload (p.stackVar + 1) e.args → U.builds cls :=
    fun cls hcls => hC.settles.news cls (h.new_mem_of_redone hdef hcls)
  have hseg : p.segmentAt i = (spill (p.stackVar + 1) e.args ++ [e.create, e.copy]
      ++ reload (p.stackVar + 1) e.args) ++ [instr] := h.sound.segmentAt_redone hcode hdef
  have hall := h.lays.segment i hi
  rw [hseg] at hall
  obtain ⟨hfirst, hlast⟩ := Code.has_append.mp hall
  have himage : p.imageAt i = p.place i + (spill (p.stackVar + 1) e.args ++ [e.create, e.copy]
      ++ reload (p.stackVar + 1) e.args).length := by
    unfold imageAt
    rw [place_succ, hseg, List.length_append, List.length_singleton]
    omega
  have hbuilds' := buildsAll_image_of_free h hbuilds hfree
  obtain ⟨k₁, hk₁, hle₁⟩ := hC.settled.follows_runs (fun q _ => p.not_pinned_imageSites q) hrun hfirst
    hr.placed hr.image
    hbuilds' hnews
  have hat := hlast 0 (by simp)
  rw [Nat.add_zero, ← himage] at hat
  refine ⟨instr, _, e', k₁, himage ▸ hk₁, hat, hle₁, fun hnone => ?_, hstep, ?_, ?_, ?_, fun _ hid => hid, id⟩
  · rw [hdef] at hnone
    cases hnone
  · obtain ⟨m, _, _, _, _, _, hredoes⟩ := deferral?_eq_some hdef
    intro hop
    rw [(constructor?_eq_some hredoes.constructor).1] at hop
    cases hop
  · have hcls : U.builds e.site.cls := hC.settles.news _ (hcreate ▸ hmem)
    intro t ht
    simp only [redoneFrame, List.mem_append, List.mem_cons] at ht
    rcases ht with ht | rfl | rfl | ht
    · exact hbuilds'.1 t (List.mem_of_mem_take ht)
    · rintro n cls copied heq
      cases heq
      exact hcls
    · rintro n cls copied heq
      cases heq
      exact hcls
    · exact hbuilds'.1 t (List.mem_of_mem_drop ht)
  · refine Frame.Below.faint_trans ?_ hlevel.faint_of_level
    refine ⟨(Frame.Below.refl _ (p.frameImage after)).stack, ?_⟩
    change List.Forall₂ _ (_ ++ p.extraLocals).toList (_ ++ p.usedLocals vs).toList
    rw [Array.toList_append, Array.toList_append]
    refine List.rel_append (List.forall₂_same.mpr fun t _ => .below (.same t))
      ((p.usedLocals_of_extra hvs).imp ?_)
    rintro t u (rfl | ⟨rfl, -⟩)
    · exact .below (.same _)
    · exact .lower trivial

/-- At a point, whose frame has come back. -/
lemma leaves_point {n : Nat} {pt : SuspensionPoint} (hpt : p.points[n]? = some pt) (hpos : pt.position = i) :
    ∃ x e e' k, Leaves U p nm T' i instr (f.trim g) after x e e' k := by
  have h := hC.arranged
  have hbelow := hr.below.trim_left
  have hfree := free_locals hbelow rfl (h.free hr.frame_at)
  have hfound := h.found pt (List.mem_of_getElem? hpt)
  obtain ⟨instr', m, hcode', hcallee, hcall, hyield⟩ := hfound.call
  have hframe : p.subject.types.frames[pt.position]? = some (some pt.frame) := hfound.frame_at
  have hcode' : p.code[pt.position]? = some instr' := hcode'
  subst hpos
  rw [hcode] at hcode'
  cases hcode'
  obtain rfl : g = pt.frame := Option.some.inj (Option.some.inj (hr.frame_at.symm.trans hframe))
  obtain ⟨hlt, hseg⟩ := h.sound.segmentAt_point hpt
  have hlen := congrArg List.length hseg
  rw [length_pointImage] at hlen
  obtain ⟨k₁, hk₁, hle₁⟩ := hC.exists_resumed hpt
  have hle := (hC.image_trim hr.below).weak_of_faint hle₁
  have hafter : nm.code[p.place pt.position + p.afterOffset pt]? = some (.mark (p.afterLabel n)) ∧
      (pt.isYield = false → nm.code[p.place pt.position + (p.afterOffset pt + 1)]? = some pt.call) := by
    have hall := h.lays.segment pt.position hlt
    obtain ⟨save, restore, call, -, -, hcall, hsave, hrestore, himage⟩ := p.pointImage_eq pt n
    have hsplit : p.pointImage pt n = (.mark (p.beforeLabel n) :: (save ++ .mark (p.callLabel n) :: restore))
        ++ (.mark (p.afterLabel n) :: call) := by
      rw [himage]
      simp
    have hoffset : (Instruction.mark (p.beforeLabel n) :: (save ++ .mark (p.callLabel n) :: restore)).length
        = p.afterOffset pt := by
      simp only [List.length_cons, List.length_append]
      omega
    rw [hseg, hsplit] at hall
    obtain ⟨-, hlast⟩ := Code.has_append.mp hall
    rw [hoffset] at hlast
    obtain ⟨hmark, hlast⟩ := Code.has_cons.mp hlast
    refine ⟨hmark, fun hy => ?_⟩
    rw [hcall, hy] at hlast
    exact (Code.has_cons.mp hlast).1
  obtain ⟨mode, hop, ho⟩ := Instruction.callee?_eq_some hcallee
  have htargets : instr.targets = [] := by simp [Instruction.targets, ho]
  cases hy : pt.isYield with
  | true =>
      have himage : p.imageAt pt.position = p.place pt.position + p.afterOffset pt := by
        unfold imageAt
        rw [place_succ, hlen, hy]
        simp
      obtain ⟨hyield, hstatic⟩ := hyield hy
      obtain rfl := htr.of_yield hcallee hyield hstatic
      exact ⟨_, _, _, k₁, himage ▸ hk₁, himage ▸ hafter.1, hle, fun _ => rfl,
        .plain rfl (.idle (Or.inr rfl)) (by simp),
        (fun hop => by cases hop), (buildsAll_image_of_free h hbuilds hfree).1,
        .refl _ _, by simp [htargets], fun _ => rfl⟩
  | false =>
      have himage : p.imageAt pt.position = p.place pt.position + (p.afterOffset pt + 1) := by
        unfold imageAt
        rw [place_succ, hlen, hy]
        simp
      obtain ⟨_, _, hpassed⟩ := hC.settled.passed _ k₁ hk₁
      have hmark := hpassed.code_at
      rw [hafter.1] at hmark
      cases hmark
      obtain rfl := hpassed.transition.of_mark rfl
      obtain ⟨k₂, hk₂, hle₂⟩ := hC.settled.weak_of_meets hle (hpassed.next rfl).2
      obtain ⟨hd, hdef⟩ := h.sound.keeps_call hcode hcallee
      refine hC.leaves_plain hr hcode htr hloads hbuilds hd hdef (by omega) (himage ▸ hafter.2 hy) ?_
        (himage ▸ hk₂) hle₂
      refine hcall.imp_right fun hreplaced => ⟨hreplaced.2, htargets, fun hstep => ?_⟩
      obtain ⟨hstatic, hdesc⟩ := h.reflective instr (Arranged.mem_code hcode) m hcallee hreplaced.1
      exact hstep.mirrored hcallee hstatic hdesc

/-- **Control leaves every segment that is not empty.** -/
lemma exists_leaves (hd : p.isDropped i = false) {after' : Frame}
    (hpassed : p.subject.types.Passed U p.code spans i g instr after') :
    ∃ x e e' k, Leaves U p nm T' i instr (f.trim g) after x e e' k := by
  have h := hC.arranged
  have hi : i < p.code.size := (Array.getElem?_eq_some_iff.mp hcode).1
  have hseg := h.sound.segment_cases hcode
  generalize hl : p.segmentAt i = l at hseg
  have hall := h.lays.segment i hi
  rw [hl] at hall
  cases hseg with
  | dropped _ hd' =>
      rw [hd] at hd'
      cases hd'
  | point hpt hpos => exact hC.leaves_point hr hcode htr hloads hbuilds hpt hpos
  | returns hpt hd hret =>
      have hdef := p.deferral?_of_isReturn (i := i) hret
      have himage : p.imageAt i = p.place i + 2 := by
        unfold imageAt
        rw [place_succ, hl]
        rfl
      have hall : nm.code.Has (p.place i) ([.slot (.load .ref) p.stackVar, Emit.popMethod] ++ [instr]) := hall
      obtain ⟨hfirst, hlast⟩ := Code.has_append.mp hall
      have hbelow := hr.below.trim_left
      have hw : (f.trim g).locals.size = p.stackVar.toNat := hbelow.size.trans (h.width hr.frame_at)
      have hrun : Runs p.imageSites (fun _ => True) (p.place i) _ _ _ := Arranged.runs_leaving hw
      obtain ⟨k₁, hk₁, hle₁⟩ := hC.settled.follows_runs (fun q _ => p.not_pinned_imageSites q) hrun hfirst
        hr.placed hr.image
        (buildsAll_image_of_free h hbuilds (free_locals hbelow rfl (h.free hr.frame_at)))
        (by simp [Instruction.slot, Emit.popMethod, Instruction.member])
      exact hC.leaves_plain hr hcode htr hloads hbuilds hd hdef (by rw [hl]; exact Nat.zero_lt_succ _)
        (himage ▸ (Code.has_cons.mp hlast).1) (Or.inl rfl) (himage ▸ hk₁) hle₁
  | plain hpt hd _ hdef =>
      have himage : p.imageAt i = p.place i := imageAt_eq_place (by rw [hl]; rfl)
      exact hC.leaves_plain hr hcode htr hloads hbuilds hd hdef (by rw [hl]; exact Nat.zero_lt_one)
        (himage ▸ (Code.has_cons.mp hall).1) (Or.inl rfl) (himage ▸ hr.placed) hr.image
  | redone _ _ _ hdef =>
      obtain ⟨rest, hredone⟩ := h.founded.redone h.sound
        (h.paired hr.frame_at) hr.frame_at hpassed.transition hdef
      exact hC.leaves_redone hr hcode htr hbuilds hdef hredone

end Leaving

/-! ## Successors -/

omit hC in
/-- The image of an instruction that is no mark is within its segment. -/
lemma within_imageAt (h : p.Arranged nm) (hi : i < p.code.size) (hmark : ¬ p.code.MarkAt i)
    (hlen : 0 < (p.segmentAt i).length) : p.Within i (p.imageAt i) := by
  have hplace := p.place_succ i
  unfold imageAt
  refine ⟨hi, hmark, by omega, by omega, fun n pt hn hpos => ?_⟩
  have hlt := afterOffset_lt h.sound hn
  rw [hpos] at hlt
  omega

omit hC in
/-- What is dropped is no mark. -/
lemma not_dropped_of_mark (h : p.Arranged nm) (hmark : p.code.MarkAt i) : p.isDropped i = false := by
  by_contra hd
  obtain ⟨instr, hcode, hmark⟩ := hmark
  obtain ⟨instr', hcode', hop⟩ := h.sound.dropped (by simpa using hd)
  rw [hcode] at hcode'
  cases hcode'
  rcases hop with hop | hop <;> simp [Instruction.isMark, hop] at hmark

/-- **What rests at an instruction that stays rests at the handlers** that cover it. -/
lemma rests_covered (hf : p.Rests U T' i f) (hd : p.isDropped i = false) (hs : s ∈ spans) (hlow : s.start ≤ i)
    (hhigh : i < s.stop) : p.Rests U T' s.handler ⟨f.locals, [.ref s.cls]⟩ := by
  have h := hC.arranged
  by_cases hmark : p.code.MarkAt i
  · exact hC.rests_covered_mark hf hmark hs hlow hhigh
  obtain ⟨g, k, hr⟩ := hf
  obtain ⟨instr, _, hpassed⟩ := hC.settles.passed i g hr.frame_at
  have hi : i < p.code.size := (Array.getElem?_eq_some_iff.mp hpassed.code_at).1
  cases hpt : p.pointAt? i with
  | none =>
      have hlen := h.sound.segmentAt_pos hpassed.code_at hd
      have hwithin : p.Within i (p.place i) := by
        refine ⟨hi, hmark, Nat.le_refl _, by rw [place_succ]; omega, fun n pt hn hpos => ?_⟩
        have hat := h.sound.pointAt?_position hn
        rw [hpos, hpt] at hat
        cases hat
      exact hC.rests_within hr.frame_at hr.below hwithin hr.placed
        ⟨List.forall₂_same.mpr fun t _ => .same t, hr.image.locals⟩ hs hlow hhigh
  | some x =>
      obtain ⟨hn, rfl⟩ := pointAt?_eq_some (show p.pointAt? i = some (x.1, x.2) from hpt)
      exact hC.rests_covered_point hn ⟨g, k, hr⟩ hs hlow hhigh

/-- **What an instruction that stays makes of a frame that rests** comes to rest at the successors and
handlers. -/
lemma rests_after (hr : p.RestsBelow U T' i f g k) (hd : p.isDropped i = false)
    (hcode : p.code[i]? = some instr)
    (htr : Frame.Transition p.subject.types.sites i instr f after) (hloads : U.LoadsFrom instr f)
    (hbuilds : U.Builds f) :
    (∀ s ∈ spans, s.start ≤ i → i < s.stop → p.Rests U T' s.handler ⟨after.locals, [.ref s.cls]⟩)
      ∧ (∀ id ∈ instr.targets, ∀ t, p.code.labelAt? id = some t → p.Rests U T' t after)
      ∧ (instr.opcode.endsBlock = false → p.Rests U T' (i + 1) after) := by
  have h := hC.arranged
  obtain ⟨_, after', hpassed⟩ := hC.settles.passed i g hr.frame_at
  have hsame := hpassed.code_at
  rw [hcode] at hsame
  cases hsame
  have hi : i < p.code.size := (Array.getElem?_eq_some_iff.mp hcode).1
  have hbelow : after.Below (.rising U p.unpinned) after' :=
    htr.below rfl hpassed.transition hr.below (fun _ hn => hn) (fun _ hn => hn) hloads hbuilds
      (hC.settles.buildsAll h hr.frame_at).1
  obtain ⟨x, e, e', k₁, hl⟩ := hC.exists_leaves hr hcode (htr.trim hpassed.transition) hloads hbuilds hd hpassed
  obtain ⟨k', hpassed', hle⟩ := hC.settled.follows (fun q _ => p.not_pinned_imageSites q) hl.code_at hl.step
    hl.placed
    hl.below hl.loads hl.builds
  have himage := hl.image.weak_of_faint hle
  refine ⟨fun s hs hlow hhigh => ?_, fun id hid t ht => ?_, fun hends => ?_⟩
  · by_cases hmark : p.code.MarkAt i
    · obtain ⟨_, hcode', hmarked⟩ := hmark
      rw [hcode] at hcode'
      cases hcode'
      obtain rfl := htr.of_mark (segmentAt_mark h hcode hmarked).1
      exact hC.rests_covered ⟨g, k, hr⟩ hd hs hlow hhigh
    · have hlen := h.sound.segmentAt_pos hcode hd
      obtain ⟨s', hs', hlow', hhigh', hhandler, hcls⟩ :=
        hC.exists_part_within hs hlow hhigh (within_imageAt h hi hmark hlen)
      have hm' := (hpassed'.handlers s' hs' hlow' hhigh').2
      rw [hhandler, hcls] at hm'
      exact hC.rests_of_handler hbelow (hpassed.handlers s hs hlow hhigh).2
        ⟨List.forall₂_same.mpr fun t _ => .same t, himage.locals⟩ hm'
  · obtain ⟨t', ht', hm⟩ := hpassed.targets id hid
    rw [ht] at ht'
    cases ht'
    obtain ⟨q, hq, hm'⟩ := hpassed'.targets id (hl.targets hid)
    rw [h.lays.labelAt?_user h.sound h.labels ht] at hq
    cases hq
    exact hC.rests_of_meets hbelow hm himage hm'
  · have hm' := (hpassed'.next (hl.goesOn hends)).2
    have hlow := p.place_mono (Nat.zero_le (i + 1))
    have hplace : p.imageAt i + 1 = p.place (i + 1) := by
      unfold imageAt
      rw [place_zero] at hlow
      omega
    rw [hplace] at hm'
    exact hC.rests_of_meets hbelow (hpassed.next hends).2 himage hm'

omit hC in
/-- What is dropped has no segment. -/
lemma segmentAt_dropped (h : p.Arranged nm) (hcode : p.code[i]? = some instr) (hd : p.isDropped i = true) :
    p.segmentAt i = [] := by
  have hseg := h.sound.segment_cases hcode
  generalize p.segmentAt i = l at hseg
  cases hseg with
  | dropped => rfl
  | point hpt hpos =>
      obtain ⟨instr', m, hcode', hcallee, -⟩ := (h.found _ (List.mem_of_getElem? hpt)).call
      have hcode' : p.code[i]? = some instr' := hpos ▸ hcode'
      rw [(h.sound.keeps_call hcode' hcallee).1] at hd
      cases hd
  | returns _ hd' | plain _ hd' | redone _ hd' =>
      rw [hd] at hd'
      cases hd'

/-- **An instruction that is dropped** leaves the locals as they are, and what it makes of a frame rests
behind it. -/
lemma rests_dropped (hr : p.RestsBelow U T' i f g k) (hd : p.isDropped i = true)
    (hcode : p.code[i]? = some instr)
    (htr : Frame.Transition p.subject.types.sites i instr f after) (hloads : U.LoadsFrom instr f)
    (hbuilds : U.Builds f) : after.locals = f.locals ∧ instr.targets = [] ∧ p.Rests U T' (i + 1) after := by
  have h := hC.arranged
  obtain ⟨_, after', hpassed⟩ := hC.settles.passed i g hr.frame_at
  have hsame := hpassed.code_at
  rw [hcode] at hsame
  cases hsame
  have hbelow : after.Below (.rising U p.unpinned) after' :=
    htr.below rfl hpassed.transition hr.below (fun _ hn => hn) (fun _ hn => hn) hloads hbuilds
      (hC.settles.buildsAll h hr.frame_at).1
  obtain ⟨hop, n, cls, copied, homitted, rfl⟩ := h.founded.puts_dropped hr.frame_at hcode hd htr hr.below rfl
  obtain ⟨-, _, _, _, -, rfl⟩ :=
    h.founded.puts_dropped hr.frame_at hcode hd hpassed.transition (.refl (.rising U p.unpinned) g) rfl
  have hends : instr.opcode.endsBlock = false := by rcases hop with hop | hop <;> rw [hop] <;> rfl
  have hplace : p.place (i + 1) = p.place i := by rw [place_succ, segmentAt_dropped h hcode hd]; rfl
  refine ⟨rfl, ?_, hC.rests_of_meets hbelow (hpassed.next hends).2 ?_
    (show T'.Meets U k _ from ⟨k, hplace ▸ hr.placed, .refl k⟩)⟩
  · obtain ⟨hwell, hfits⟩ := h.fits instr (Arranged.mem_code hcode)
    rcases hop with hop | hop
    · unfold Instruction.Fits at hfits
      rw [hop] at hfits
      obtain ⟨t, ht, -⟩ := hfits
      simp [Instruction.targets, ht]
    · exact hwell.targets_eq_nil (by rw [hop]; rfl)
  · change (p.frameImage ⟨(f.trim g).locals, .pending n cls copied :: (f.trim g).stack⟩).Below _ _
    rw [frameImage_dropped homitted]
    exact hr.image

/-! ## All frames -/

/-- **What two frames that rest come to rests too.** -/
lemma rests_joins {r : Frame} (hf : p.Rests U T' i f) (hg : p.Rests U T' i g) (hj : Frame.Joins src V f g r) :
    p.Rests U T' i r := by
  have h := hC.arranged
  obtain ⟨f', k, hf⟩ := hf
  obtain ⟨g', k', hg⟩ := hg
  obtain rfl : f' = g' := Option.some.inj (Option.some.inj (hf.frame_at.symm.trans hg.frame_at))
  obtain rfl : k = k' := Option.some.inj (Option.some.inj (hf.placed.symm.trans hg.placed))
  exact ⟨f', k, hf.frame_at, hj.least U rfl hf.below hg.below, hf.placed,
    hj.image_least hf.below hg.below rfl h.founded.unpinned_of_isOmitted h.founded.unpinned_of_tracked
      hf.image hg.image⟩

end Compared

/-- **A frame comes to a position**: it rests there, and where the instruction is dropped, the handlers that
cover it have seen its locals already. -/
def Comes (U : ClassOrder src V) (p : Plan) (spans : List HandlerSpan) (T' : FrameTypes) (i : Nat)
    (f : Frame) : Prop :=
  p.Rests U T' i f ∧ (p.isDropped i = true → ∀ s ∈ spans, s.start ≤ i → i < s.stop →
    p.Rests U T' s.handler ⟨f.locals, [.ref s.cls]⟩)

namespace Compared

variable (hC : p.Compared U nm spans entry spans' T')
include hC

/-- What rests at a mark comes there. -/
lemma comes_of_mark (hf : p.Rests U T' i f) (hmark : p.code.MarkAt i) : p.Comes U spans T' i f :=
  ⟨hf, fun hd => by rw [not_dropped_of_mark hC.arranged hmark] at hd; cases hd⟩

omit hC in
/-- Labels are marks. -/
lemma markAt_of_labelAt? {id : Label} (h : p.code.labelAt? id = some i) : p.code.MarkAt i :=
  Code.markAt_of_markAt? (Code.labelAt?_eq_some_iff.mp h).1

/-- The ends of a handler's range are marks, and so is the handler. -/
lemma marks_of_span (hs : s ∈ spans) : p.code.MarkAt s.start ∧ p.code.MarkAt s.handler := by
  obtain ⟨r, -, hat⟩ := (Analysis.spans_eq_ok hC.settles.spans_eq).2 s hs
  obtain ⟨h₁, -, h₃, -⟩ := Analysis.span_eq_ok hat
  exact ⟨markAt_of_labelAt? h₁, markAt_of_labelAt? h₃⟩

/-- **Coming to positions is handed on.** -/
lemma inherits_comes : @Analysis.Inherits V
    { source := src, sink := src.sink, owner := p.subject.owner, method := p.subject.method } U
    p.subject.types.sites spans
    (p.Comes U spans T') where
  joins {i f g r} hf hg _ hj := by
    refine ⟨hC.rests_joins hf.1 hg.1 hj, fun hd s hs hlow hhigh => ?_⟩
    exact hC.rests_joins (hf.2 hd s hs hlow hhigh) (hg.2 hd s hs hlow hhigh) ⟨rfl, .cons (.same _) .nil,
      hj.locals⟩
  handler {i f} hf s hs hlow hhigh := by
    refine hC.comes_of_mark ?_ (hC.marks_of_span hs).2
    cases hd : p.isDropped i with
    | true => exact hf.2 hd s hs hlow hhigh
    | false => exact hC.rests_covered hf.1 hd hs hlow hhigh
  step {i f after instr} hf hcode htr hloads hbuilds := by
    have hcode : p.code[i]? = some instr := hcode
    obtain ⟨g, k, hr⟩ := hf.1
    obtain ⟨hhandlers, htargets, hnext⟩ : (∀ s ∈ spans, s.start ≤ i → i < s.stop →
          p.Rests U T' s.handler ⟨after.locals, [.ref s.cls]⟩)
        ∧ (∀ id ∈ instr.targets, ∀ t, p.code.labelAt? id = some t → p.Rests U T' t after)
        ∧ (instr.opcode.endsBlock = false → p.Rests U T' (i + 1) after) := by
      cases hd : p.isDropped i with
      | true =>
          obtain ⟨hlocals, hnone, hnext⟩ := hC.rests_dropped hr hd hcode htr hloads hbuilds
          rw [hlocals, hnone]
          exact ⟨hf.2 hd, by simp, fun _ => hnext⟩
      | false => exact hC.rests_after hr hd hcode htr hloads hbuilds
    refine ⟨fun s hs hlow hhigh => hC.comes_of_mark (hhandlers s hs hlow hhigh) (hC.marks_of_span hs).2,
      fun id hid t ht => hC.comes_of_mark (htargets id hid t ht) (markAt_of_labelAt? ht),
      fun hends _ => ⟨hnext hends, fun hd s hs hlow hhigh => ?_⟩⟩
    -- a range that begins at an instruction that is dropped would begin at a mark
    have hne : s.start ≠ i + 1 := by
      intro heq
      have hkept := not_dropped_of_mark hC.arranged (heq ▸ (hC.marks_of_span hs).1)
      rw [hkept] at hd
      cases hd
    exact hhandlers s hs (by omega) (by omega)

/-- **Every frame of the method rests at its place.** -/
theorem rests {h h' : Hierarchy} (hh : h.Shows src V)
    (hrun : (Analysis.run
        { source := src, sink := src.sink, owner := p.subject.owner, method := p.subject.method }).run h
      = (.ok p.subject.types, h'))
    (hloads : ∀ array, Analysis.Loads
      { source := src, sink := src.sink, owner := p.subject.owner, method := p.subject.method } h array →
        U.loads array.typeName)
    (hf : p.subject.types.frames[i]? = some (some f)) :
    ∃ k, T'.frames[p.place i]? = some (some k) ∧ (p.frameImage f).Below (.weak U p.heldAt) k := by
  have hcomes := Analysis.run_inherits hh hrun hC.settles.spans_eq hC.settles.entry_eq hC.inherits_comes
    (fun _ => ⟨hC.rests_entry, fun hd s hs hlow _ => ?_⟩)
    (fun i cls hi => hC.settles.news cls (Arranged.mem_code hi)) hloads hf
  · obtain ⟨g, k, hr⟩ := hcomes.1
    obtain rfl : f = g := Option.some.inj (Option.some.inj (hf.symm.trans hr.frame_at))
    have himage := hr.image
    rw [Frame.trim_self] at himage
    exact ⟨k, hr.placed, himage⟩
  · have hkept := not_dropped_of_mark hC.arranged (Nat.le_zero.mp hlow ▸ (hC.marks_of_span hs).1)
    rw [hkept] at hd
    cases hd

end Compared

end Plan

end Suspension
