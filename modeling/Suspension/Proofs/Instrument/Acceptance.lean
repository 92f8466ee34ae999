import Suspension.Proofs.Instrument.Typing
import Suspension.Proofs.Instrument.Validity

/-!
# The analysis of a transformed body succeeds

**The analysis of a transformed body succeeds**, whatever is known of the classes by then.  What it finds
where the image of a frame stands is below the image: there are entries of the same kinds on the stack,
without those of constructions that are left out, and what is known of a local is known of it still.

* `Method.Analyzable` — what is asked of a method.
* `Analysis.run_receiver` — a receiver that is not overwritten is in all frames.
* `Plan.Makes.arranged`, `Plan.Makes.settles` — the plan by which a method is transformed.
* `Plan.Shown`, `Plan.Settles.run_transformed` — the analysis of a transformed body.
-/

namespace Suspension

variable {V : ClassView}

/-! ## The receiver -/

/-- What two frames have in a local, they come to have there. -/
lemma Frame.Joins.getElem?_locals {src : ClassSource} {f g r : Frame} {k : Nat} {t : SlotType}
    (h : Frame.Joins src V f g r) (hf : f.locals[k]? = some t) (hg : g.locals[k]? = some t) :
    r.locals[k]? = some t := by
  have hzip : (f.locals.toList.zip g.locals.toList)[k]? = some (t, t) := by
    rw [List.getElem?_zip_eq_some, Array.getElem?_toList, Array.getElem?_toList]
    exact ⟨hf, hg⟩
  obtain ⟨hlt, hat⟩ := List.getElem?_eq_some_iff.mp hzip
  have hlt' := h.locals.length_eq ▸ hlt
  have hjoins := (List.forall₂_iff_get.mp h.locals).2 k hlt hlt'
  simp only [List.get_eq_getElem, hat] at hjoins
  rw [← Array.getElem?_toList, List.getElem?_eq_getElem hlt', hjoins.self]

/-- **A reference stays in its local** unless the local is stored. -/
lemma Frame.Transition.getElem?_locals {S : List Site} {q k : Nat} {instr : Instruction} {f g : Frame}
    {cls : Text}
    (h : Frame.Transition S q instr f g) (hf : f.locals[k]? = some (.ref cls))
    (hstore : ∀ kind n, instr = ⟨.store kind, .slot n⟩ → n.toNat ≠ k) : g.locals[k]? = some (.ref cls) := by
  cases h with
  | plain | begin | copy => exact hf
  | store hop ho =>
      obtain ⟨op, operand⟩ := instr
      cases hop
      cases ho
      rw [Array.set!_eq_setIfInBounds, Array.getElem?_setIfInBounds_ne (hstore _ _ rfl)]
      exact hf
  | construct =>
      rw [Array.getElem?_map, hf]
      rfl

namespace Analysis

variable {ctx : AnalysisContext}

lemma inherits_receiver (hstores : ∀ k, ⟨.store k, .slot 0⟩ ∉ ctx.method.code.toList) (S : List Site)
    (spans : List HandlerSpan) :
    Inherits (.any ctx.source V) S spans fun _ f => f.locals[0]? = some (.ref ctx.owner) where
  joins hf hg _ hjoins := hjoins.getElem?_locals hf hg
  handler hf _ _ _ _ := hf
  step {i f after instr} hf hcode htr _ _ := by
    have hafter := htr.getElem?_locals hf fun k n heq hn => by
      obtain rfl : n = 0 := UInt32.toNat_inj.mp hn
      exact hstores k (heq ▸ Array.mem_toList_iff.mpr (Array.mem_of_getElem? hcode))
    exact ⟨fun _ _ _ _ => hafter, fun _ _ _ _ => hafter, fun _ _ => hafter⟩

/-- **A receiver that is not overwritten is in all frames.** -/
theorem run_receiver {h h' : Hierarchy} (hh : h.Shows ctx.source V) {T : FrameTypes}
    (hrun : (run ctx).run h = (.ok T, h')) (hstatic : ctx.method.isStatic = false)
    (hstores : ∀ k, ⟨.store k, .slot 0⟩ ∉ ctx.method.code.toList) {i : Nat} {f : Frame}
    (hf : T.frames[i]? = some (some f)) : f.locals[0]? = some (.ref ctx.owner) := by
  obtain ⟨ss, entry, _, _, hss, hentry, -⟩ := run_eq_ok hrun
  refine run_inherits hh hrun hss hentry (inherits_receiver (V := V) hstores _ ss) (fun _ => ?_)
    (fun _ _ _ => trivial) (fun _ _ => trivial) hf
  obtain ⟨d, -, -, rfl⟩ := entryFrame_eq_ok hentry
  simp [givenSlots, hstatic]

end Analysis

/-! ## Plans -/

/-- **What is asked of a method**: its instructions pass the checks, its calls by reflection have a receiver
and are what they are declared as, and where it has a receiver it stores nothing else there. -/
structure Method.Analyzable (m : Method) : Prop where
  fits : ∀ instr ∈ m.code.toList, instr.WellFormed ∧ instr.Fits m.maxLocals
  reflective : ∀ instr ∈ m.code.toList, ∀ callee, instr.callee? = some callee →
    callee.isReflective = true → instr.opcode ≠ .invoke .static ∧ callee.desc = reflectedDesc
  receiver : m.isStatic = false → ∀ k, ⟨.store k, .slot 0⟩ ∉ m.code.toList

namespace Plan

variable {src : ClassSource} {owner : Text} {m nm : Method} {h : Hierarchy} {p : Plan}

/-- **The plan by which a method is transformed** compares its frames with those of the transformed body. -/
lemma Makes.arranged (hp : p.Makes src owner m h nm) (hh : h.Shows src V) (howner : owner ≠ [])
    (hm : m.Analyzable)
    (hlabels : p.LabelsFit) (hlocals : p.LocalsFit) : p.Arranged nm := by
  obtain ⟨h₁, h₂, hrun, -⟩ := hp.found
  obtain ⟨ss, entry, _, _, hss, -⟩ := Analysis.run_eq_ok hrun
  obtain ⟨-, hdesc, hflags, -⟩ := Plan.generate_keeps hp.generate
  have hsound := hp.sound
  have hcertified := hp.certified
  obtain rfl := hp.method_eq
  obtain rfl := hp.owner_eq
  refine { certified := hcertified, found := hsound.found, orderly := fun hf => ?_, sound := hsound
           lays := Plan.generate_lays hp.generate, desc_eq := hdesc, flags_eq := hflags, labels := hlabels
           locals := hlocals, fits := hm.fits, paired := fun hf => Analysis.run_paired hrun hf
           names := fun hf => ?_, receiver := fun hstatic _ _ hf => ?_, reflective := hm.reflective }
  · exact (Analysis.run_orderly (fun instr hi => (hm.fits instr hi).2.readsValue) hrun hss hf).2
  · exact Analysis.run_names ClassName.lawful_ne_nil (Method.brings_ne_nil (fun instr hi =>
      (hm.fits instr hi).2) howner)
      (Hierarchy.supersAre_ne_nil h) hrun _ _ hf
  · exact Analysis.run_receiver hh hrun hstatic (hm.receiver hstatic) hf

/-- Its frames are those of a settled analysis. -/
lemma Makes.settles (hp : p.Makes src owner m h nm) (hh : h.Shows src V) (U : ClassOrder src V)
    (hnews : ∀ cls, (⟨.new, .type cls⟩ : Instruction) ∈ m.code.toList → U.builds cls) :
    ∃ spans entry, p.Settles U spans entry := by
  obtain ⟨h₁, h₂, hrun, -⟩ := hp.found
  obtain ⟨ss, entry, _, _, hss, hentry, -⟩ := Analysis.run_eq_ok hrun
  have hsize : 0 < p.code.size := by
    obtain ⟨pt, rest, hpoints⟩ := List.exists_cons_of_ne_nil hp.nonempty
    have hlt := (hp.sound.segmentAt_point (n := 0) (by rw [hpoints]; rfl)).1
    omega
  obtain rfl := hp.method_eq
  obtain rfl := hp.owner_eq
  obtain ⟨hmeets, hpassed⟩ := Analysis.run_settles U hh hrun hss hentry
  exact ⟨ss, entry, hsize, hss, hentry, hmeets hsize, hpassed, hnews⟩

variable {U : ClassOrder src V} {spans : List HandlerSpan} {entry : Frame}

/-- Segments have frames, all of them. -/
lemma Settles.exists_drawn (hS : p.Settles U spans entry) (h : p.Arranged nm) :
    ∃ charts, p.Drawn U spans charts := by
  have hall : ∀ i, ∃ gs, ∀ f, p.subject.types.frames[i]? = some (some f) → 0 < (p.segmentAt i).length →
      ∃ instr after, p.subject.types.Passed U p.code spans i f instr after ∧ p.Charts U i instr f after gs := by
    intro i
    by_cases hex : ∃ f, p.subject.types.frames[i]? = some (some f) ∧ 0 < (p.segmentAt i).length
    · obtain ⟨f, hf, hlen⟩ := hex
      obtain ⟨instr, after, hpassed⟩ := hS.passed i f hf
      obtain ⟨gs, hcharts⟩ :=
        h.charted hf hpassed.code_at hpassed.transition (hS.buildsAll h hf) hS.news hlen
      refine ⟨gs, fun f' hf' _ => ?_⟩
      obtain rfl : f = f' := Option.some.inj (Option.some.inj (hf.symm.trans hf'))
      exact ⟨instr, after, hpassed, hcharts⟩
    · exact ⟨[], fun f hf hlen => (hex ⟨f, hf, hlen⟩).elim⟩
  choose charts hcharts using hall
  exact ⟨charts, hcharts⟩

/-- **Where the image of a frame stands**: where the segment of its instruction begins, and at the image of the
instruction unless a construction is redone in front of it. -/
def Shown (p : Plan) (i q : Nat) : Prop :=
  q = p.place i ∨ q = p.imageAt i ∧ ∀ instr, p.code[i]? = some instr → p.deferral? i instr = .ok none

/-- The frames of a segment are those that images stand at. -/
lemma Charts.shown {i q : Nat} {instr : Instruction} {f after : Frame} {gs : List Frame}
    (hcharts : p.Charts U i instr f after gs) (hcode : p.code[i]? = some instr)
    (hlen : 0 < (p.segmentAt i).length) (hq : p.Shown i q) :
    ∃ k, q = p.place i + k ∧ gs[k]? = some (p.frameImage f) := by
  rcases hq with rfl | ⟨rfl, hdef⟩
  · exact ⟨0, rfl, hcharts.first⟩
  · refine ⟨(p.segmentAt i).length - 1, ?_, ?_⟩
    · unfold imageAt
      rw [place_succ]
      omega
    · rw [← hcharts.charted.length_eq, ← List.getLast?_eq_getElem?]
      exact hcharts.last (hdef instr hcode)

/-- **The analysis of a transformed body succeeds**, and finds what is below the image of each frame. -/
theorem Settles.run_transformed (hS : p.Settles U spans entry) (h : p.Arranged nm) (hends : V.Ends)
    (hnull : ∀ cls, ¬V.Extends cls ClassName.null) {h₀ : Hierarchy}
    (hh : h₀.Shows src V)
    (hnews : ∀ (q : Nat) (cls : Text), nm.code[q]? = some ⟨.new, .type cls⟩ → U.builds cls)
    (hloads : ∀ array,
      Analysis.Loads { source := src, sink := src.sink, owner := p.subject.owner, method := nm } h₀ array →
        U.loads array.typeName) :
    ∃ T h', (Analysis.run { source := src, sink := src.sink, owner := p.subject.owner, method := nm }).run
      h₀ = (.ok T, h')
      ∧ Site.Noted p.heldAt p.imageSites T.sites
      ∧ ∀ (i q : Nat) (f k : Frame), p.subject.types.frames[i]? = some (some f) → p.isDropped i = false →
          p.Shown i q → T.frames[q]? = some (some k) → k.Below (.rising U p.heldAt) (p.frameImage f) := by
  obtain ⟨charts, hdrawn⟩ := hS.exists_drawn h
  obtain ⟨spans', hspans, hguards⟩ := h.sound.guards h.lays h.labels hS.spans_eq
  obtain ⟨T, h', hrun, hnoted, hframes⟩ :
      ∃ T h', (Analysis.run { source := src, sink := src.sink, owner := p.subject.owner, method := nm }).run
        h₀ = (.ok T, h')
        ∧ Site.Noted p.heldAt p.imageSites T.sites ∧ ∀ (i : Nat) (f : Frame), T.frames[i]? = some (some f) →
          Analysis.Lies U p.heldAt (p.Given U spans entry charts) i f :=
    Analysis.run_bounded hends hnull hh hspans (hS.entryFrame_transformed h) (hS.bounds h hdrawn hguards)
      ⟨_, .prologue rfl, .refl _ _⟩ hnews hloads
  refine ⟨T, h', hrun, hnoted, fun i q f k hf hd hq hk => ?_⟩
  obtain ⟨g, hg, hle⟩ := hframes _ _ hk
  obtain ⟨_, _, hpassed⟩ := hS.passed i f hf
  have hlen := h.sound.segmentAt_pos hpassed.code_at hd
  obtain ⟨_, _, hpassed', hcharts⟩ := hdrawn i f hf hlen
  obtain ⟨m, rfl, hm⟩ := hcharts.shown hpassed'.code_at hlen hq
  rwa [hg.unique (.segment hf hpassed' hcharts hm)] at hle

end Plan

end Suspension
