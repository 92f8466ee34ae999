import Mathlib.Algebra.Ring.Nat
import Suspension.Proofs.Code.Deepest
import Suspension.Proofs.Frame.Constructions

/-!
# Frames and depths

A body is followed twice: the frame analysis computes the types of the operand stack, the pass over
depths only counts its entries.  **Both find the same heights**, provided that every handler is
entered as a handler.  The pass enters all handlers with the exception alone; the analysis knows only
the ways that lead there, and a label that is a handler of no reached instruction may be jumped to with
another stack.

* `Frame.Transition.height` — an instruction changes the height of the stack by its effect.
* `Analysis.run_arrives` — every frame has a height with which control arrives.
* `FrameTypes.Certified.steady` — frames make a body steady.
* `FrameTypes.Leaves` — the heights behind the instructions that have a frame.
* `Analysis.run_depths` — the pass succeeds if the handlers' frames hold the exception alone, and then
  its depths are the heights of the frames.
-/

namespace Suspension

/-! ## One instruction -/

namespace Frame

variable {sites : List Site} {position : Nat} {instr : Instruction} {f g : Frame}

/-- **An instruction changes the height of the stack by its effect**, and finds enough on it. -/
lemma Transition.height (h : Transition sites position instr f g) :
    ∃ pops pushes, instr.delta = .ok (pops, pushes) ∧ pops ≤ f.stack.length
      ∧ g.stack.length = f.stack.length - pops + pushes := by
  obtain ⟨op, operand⟩ := instr
  cases h with
  | plain hs shape _ =>
      refine ⟨_, _, shape.delta, ?_⟩
      simp only [hs, List.length_append]
      omega
  | store hop _ hs =>
      obtain rfl := hop
      exact ⟨1, 0, rfl, by simp [hs]⟩
  | begin hop =>
      obtain rfl := hop
      exact ⟨0, 1, rfl, by simp⟩
  | copy hop hs =>
      obtain rfl := hop
      refine ⟨1, 2, rfl, ?_⟩
      simp only [hs, List.length_cons]
      omega
  | @construct m d args rest n cls copied hop ho _ hd hs hargs =>
      obtain rfl := hop
      obtain rfl := ho
      have hargs : args.length = d.params.length := by simpa using congrArg List.length hargs
      refine ⟨d.params.length + 1, if d.isVoid then 0 else 1, ?_, ?_⟩
      · simp [Instruction.delta, Opcode.effect?, Opcode.shuffle?, Opcode.memberDelta, hd]
      · simp only [hs, List.length_append, List.length_cons, List.length_map, hargs]
        split <;> simp only [List.length_nil, List.length_cons] <;> omega

/-- A frame that rises keeps its height. -/
lemma Le.height {C : Classes} (h : Le C sites f g) : g.stack.length = f.stack.length :=
  h.stack.length_eq.symm

end Frame

/-! ## Every frame is on a path -/

namespace Analysis

open StackDepth (Arrives)

variable {ctx : AnalysisContext} {h h' : Hierarchy} {T : FrameTypes}

/-- The spans of a method's ranges begin their handlers where control arrives with the exception. -/
lemma arrives_handler {code : Code} {ranges : List ExceptionRange} {ss : List HandlerSpan}
    (hss : spans code ranges 0 = .ok ss) {s : HandlerSpan} (hs : s ∈ ss) :
    Arrives code ranges s.handler 1 := by
  obtain ⟨r, hr, hspan⟩ := (spans_eq_ok hss).2 s hs
  exact .handler hr (span_eq_ok hspan).2.2.1

/-- **Every frame has a height with which control arrives** at its position. -/
theorem run_arrives (hrun : (run ctx).run h = (.ok T, h')) {i : Nat} {f : Frame}
    (hf : T.frames[i]? = some (some f)) :
    Arrives ctx.method.code ctx.method.ranges i f.stack.length := by
  refine run_keeps ctx.source.agrees_empty h.agrees_empty hrun
    (P := fun _ i f => Arrives ctx.method.code ctx.method.ranges i f.stack.length)
    (fun ss hss => ?_) (fun T₀ entry hentry hlt => ?_) hf
  · refine ⟨fun _ hp => hp, fun hle hp => hle.height ▸ hp, fun _ _ hs _ _ => arrives_handler hss hs,
      fun _ hp hcode htr => ?_⟩
    obtain ⟨pops, pushes, hdelta, -, hheight⟩ := htr.height
    rw [hheight]
    exact ⟨fun s hs _ _ => arrives_handler hss hs,
      fun id hid t ht => .target hp hcode hdelta hid ht,
      fun hends hlt => .next hp hcode hdelta hends hlt⟩
  · obtain ⟨d, -, -, rfl⟩ := entryFrame_eq_ok hentry
    exact .entry hlt

end Analysis

/-! ## Every path leads to frames -/

namespace FrameTypes

open StackDepth (Arrives Steady)

variable {C : Classes} {owner : Text} {m : Method} {T : FrameTypes} {i d : Nat} {f : Frame}

/-- Every handler has been reached. -/
def HandlersReached (m : Method) (T : FrameTypes) : Prop :=
  ∀ r ∈ m.ranges, ∃ i f, m.code.labelAt? r.handler = some i ∧ T.frames[i]? = some (some f)

/-- **Every handler begins with the exception alone**, as far as it has a frame. -/
def HandlersCatch (m : Method) (T : FrameTypes) : Prop :=
  ∀ r ∈ m.ranges, ∀ i f, m.code.labelAt? r.handler = some i → T.frames[i]? = some (some f) →
    f.stack.length = 1

/-- The height of what has reached a position is that of its frame. -/
lemma Reaches.height (h : T.Reaches C f i) :
    ∃ g, T.frames[i]? = some (some g) ∧ g.stack.length = f.stack.length := by
  obtain ⟨g, hg, hle⟩ := h
  exact ⟨g, hg, hle.height⟩

/-- **Where control arrives there is a frame**, as high as the depth. -/
lemma Certified.height (hT : T.Certified C owner m) (hreached : T.HandlersReached m)
    (hcatch : T.HandlersCatch m) (h : Arrives m.code m.ranges i d) :
    ∃ f, T.frames[i]? = some (some f) ∧ f.stack.length = d := by
  induction h with
  | entry hlt =>
      obtain ⟨f, hentry, hr⟩ := hT.entry
      obtain ⟨_, -, -, rfl⟩ := Analysis.entryFrame_eq_ok hentry
      exact (hr hlt).height
  | @handler r i hr hi =>
      obtain ⟨k, f, hk, hf⟩ := hreached r hr
      obtain rfl : k = i := by simpa [hk] using hi
      exact ⟨f, hf, hcatch r hr k f hk hf⟩
  | @target i d pops pushes t instr id _ hcode hdelta hid ht ih =>
      obtain ⟨f, hf, rfl⟩ := ih
      obtain ⟨instr', after, ss, -, hs⟩ := hT.settled i f hf
      obtain rfl : instr = instr' := by simpa [hcode] using hs.code_at
      obtain ⟨t', ht', hr⟩ := hs.targets id hid
      obtain rfl : t = t' := by simpa [ht] using ht'
      obtain ⟨pops', pushes', hdelta', -, hheight⟩ := hs.transition.height
      cases hdelta.symm.trans hdelta'
      exact hheight ▸ hr.height
  | @next i d pops pushes instr _ hcode hdelta hends _ ih =>
      obtain ⟨f, hf, rfl⟩ := ih
      obtain ⟨instr', after, ss, -, hs⟩ := hT.settled i f hf
      obtain rfl : instr = instr' := by simpa [hcode] using hs.code_at
      obtain ⟨pops', pushes', hdelta', -, hheight⟩ := hs.transition.height
      cases hdelta.symm.trans hdelta'
      exact hheight ▸ (hs.next hends).2.height

/-- **Frames make a body steady.** -/
lemma Certified.steady (hT : T.Certified C owner m) (hreached : T.HandlersReached m)
    (hcatch : T.HandlersCatch m) : Steady m.code m.ranges where
  handlers := by
    intro r hr
    obtain ⟨i, -, hi, -⟩ := hreached r hr
    exact ⟨i, hi⟩
  agree := by
    intro i d e hd he
    obtain ⟨f, hf, rfl⟩ := hT.height hreached hcatch hd
    obtain ⟨g, hg, rfl⟩ := hT.height hreached hcatch he
    cases hf.symm.trans hg
    rfl
  effect := by
    intro i d instr ha hcode
    obtain ⟨f, hf, rfl⟩ := hT.height hreached hcatch ha
    obtain ⟨instr', after, ss, -, hs⟩ := hT.settled i f hf
    obtain rfl : instr = instr' := by simpa [hcode] using hs.code_at
    obtain ⟨pops, pushes, hdelta, hpops, -⟩ := hs.transition.height
    exact ⟨pops, pushes, hdelta, hpops⟩
  targets := by
    intro i d instr ha hcode id hid
    obtain ⟨f, hf, rfl⟩ := hT.height hreached hcatch ha
    obtain ⟨instr', after, ss, -, hs⟩ := hT.settled i f hf
    obtain rfl : instr = instr' := by simpa [hcode] using hs.code_at
    obtain ⟨t, ht, -⟩ := hs.targets id hid
    exact ⟨t, ht⟩

/-- **A height behind an instruction that has a frame.** -/
def Leaves (code : Code) (T : FrameTypes) (n : Nat) : Prop :=
  ∃ i f instr after, T.frames[i]? = some (some f) ∧ code[i]? = some instr
    ∧ Frame.Transition T.sites i instr f after ∧ after.stack.length = n

/-- The heights of the frames, where there are frames. -/
def heights (T : FrameTypes) : Array (Option Nat) := T.frames.map (·.map (·.stack.length))

lemma heights_eq_some_iff :
    T.heights[i]? = some (some d) ↔ ∃ f, T.frames[i]? = some (some f) ∧ f.stack.length = d := by
  simp [heights]

end FrameTypes

/-! ## Both passes together -/

namespace Analysis

open StackDepth (Arrives)

variable {ctx : AnalysisContext} {h h' : Hierarchy} {T : FrameTypes} {p : StackDepth.Pass}

/-- Depths that are found exactly where frames are as high are the heights of the frames. -/
lemma depths_eq_heights {p : StackDepth.Pass} (hsize : p.depths.size = T.frames.size)
    (hfound : ∀ i d, p.Found i d ↔ T.heights[i]? = some (some d)) : p.depths = T.heights := by
  refine Array.ext (by simpa [FrameTypes.heights] using hsize) fun i hi hi' => ?_
  have hp : p.depths[i]? = some p.depths[i] := Array.getElem?_eq_getElem hi
  have hT : T.heights[i]? = some T.heights[i] := Array.getElem?_eq_getElem hi'
  refine Option.ext fun d => ?_
  have hd := hfound i d
  unfold StackDepth.Pass.Found at hd
  rw [hp, hT] at hd
  simpa using hd

/-- If the pass succeeds, the handlers begin with the exception. -/
lemma handlersCatch_of_run (hrun : (run ctx).run h = (.ok T, h'))
    (hp : StackDepth.run ctx.method.code ctx.method.ranges = .ok p) : T.HandlersCatch ctx.method := by
  intro r hr i f hi hf
  have hne : 0 < ctx.method.code.size := Nat.zero_lt_of_lt (Code.labelAt?_lt hi)
  obtain ⟨hL, -⟩ := StackDepth.run_labelling hp hne
  exact hL.unique (hL.of_arrives (run_arrives hrun hf)) (hL.of_arrives (.handler hr hi))

/-- **The frame analysis and the pass over depths agree.**  Of a method whose frames are known and whose
handlers have all been reached the depths can be computed exactly if each handler's frame holds the
exception alone.  Then they are the heights of the frames, and what the method needs is the greatest
height behind an instruction that has a frame, or one for the exception. -/
theorem run_depths (hrun : (run ctx).run h = (.ok T, h'))
    (hreached : T.HandlersReached ctx.method) :
    ((∃ n, ctx.method.stackNeed = .ok n) ↔ T.HandlersCatch ctx.method) ∧
      ∀ p, StackDepth.run ctx.method.code ctx.method.ranges = .ok p →
        p.depths = T.heights
          ∧ (∀ (i : Nat) (f : Frame), T.frames[i]? = some (some f) →
              ∃ instr after, ctx.method.code[i]? = some instr
                ∧ Frame.Transition T.sites i instr f after)
          ∧ IsGreatest ({n | T.Leaves ctx.method.code n} ∪ {StackDepth.floor ctx.method.ranges})
              p.deepest
          ∧ ctx.method.stackNeed = .ok (UInt32.ofNat p.deepest).toNat
          ∧ (ctx.method.code.size < 2 ^ 31 → (UInt32.ofNat p.deepest).toNat = p.deepest) := by
  obtain ⟨hcert, -⟩ := run_certified ctx.source.agrees_empty h.agrees_empty hrun
  refine ⟨⟨?_, fun hcatch => ?_⟩, fun p hp => ?_⟩
  · rintro ⟨n, hn⟩
    cases hp : StackDepth.run ctx.method.code ctx.method.ranges with
    | error e => simp [Method.stackNeed, hp] at hn
    | ok p => exact handlersCatch_of_run hrun hp
  · obtain ⟨p, hp, -⟩ := StackDepth.run_steady (hcert.steady hreached hcatch)
    exact ⟨(UInt32.ofNat p.deepest).toNat, by simp only [Method.stackNeed, hp]⟩
  have hcatch := handlersCatch_of_run hrun hp
  have hfound : ∀ i d, p.Found i d ↔ T.heights[i]? = some (some d) := by
    intro i d
    obtain ⟨p', hp', hiff⟩ := StackDepth.run_steady (hcert.steady hreached hcatch)
    cases hp.symm.trans hp'
    rw [hiff, FrameTypes.heights_eq_some_iff]
    constructor
    · exact hcert.height hreached hcatch
    · rintro ⟨f, hf, rfl⟩
      exact run_arrives hrun hf
  have hstep : ∀ (i : Nat) (f : Frame), T.frames[i]? = some (some f) →
      ∃ instr after, ctx.method.code[i]? = some instr
        ∧ Frame.Transition T.sites i instr f after := by
    intro i f hf
    obtain ⟨instr, after, ss, -, hs⟩ := hcert.settled i f hf
    exact ⟨instr, after, hs.code_at, hs.transition⟩
  have hsmall : ctx.method.code.size < 2 ^ 31 → (UInt32.ofNat p.deepest).toNat = p.deepest := by
    intro hlt
    have hle := StackDepth.run_deepest_le hp
    rw [UInt32.toNat_ofNat', Nat.mod_eq_of_lt (by omega)]
  refine ⟨depths_eq_heights ((StackDepth.run_size hp).trans hcert.size.symm) hfound, hstep, ?_,
    by simp only [Method.stackNeed, hp], hsmall⟩
  -- what is behind an instruction by its effect is what it leaves of its frame
  have hbehind : {n | p.Behind ctx.method.code n} = {n | T.Leaves ctx.method.code n} := by
    ext n
    constructor
    · rintro ⟨i, d, instr, pops, pushes, hd, hcode, hdelta, rfl⟩
      obtain ⟨f, hf, rfl⟩ := FrameTypes.heights_eq_some_iff.mp ((hfound i d).mp hd)
      obtain ⟨instr', after, hcode', htr⟩ := hstep i f hf
      obtain rfl : instr = instr' := by simpa [hcode] using hcode'
      obtain ⟨pops', pushes', hdelta', -, hheight⟩ := htr.height
      cases hdelta.symm.trans hdelta'
      exact ⟨i, f, instr, after, hf, hcode, htr, hheight⟩
    · rintro ⟨i, f, instr, after, hf, hcode, htr, rfl⟩
      obtain ⟨pops, pushes, hdelta, -, hheight⟩ := htr.height
      exact ⟨i, f.stack.length, instr, pops, pushes,
        (hfound _ _).mpr (FrameTypes.heights_eq_some_iff.mpr ⟨f, hf, rfl⟩), hcode, hdelta, hheight⟩
  exact hbehind ▸ StackDepth.run_deepest hp

/-! ### A handler that catches and one that is only jumped to -/

/-- Two values under a handler. -/
def guardedPair : Method where
  name := "f"
  desc := "()V"
  flags := Flag.staticBit
  code := #[.mark 0, .plain .pushNull, .plain .pushNull, .plain .pop2, .mark 1, .plain .returnVoid,
    .mark 2, .plain .pop, .plain .returnVoid]
  ranges := [⟨"E", 0, 1, 2⟩]

set_option maxRecDepth 100000 in
/-- The theorem at a method whose handler catches: it needs two stack entries. -/
theorem guardedPair_depths : ∃ T h' p, (run ⟨{}, {}, "A", guardedPair⟩).run {} = (.ok T, h')
    ∧ T.HandlersReached guardedPair ∧ T.HandlersCatch guardedPair
    ∧ StackDepth.run guardedPair.code guardedPair.ranges = .ok p ∧ p.depths = T.heights
    ∧ guardedPair.stackNeed = .ok 2 := by
  have hframe : ((run ⟨{}, {}, "A", guardedPair⟩).run {}).1.toOption.map (·.frames[6]?)
      = some (some (some ⟨#[], [.ref "E"]⟩)) := by
    decide +kernel
  obtain ⟨T, h', hrun, hframe⟩ := Conclusion.exists_ok hframe
  have hreached : T.HandlersReached guardedPair := by
    intro r hr
    obtain rfl := List.mem_singleton.mp hr
    exact ⟨6, _, by decide +kernel, hframe⟩
  have hneed : guardedPair.stackNeed = .ok 2 := by decide +kernel
  obtain ⟨hiff, hall⟩ := run_depths hrun hreached
  have hcatch := hiff.mp ⟨2, hneed⟩
  cases hp : StackDepth.run guardedPair.code guardedPair.ranges with
  | error e => simp [Method.stackNeed, hp] at hneed
  | ok p => exact ⟨T, h', p, hrun, hreached, hcatch, rfl, (hall p hp).1, hneed⟩

/-- The handler of a range that covers no reached instruction, entered by a jump. -/
def jumpedHandler : Method where
  name := "f"
  desc := "()V"
  flags := Flag.staticBit
  code := #[.jump .goto 2, .mark 0, .plain .nop, .mark 1, .mark 2, .plain .returnVoid]
  ranges := [⟨"E", 0, 1, 2⟩]

set_option maxRecDepth 100000 in
/-- **Frames alone do not make a body steady**: here the handler has a frame, without an exception, and
the depths cannot be computed. -/
theorem jumpedHandler_depths : ∃ T h', (run ⟨{}, {}, "A", jumpedHandler⟩).run {} = (.ok T, h')
    ∧ T.HandlersReached jumpedHandler ∧ ¬ ∃ n, jumpedHandler.stackNeed = .ok n := by
  have hframe : ((run ⟨{}, {}, "A", jumpedHandler⟩).run {}).1.toOption.map (·.frames[4]?)
      = some (some (some ⟨#[], []⟩)) := by
    decide +kernel
  obtain ⟨T, h', hrun, hframe⟩ := Conclusion.exists_ok hframe
  refine ⟨T, h', hrun, fun r hr => ?_, ?_⟩
  · obtain rfl := List.mem_singleton.mp hr
    exact ⟨4, _, by decide +kernel, hframe⟩
  · rintro ⟨n, hn⟩
    have hfails : jumpedHandler.stackNeed.toOption = none := by decide +kernel
    rw [hn] at hfails
    cases hfails

end Analysis

end Suspension
