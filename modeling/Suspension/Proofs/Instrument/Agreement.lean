import Suspension.Proofs.Instrument.Acceptance
import Suspension.Proofs.Instrument.Depth
import Suspension.Proofs.Instrument.Leaving

/-!
# Transformed methods are well typed

The analysis of a transformed body succeeds, and **finds at the place and at the image of each instruction
what the analysis of the method finds at the instruction**: the same stack without the entries of
constructions that are left out, and in each local of which something is known the same.  Behind the
prologue the frame stack is in its local.

* `SlotOrder.telling` — frames that say the same.
* `Plan.Settles.run_agrees` — what is below the image of a frame, and above it.
* `Plan.Makes.spares`, `Plan.StackAt` — nothing is stored over the frame stack.
* `Method.transform_typed`, `Method.transform_mistyped` — methods that are well typed, and one that is not.
-/

namespace Suspension

open Suspension.Frame (Runs)

variable {src : ClassSource} {V : ClassView} {U : ClassOrder src V} {held : Nat → Prop}

/-! ## Frames that say the same -/

/-- **The order in which a frame says what another one says**, and more where that one has an unusable local. -/
def SlotOrder.telling (U : ClassOrder src V) (held : Nat → Prop) : SlotOrder :=
  ⟨fun c d => U.le c d ∧ U.le d c, held, False, True⟩

section Orders

variable {t u : SlotType} {f g : Frame}

lemma SlotType.Below.telling {O : SlotOrder} (h : SlotType.Below (.rising U held) t u)
    (h' : SlotType.Below O u t) (hle : ∀ {c d}, O.le c d → U.le c d) :
    SlotType.Below (.telling U held) t u := by
  cases h with
  | same => exact .same _
  | ref ht hu hcd hlt hlu =>
      cases h' with
      | same => exact .same _
      | ref hu' ht' hdc =>
          obtain rfl := SlotType.ref.inj (ht.symm.trans ht')
          obtain rfl := SlotType.ref.inj (hu.symm.trans hu')
          exact .ref ht hu ⟨hcd, hle hdc⟩ hlt hlu

lemma SlotType.LocalBelow.telling (h : SlotType.LocalBelow (.rising U held) t u)
    (h' : SlotType.LocalBelow (.weak U held) u t) : SlotType.LocalBelow (.telling U held) t u := by
  cases h with
  | lower hlow => exact hlow.elim
  | upper hhigh hlt => exact .upper trivial hlt
  | below h =>
      cases h' with
      | below h' => exact .below (h.telling h' id)
      | lower =>
          cases h with
          | same => exact .below (.same _)
          | ref _ hu => cases hu
      | upper =>
          cases h with
          | same => exact .below (.same _)
          | ref ht => cases ht

lemma forall₂_telling {R S T : SlotType → SlotType → Prop} (h : ∀ t u, R t u → S u t → T t u)
    {ts us : List SlotType} (hr : List.Forall₂ R ts us) (hs : List.Forall₂ S us ts) : List.Forall₂ T ts us := by
  induction hr with
  | nil => exact .nil
  | cons htu _ ih =>
      cases hs with
      | cons hut hs => exact .cons (h _ _ htu hut) (ih hs)

/-- **A frame that is below another one, and above it, says the same.** -/
lemma Frame.Below.telling (h : f.Below (.rising U held) g) (h' : g.Below (.weak U held) f) :
    f.Below (.telling U held) g :=
  ⟨forall₂_telling (fun _ _ h h' => h.telling h' id) h.stack h'.stack,
    forall₂_telling (fun _ _ h h' => h.telling h') h.locals h'.locals⟩

end Orders

/-! ## Two analyses -/

namespace Plan

variable {p : Plan} {nm : Method} {spans : List HandlerSpan} {entry : Frame}

/-- The analysis of the transformed body is settled. -/
lemma Settles.compared (hS : p.Settles U spans entry) (h : p.Arranged nm) {h₀ h₁ : Hierarchy}
    (hh : h₀.Shows src V)
    {T : FrameTypes}
    (hrun : (Analysis.run { source := src, sink := src.sink, owner := p.subject.owner, method := nm }).run
      h₀ = (.ok T, h₁))
    (hnoted : Site.Noted p.heldAt p.imageSites T.sites)
    (hnews : ∀ (q : Nat) (cls : Text), nm.code[q]? = some ⟨.new, .type cls⟩ → U.builds cls) :
    ∃ spans', p.Compared U nm spans entry spans' T := by
  obtain ⟨spans', hspans, hguards⟩ := h.sound.guards h.lays h.labels hS.spans_eq
  obtain ⟨hmeets, hpassed⟩ := Analysis.run_settles U hh hrun hspans (hS.entryFrame_transformed h)
  obtain ⟨hcert, -⟩ := Analysis.run_certified src.agrees_empty h₀.agrees_empty hrun
  have hsize : 0 < nm.code.size := (Array.getElem?_eq_some_iff.mp (h.lays.prologue 0 (by simp [prologue]))).1
  refine ⟨spans', h, hS, hspans, ⟨hpassed, ?_, ?_⟩, hmeets hsize⟩
  · rintro n hn ⟨s, hs, rfl, hpinned⟩
    rw [(hnoted s hs hn).1] at hpinned
    cases hpinned
  · rintro i f hf t ht n cls copied rfl
    obtain ⟨s, hs, -, rfl⟩ := (hcert.known i f hf).1 _ ht
    exact hnews _ _ (hcert.sites.new_at s hs)

/-- The image of an instruction that loads an element of an array is its whole segment. -/
lemma Arranged.imageAt_load (h : p.Arranged nm) {i : Nat} {instr : Instruction}
    (hcode : p.code[i]? = some instr)
    (hop : instr.opcode = .arrayLoad .ref) (hd : p.isDropped i = false)
    (hdef : p.deferral? i instr = .ok none) :
    p.imageAt i = p.place i := by
  have hseg := h.sound.segment_cases hcode
  generalize hl : p.segmentAt i = l at hseg
  cases hseg with
  | @point pt n hpt hpos =>
      obtain ⟨instr', m, hcode', hcallee, -⟩ := (h.found pt (List.mem_of_getElem? hpt)).call
      have hcode' : p.code[pt.position]? = some instr' := hcode'
      obtain ⟨mode, hinvoke, -⟩ := Instruction.callee?_eq_some hcallee
      rw [hpos, hcode] at hcode'
      cases hcode'
      rw [hop] at hinvoke
      cases hinvoke
  | dropped _ hd' =>
      rw [hd] at hd'
      cases hd'
  | returns _ _ hret =>
      rw [hop] at hret
      cases hret
  | plain => exact imageAt_eq_place (by rw [hl]; rfl)
  | redone _ _ _ hdef' =>
      rw [hdef] at hdef'
      cases hdef'

/-- **At the place of an instruction, and at its image, no less is known than of the image of the frame.** -/
lemma Compared.shown {spans' : List HandlerSpan} {T : FrameTypes} (hC : p.Compared U nm spans entry spans' T)
    {h₁ h₂ : Hierarchy} (hh₁ : h₁.Shows src V)
    (hrun : (Analysis.run
        { source := src, sink := src.sink, owner := p.subject.owner, method := p.subject.method }).run h₁
      = (.ok p.subject.types, h₂))
    (hloads : ∀ array, Analysis.Loads
      { source := src, sink := src.sink, owner := p.subject.owner, method := p.subject.method } h₁ array →
        U.loads array.typeName)
    {i q : Nat} {f : Frame} (hf : p.subject.types.frames[i]? = some (some f)) (hd : p.isDropped i = false)
    (hq : p.Shown i q) : ∃ k, T.frames[q]? = some (some k) ∧ (p.frameImage f).Below (.weak U p.heldAt) k := by
  obtain ⟨k, hk, hle⟩ := hC.rests hh₁ hrun hloads hf
  rcases hq with rfl | ⟨rfl, hdef⟩
  · exact ⟨k, hk, hle⟩
  · obtain ⟨instr, after, hpassed⟩ := hC.settles.passed i f hf
    by_cases hop : instr.opcode = .arrayLoad .ref
    · rw [hC.arranged.imageAt_load hpassed.code_at hop hd (hdef instr hpassed.code_at)]
      exact ⟨k, hk, hle⟩
    have hr : p.RestsBelow U T i f f k := ⟨hf, .refl _ f, hk, by rwa [Frame.trim_self]⟩
    have hbuilds : U.Builds (f.trim f) := by
      rw [Frame.trim_self]
      exact (hC.settles.buildsAll hC.arranged hf).1
    have htr : Frame.Transition p.subject.types.sites i instr (f.trim f) after := by
      rw [Frame.trim_self]
      exact hpassed.transition
    obtain ⟨x, e, e', k', hl⟩ := hC.exists_leaves hr hpassed.code_at htr (fun h => absurd h hop) hbuilds hd
      hpassed
    have hbelow := hl.below
    rw [hl.plain (hdef instr hpassed.code_at), Frame.trim_self] at hbelow
    exact ⟨k', hl.placed, hbelow⟩

/-- **The analysis of a transformed body finds what the analysis of the method finds** at the places of its
instructions. -/
theorem Settles.run_agrees (hS : p.Settles U spans entry) (h : p.Arranged nm) (hends : V.Ends)
    (hnull : ∀ cls, ¬V.Extends cls ClassName.null) {h₀ h₁ h₂ : Hierarchy}
    (hh : h₀.Shows src V) (hh₁ : h₁.Shows src V)
    (hnews : ∀ (q : Nat) (cls : Text), nm.code[q]? = some ⟨.new, .type cls⟩ → U.builds cls)
    (hloads : ∀ array,
      Analysis.Loads { source := src, sink := src.sink, owner := p.subject.owner, method := nm } h₀ array →
        U.loads array.typeName)
    (hrun₁ : (Analysis.run
        { source := src, sink := src.sink, owner := p.subject.owner, method := p.subject.method }).run h₁
      = (.ok p.subject.types, h₂))
    (hloads₁ : ∀ array, Analysis.Loads
      { source := src, sink := src.sink, owner := p.subject.owner, method := p.subject.method } h₁ array →
        U.loads array.typeName) :
    ∃ T h', (Analysis.run { source := src, sink := src.sink, owner := p.subject.owner, method := nm }).run
      h₀ = (.ok T, h')
      ∧ ∀ (i q : Nat) (f : Frame), p.subject.types.frames[i]? = some (some f) → p.isDropped i = false
        → p.Shown i q →
          ∃ k, T.frames[q]? = some (some k) ∧ k.Below (.telling U p.heldAt) (p.frameImage f) := by
  obtain ⟨T, h', hrun, hnoted, hbelow⟩ := hS.run_transformed h hends hnull hh hnews hloads
  obtain ⟨spans', hC⟩ := hS.compared h hh hrun hnoted hnews
  refine ⟨T, h', hrun, fun i q f hf hd hq => ?_⟩
  obtain ⟨k, hk, hle⟩ := hC.shown hh₁ hrun₁ hloads₁ hf hd hq
  exact ⟨k, hk, (hbelow i q f k hf hd hq hk).telling hle⟩

/-- **What is found at the places and images of instructions are the frames there**, up to the classes of
references, as far as constructions are held.  More may be known of a local that is unusable. -/
def Agrees (le : Text → Text → Prop) (p : Plan) (T : FrameTypes) : Prop :=
  ∀ (i q : Nat) (f : Frame), p.subject.types.frames[i]? = some (some f) → p.isDropped i = false → p.Shown i q →
    ∃ k, T.frames[q]? = some (some k) ∧ k.Below ⟨le, p.heldAt, False, True⟩ (p.frameImage f)

end Plan

/-! ## The local of the frame stack -/

/-- An instruction that stores nothing in a local. -/
def Instruction.Spares (n : UInt32) (instr : Instruction) : Prop := ∀ k, instr ≠ ⟨.store k, .slot n⟩

lemma Instruction.Quiet.spares {may : Nat → Prop} {instr : Instruction} {n : UInt32} (h : instr.Quiet may)
    (hn : ¬ may n.toNat) : instr.Spares n := by
  rintro k rfl
  exact hn (h.sets k n rfl rfl)

/-- Instructions one after the other spare the locals that they may not set. -/
lemma Frame.Runs.spares {S : List Site} {may : Nat → Prop} {q : Nat} {f g : Frame} {l : List Instruction}
    {n : UInt32}
    (h : Runs S may q f l g) (hn : ¬ may n.toNat) : ∀ x ∈ l, x.Spares n := by
  induction h with
  | done => simp
  | step hq _ _ ih => exact List.forall_mem_cons.mpr ⟨hq.spares hn, ih⟩

/-- A copy of what is on top of the stack. -/
lemma Frame.Transition.head?_dup {S : List Site} {q : Nat} {f g : Frame} {cls : Text}
    (h : Frame.Transition S q (.plain .dup) f g) (hf : f.stack.head? = some (.ref cls)) :
    g.stack.head? = some (.ref cls) := by
  cases h with
  | plain hs shape =>
      cases shape with
      | dup =>
          rw [hs] at hf
          exact hf
      | fixed hfixed => cases hfixed
      | idle hop => rcases hop with hop | hop <;> cases hop
      | _ => simp_all [Instruction.plain]
  | store hop | begin hop | construct hop => cases hop
  | copy _ hs =>
      rw [hs] at hf
      cases hf

/-- What is on top of the stack is stored. -/
lemma Frame.Transition.getElem?_store {S : List Site} {q : Nat} {f g : Frame} {t : SlotType} {k : Kind}
    {n : UInt32}
    (h : Frame.Transition S q (.slot (.store k) n) f g) (hf : f.stack.head? = some t) :
    g.locals[n.toNat]? = some t := by
  cases h with
  | plain hs shape =>
      cases shape with
      | fixed hfixed => cases hfixed
      | idle hop => rcases hop with hop | hop <;> cases hop
      | _ => simp_all [Instruction.slot]
  | store hop ho hs hn =>
      cases ho
      rw [hs] at hf
      cases hf
      rw [Array.set!_eq_setIfInBounds, Array.getElem?_setIfInBounds_self_of_lt hn]
  | begin hop | construct hop | copy hop => cases hop

/-- What two frames have on top of their stacks, they come to have there. -/
lemma Frame.Joins.head?_stack {f g r : Frame} {t : SlotType} (h : Frame.Joins src V f g r)
    (hf : f.stack.head? = some t) (hg : g.stack.head? = some t) : r.stack.head? = some t := by
  obtain ⟨ts, hts⟩ := List.head?_eq_some_iff.mp hf
  obtain ⟨us, hus⟩ := List.head?_eq_some_iff.mp hg
  have hlen := h.stack_length
  have hstack := h.stack
  rw [hts, hus] at hlen
  have hlen' : ts.reverse.length = us.reverse.length := by simpa using hlen
  rw [hts, hus, List.reverse_cons, List.reverse_cons, List.zip_append hlen'] at hstack
  -- the top is the last entry of the reversed stack
  have hlast := List.forall₂_drop_append _ _ _ hstack.flip
  simp only [List.zip_cons_cons, List.zip_nil_left] at hlast
  generalize hdrop : r.stack.reverse.drop _ = rs at hlast
  cases hlast with
  | @cons _ _ _ _ hj hnil =>
      cases hnil
      rw [← List.getLast?_reverse, Plan.getLast?_of_drop hdrop, hj.self]
      rfl

namespace Plan

variable {p : Plan} {nm m : Method} {owner : Text} {h₀ : Hierarchy}

namespace Arranged

variable (h : p.Arranged nm) {i : Nat} {instr : Instruction}
include h

/-- An instruction of the method has no local of the frame stack. -/
lemma spares_own (hcode : p.code[i]? = some instr) : instr.Spares p.stackVar := by
  rintro k rfl
  obtain ⟨n, hn, hlt⟩ := (h.fits _ (mem_code hcode)).2
  cases hn
  exact absurd hlt (UInt32.lt_irrefl _)

lemma spares_point {n : Nat} {pt : SuspensionPoint} (hpt : p.points[n]? = some pt) :
    ∀ x ∈ p.pointImage pt n, x.Spares p.stackVar := by
  have hfound := h.found pt (List.mem_of_getElem? hpt)
  have hsaving : Runs p.imageSites (fun _ => False) 0 _ _ _ := h.runs_saving hpt
  have hresuming : Runs p.imageSites (· < p.stackVar.toNat) 0 _ _ _ := h.runs_resuming hpt fun j hj => hj
  have hsave := hsaving.spares (n := p.stackVar) id
  have hrestore := hresuming.spares (n := p.stackVar) (Nat.lt_irrefl _)
  have hcall : pt.call.Spares p.stackVar := by
    obtain ⟨instr, m, hcode, -, hcall | ⟨-, hcall⟩, -⟩ := hfound.call
    · rw [hcall]
      exact h.spares_own hcode
    · rw [hcall]
      rintro k ⟨⟩
  have hmark : ∀ id, (Instruction.mark id).Spares p.stackVar := by
    rintro id k ⟨⟩
  unfold pointImage
  simp only [List.forall_mem_append, List.forall_mem_cons] at hsave hrestore ⊢
  refine ⟨⟨⟨⟨⟨⟨⟨hmark _, by simp⟩, hsave.2⟩, ?_⟩, ⟨hmark _, by simp⟩⟩, hrestore.2⟩, ⟨hmark _, by simp⟩⟩, ?_⟩
  · split
    · exact List.forall_mem_cons.mpr ⟨by rintro k ⟨⟩, List.forall_mem_singleton.mpr (by rintro k ⟨⟩)⟩
    · simp
  · split
    · simp
    · exact List.forall_mem_singleton.mpr hcall

/-- **No instruction of a segment stores to the local of the frame stack.** -/
lemma spares_segment (hcode : p.code[i]? = some instr) : ∀ x ∈ p.segmentAt i, x.Spares p.stackVar := by
  have hseg := h.sound.segment_cases hcode
  generalize p.segmentAt i = l at hseg
  cases hseg with
  | point hpt => exact h.spares_point hpt
  | dropped => simp
  | returns =>
      refine List.forall_mem_cons.mpr ⟨fun k => by rintro ⟨⟩, List.forall_mem_cons.mpr
        ⟨fun k => by rintro ⟨⟩, ?_⟩⟩
      simpa using h.spares_own hcode
  | plain => simpa using h.spares_own hcode
  | @redone e _ _ _ hdef =>
      obtain ⟨g, hredoing⟩ : ∃ g, Runs p.imageSites (p.stackVar.toNat < ·) (p.place i)
          ⟨Array.replicate (p.stackVar.toNat + (1 + p.temporaries 0 p.code.toList)) .unusable,
            e.args.map Analysis.settle ++ []⟩
          (spill (p.stackVar + 1) e.args ++ [e.create, e.copy] ++ reload (p.stackVar + 1) e.args) g := by
        refine ⟨_, h.runs_redoing hcode hdef (by simp) (by simp [Function.comp_def]) (fun u hu =>
          ?_) fun _ hj _ => hj⟩
        obtain ⟨t, ht, rfl⟩ := List.mem_map.mp hu
        have hkind := Certified.args h.certified hcode hdef t ht
        exact ⟨by simpa using hkind, SlotType.settle_settle t⟩
      have hrun := hredoing.spares (n := p.stackVar) (Nat.lt_irrefl _)
      exact List.forall_mem_append.mpr ⟨hrun, by simpa using h.spares_own hcode⟩

/-- There are no marks in front of the switch. -/
lemma three_le_of_markAt {t : Nat} (hmark : nm.code.MarkAt t) : 3 ≤ t := by
  obtain ⟨instr, hcode, hmark⟩ := hmark
  by_contra hlt
  have hat := h.lays.prologue t (by rw [length_prologue]; omega)
  rw [Nat.zero_add, hcode] at hat
  obtain rfl | rfl | rfl : t = 0 ∨ t = 1 ∨ t = 2 := by omega
  all_goals
    cases hat
    cases hmark

end Arranged

/-- **Behind the first instructions of a transformed body nothing is stored to the local of the frame
stack.** -/
lemma Makes.spares {h₀ : Hierarchy} (hp : p.Makes src owner m h₀ nm) (h : p.Arranged nm) {q : Nat}
    {x : Instruction}
    (hcode : nm.code[q]? = some x) (hq : 3 ≤ q) : x.Spares p.stackVar := by
  have hbehind : x ∈ p.prologue.drop 3 ++ ((List.range p.code.size).flatMap p.segmentAt ++ p.epilogue) := by
    rw [← List.drop_append_of_le_length (by simp), ← List.append_assoc]
    have hlist : nm.code.toList = p.prologue ++ (List.range p.code.size).flatMap p.segmentAt ++ p.epilogue := by
      rw [(generate_code hp.generate).1]
    rw [← hlist, List.mem_iff_getElem?]
    exact ⟨q - 3, by rw [List.getElem?_drop, Nat.add_sub_cancel' hq, Array.getElem?_toList, hcode]⟩
  rcases List.mem_append.mp hbehind with hx | hx
  · have hall : ∀ x ∈ p.prologue.drop 3, ∀ k n, x ≠ ⟨.store k, .slot n⟩ := by
      simp [prologue, Emit.nextEntry, Instruction.member, Instruction.mark]
    exact fun k => hall x hx k _
  rcases List.mem_append.mp hx with hx | hx
  · obtain ⟨i, hi, hx⟩ := List.mem_flatMap.mp hx
    exact h.spares_segment (Array.getElem?_eq_getElem (List.mem_range.mp hi)) x hx
  · have hall : ∀ x ∈ p.epilogue, ∀ k n, x ≠ ⟨.store k, .slot n⟩ := by
      simp [epilogue, Emit.popMethod, Instruction.member, Instruction.mark, Instruction.slot, Instruction.plain]
    exact fun k => hall x hx k _

/-- The classes that a transformed body constructs are those that the method constructs. -/
lemma Makes.mem_code_of_new {h₀ : Hierarchy} (hp : p.Makes src owner m h₀ nm) {q : Nat} {cls : Text}
    (hcode : nm.code[q]? = some ⟨.new, .type cls⟩) : (⟨.new, .type cls⟩ : Instruction) ∈ p.code.toList := by
  rcases hp.sound.admits hp.certified hp.generate _ (Array.mem_toList_iff.mpr (Array.mem_of_getElem? hcode))
    with h | h
  · exact h
  · exact absurd rfl (h.ne_new cls)

/-- **Where the frame stack is**: on top of the stack of the prologue, and in its local from there on. -/
structure StackAt (p : Plan) (q : Nat) (f : Frame) : Prop where
  top : q = 1 ∨ q = 2 → f.stack.head? = some (.ref ClassName.frameStack)
  held : 3 ≤ q → Emit.HoldsStack p.stackVar f.locals

/-- A frame behind the prologue that has the frame stack in its local. -/
lemma StackAt.behind {q : Nat} {f : Frame} (hq : 3 ≤ q) (hf : Emit.HoldsStack p.stackVar f.locals) :
    p.StackAt q f :=
  ⟨fun h => by omega, fun _ => hf⟩

/-- No handler is in front of the switch. -/
lemma Arranged.three_le_handler (h : p.Arranged nm) {spans' : List HandlerSpan}
    (hspans : Analysis.spans nm.code nm.ranges 0 = .ok spans') {s : HandlerSpan} (hs : s ∈ spans') :
    3 ≤ s.handler := by
  obtain ⟨r, -, hat⟩ := (Analysis.spans_eq_ok hspans).2 s hs
  obtain ⟨-, -, hhandler, -⟩ := Analysis.span_eq_ok hat
  exact h.three_le_of_markAt (Code.markAt_of_markAt? (Code.labelAt?_eq_some_iff.mp hhandler).1)

lemma Makes.inherits_stack {h₀ : Hierarchy} (hp : p.Makes src owner m h₀ nm) (h : p.Arranged nm)
    {spans spans' : List HandlerSpan} (hspans : Analysis.spans nm.code nm.ranges 0 = .ok spans')
    (hguards : ∀ s ∈ spans', p.Guards nm spans s) (S : List Site) :
    @Analysis.Inherits V { source := src, sink := src.sink, owner := p.subject.owner, method := nm }
      (.any src V) S spans'
      p.StackAt where
  joins hf hg _ hjoins := ⟨fun hq => hjoins.head?_stack (hf.top hq) (hg.top hq),
    fun hq => hjoins.getElem?_locals (hf.held hq) (hg.held hq)⟩
  handler hf s hs hstart _ := by
    have hlow := (Settles.guards_bounds h (hguards s hs)).1
    exact .behind (h.three_le_handler hspans hs) (hf.held (by omega))
  step {q f after instr} hf hcode htr _ _ := by
    have hat : nm.code[q]? = some instr := hcode
    have hnext : p.StackAt (q + 1) after ∧ (3 ≤ q → Emit.HoldsStack p.stackVar after.locals) := by
      by_cases hq : 3 ≤ q
      · have hafter : Emit.HoldsStack p.stackVar after.locals :=
          htr.getElem?_locals (hf.held hq) fun k n heq hn =>
          hp.spares h hat hq k (UInt32.toNat_inj.mp hn ▸ heq)
        exact ⟨.behind (by omega) hafter, fun _ => hafter⟩
      · have hcode := h.lays.prologue q (by rw [length_prologue]; omega)
        rw [Nat.zero_add, hat] at hcode
        refine ⟨?_, fun h => absurd h hq⟩
        obtain rfl | rfl | rfl : q = 0 ∨ q = 1 ∨ q = 2 := by omega
        · cases hcode
          obtain ⟨mode, d, used, rest, -, hd, -, -, -, rfl⟩ := htr.of_callee (m := ⟨_, _, _⟩) rfl
          have hparse : Descriptor.parseMethod (Text.ofString "()Lcoro/Stack;") = .ok ⟨[],
            Text.ofString "Lcoro/Stack;"⟩ := rfl
          cases hparse.symm.trans hd
          exact ⟨fun _ => rfl, fun h => by omega⟩
        · cases hcode
          exact ⟨fun _ => htr.head?_dup (hf.top (Or.inl rfl)), fun h => by omega⟩
        · cases hcode
          exact .behind (Nat.le_refl 3) (htr.getElem?_store (hf.top (Or.inr rfl)))
    refine ⟨fun s hs hstart _ => ?_, fun id hid t ht => ?_, fun _ _ => hnext.1⟩
    · have hlow := (Settles.guards_bounds h (hguards s hs)).1
      exact .behind (h.three_le_handler hspans hs) (hnext.2 (by omega))
    · have hmark := Code.markAt_of_markAt? (Code.labelAt?_eq_some_iff.mp ht).1
      refine .behind (h.three_le_of_markAt hmark) (hnext.2 ?_)
      by_contra hq
      have hcode := h.lays.prologue q (by rw [length_prologue]; omega)
      rw [Nat.zero_add, hat] at hcode
      obtain rfl | rfl | rfl : q = 0 ∨ q = 1 ∨ q = 2 := by omega
      all_goals
        cases hcode
        cases hid

end Plan

/-! ## Transformed methods -/

/-- **Transformed methods are well typed**, if neither the fresh labels nor the fresh locals wrap, up to the
classes of references.  The classes are the same, too, where classes extend classes only, none is
constructed that is named like the null constant, and no element of it is loaded. -/
theorem Method.transform_typed {policy : Policy} {owner : Text} {m nm : Method} {h h' : Hierarchy}
    (hends : V.Ends) (hnull : ∀ cls, ¬V.Extends cls ClassName.null) (hh : h.Shows src V)
    (ht : (Method.transform src policy owner m).run h = (.ok (some nm), h')) (howner : owner ≠ [])
    (hm : m.Analyzable) :
    ∃ p : Plan, p.Makes src owner m h nm ∧ (p.LabelsFit → p.LocalsFit → ∀ h₀ : Hierarchy, h₀.Shows src V →
      ∃ T h₁, (Analysis.run { source := src, sink := src.sink, owner, method := nm }).run h₀ = (.ok T, h₁)
        ∧ p.Agrees (fun _ _ => True) T
        ∧ (∀ (q : Nat) (k : Frame), 3 ≤ q → T.frames[q]? = some (some k) →
            k.locals[p.stackVar.toNat]? = some (.ref ClassName.frameStack))
        ∧ (V.Plain → (⟨.new, .type ClassName.null⟩ : Instruction) ∉ m.code.toList →
            (∀ array, Analysis.Loads { source := src, sink := src.sink, owner, method := m } h array →
              array.typeName ≠ ClassName.null) →
            (∀ array, Analysis.Loads { source := src, sink := src.sink, owner, method := nm } h₀ array →
              array.typeName ≠ ClassName.null) → p.Agrees (· = ·) T)) := by
  obtain ⟨p, hp⟩ := Method.transform_makes ht
  refine ⟨p, hp, fun hlabels hlocals h₀ hh₀ => ?_⟩
  have harranged := hp.arranged hh howner hm hlabels hlocals
  obtain ⟨h₁, h₂, hrun, -⟩ := hp.found
  obtain ⟨spans, entry, hS⟩ := hp.settles hh (.any src V) fun _ _ => trivial
  obtain rfl := hp.owner_eq
  obtain rfl := hp.method_eq
  obtain ⟨T, h₃, hrun', hagrees⟩ := hS.run_agrees harranged hends hnull hh₀ hh (fun _ _ _ => trivial)
    (fun _ _ => trivial) hrun fun _ _ => trivial
  refine ⟨T, h₃, hrun', fun i q f hf hd hq => ?_, fun q k hq hk => ?_,
    fun hV hnone hloads hloads' i q f hf hd hq => ?_⟩
  · obtain ⟨k, hk, hle⟩ := hagrees i q f hf hd hq
    exact ⟨k, hk, hle.mono (fun _ => trivial) (fun _ h => h) id id⟩
  · obtain ⟨spans', hspans, hguards⟩ := harranged.sound.guards harranged.lays harranged.labels hS.spans_eq
    exact (Analysis.run_inherits hh₀ hrun' hspans (hS.entryFrame_transformed harranged)
      (hp.inherits_stack harranged hspans hguards _) (fun _ => ⟨fun h => by omega, fun h => by omega⟩)
      (fun _ _ _ => trivial) (fun _ _ => trivial) hk).held hq
  · have hbuilds : ∀ cls, (⟨.new, .type cls⟩ : Instruction) ∈ p.subject.method.code.toList
      → cls ≠ ClassName.null := by
      rintro _ hmem rfl
      exact hnone hmem
    obtain ⟨spans, entry, hS⟩ := hp.settles hh (.under src hends hV) hbuilds
    obtain ⟨T', h₄, hrun'', hexact⟩ := hS.run_agrees harranged hends hnull hh₀ hh
      (fun q cls hat => hbuilds cls (hp.mem_code_of_new hat)) hloads' hrun hloads
    obtain rfl : T' = T := Conclusion.ok.inj (congrArg Prod.fst (hrun''.symm.trans hrun'))
    obtain ⟨k, hk, hle⟩ := hexact i q f hf hd hq
    exact ⟨k, hk, hle.mono (fun h => h.1.antisymm hV h.2) (fun _ h => h) id id⟩

/-- The conditions on a guarded construction hold. -/
lemma guardedNew_analyzable : guardedNew.Analyzable where
  fits := by
    have hformed : ∀ instr ∈ guardedNew.code.toList, instr.WellFormed := by
      unfold Instruction.WellFormed
      decide
    have hfits : ∀ instr ∈ guardedNew.code.toList, instr.Fits guardedNew.maxLocals :=
      (Validation.checkOperands_eq_ok_iff (i := 0)).mp (by decide +kernel)
    exact fun instr hi => ⟨hformed instr hi, hfits instr hi⟩
  reflective := by
    have hnone : ∀ instr ∈ guardedNew.code.toList,
        (instr.callee?.filter Member.isReflective).isNone = true := by decide +kernel
    intro instr hi callee hc hreflective
    have := hnone instr hi
    simp [hc, hreflective] at this
  receiver := fun h => by cases h

/-- Nothing is loaded from an array by code that loads nothing. -/
lemma Analysis.not_loads {ctx : AnalysisContext} {h : Hierarchy} {array : SlotType}
    (hnone : ∀ instr ∈ ctx.method.code.toList, instr.opcode ≠ .arrayLoad .ref) : ¬ Loads ctx h array := by
  rintro ⟨_, _, i, _, _, instr, _, _, -, -, -, -, hcode, hop, -⟩
  exact hnone instr (Array.mem_toList_iff.mpr (Array.mem_of_getElem? hcode)) hop

/-- Where nothing is known of classes, no class extends another. -/
lemma ClassView.not_extends_empty (cls s : Text) : ¬ ClassView.Extends ({} : ClassSource).entryOf cls s := by
  rintro ⟨-, h⟩
  cases h

set_option maxRecDepth 100000 in
/-- The theorem at a method whose construction is left out of the record and redone. -/
theorem guardedNew_typed : ∃ nm h' p T h₁,
    (Method.transform {} {} "A" guardedNew).run {} = (.ok (some nm), h')
      ∧ Plan.Makes {} "A" guardedNew {} p nm ∧ p.LabelsFit ∧ p.LocalsFit
      ∧ (Analysis.run { source := {}, sink := {}, owner := "A", method := nm }).run {} = (.ok T, h₁)
      ∧ p.Agrees (· = ·) T := by
  have hcomputed : (((Method.transform {} {} "A" guardedNew).run {}).1.toOption.join.any fun nm =>
      nm.code.toList.all fun instr => instr.opcode != .arrayLoad .ref) = true
      ∧ guardedNew.leavesRoom {} "A" {} 4 = true := by decide +kernel
  obtain ⟨nm, h', ht, hall⟩ := Conclusion.exists_some hcomputed.1
  have hextends := ClassView.not_extends_empty
  obtain ⟨p, hp, htyped⟩ := Method.transform_typed (V := ({} : ClassSource).entryOf)
    ⟨fun cls => ⟨_, fun s hs => absurd hs (hextends _ _)⟩⟩ (fun cls => hextends cls _)
      (Hierarchy.shows_empty {}) ht
    (by decide) guardedNew_analyzable
  have hfit := hp.numbersFit hcomputed.2
  obtain ⟨T, h₁, hrun, -, -, hexact⟩ := htyped hfit.labels hfit.locals {} (Hierarchy.shows_empty {})
  refine ⟨nm, h', p, T, h₁, ht, hp, hfit.labels, hfit.locals, hrun,
    hexact ⟨fun cls => hextends cls _, fun hs => absurd hs (hextends _ _)⟩ (by decide)
      (fun array h => absurd h (Analysis.not_loads (by decide))) fun array h =>
        absurd h (Analysis.not_loads ?_)⟩
  exact fun instr hi => by simpa using List.all_eq_true.mp hall instr hi

/-- A call by reflection without a receiver, above a number. -/
def receiverless : Method where
  name := "f"
  desc := "()V"
  flags := Flag.staticBit
  code := #[.plain .pushNull, .int 0, .plain .pushNull, .plain .pushNull,
    .member (.invoke .static) reflectedMethod "invoke" reflectedDesc, .plain .pop, .plain .pop,
      .plain .returnVoid]

set_option maxRecDepth 100000 in
/-- **A transformed method that is not well typed**: the call that stands in for its call by reflection,
which is what it is declared as, takes the number as a receiver. -/
theorem Method.transform_mistyped : ∃ nm h' p,
    (Method.transform {} {} "A" receiverless).run {} = (.ok (some nm), h')
      ∧ Plan.Makes {} "A" receiverless {} p nm ∧ p.LabelsFit ∧ p.LocalsFit ∧ receiverless.isStatic = true
      ∧ (∀ instr ∈ receiverless.code.toList, ∀ callee, instr.callee? = some callee
        → callee.isReflective = true →
          callee.desc = reflectedDesc)
      ∧ ∀ T h₁, (Analysis.run { source := {}, sink := {}, owner := "A", method := nm }).run {} ≠ (.ok T,
        h₁) := by
  have hcomputed : (((Method.transform {} {} "A" receiverless).run {}).1.toOption.join.any fun nm =>
      ((Analysis.run { source := {}, sink := {}, owner := "A", method := nm }).run {}).1.toOption.isNone) = true
      ∧ receiverless.leavesRoom {} "A" {} 4 = true := by
    decide +kernel
  obtain ⟨nm, h', ht, hfails⟩ := Conclusion.exists_some hcomputed.1
  obtain ⟨p, hp⟩ := Method.transform_makes ht
  have hfit := hp.numbersFit hcomputed.2
  refine ⟨nm, h', p, ht, hp, hfit.labels, hfit.locals, rfl, fun instr hi callee hc _ => ?_, fun T h₁ hrun => ?_⟩
  · simp only [receiverless, List.mem_cons, List.not_mem_nil, or_false] at hi
    rcases hi with rfl | rfl | rfl | rfl | rfl | rfl | rfl | rfl
    case inr.inr.inr.inr.inl =>
      obtain rfl := Option.some.inj hc
      rfl
    all_goals cases hc
  · rw [hrun] at hfails
    cases hfails

end Suspension
