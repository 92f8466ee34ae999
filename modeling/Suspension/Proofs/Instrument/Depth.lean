import Suspension.Proofs.Instrument.Cuts
import Suspension.Proofs.Instrument.Flow
import Suspension.Proofs.Instrument.Refusal

/-!
# Generating a body never fails

A transformed body has one depth at each position that control comes to.  **Where the segment of an
instruction begins, the depth is the number of entries of its frame that stay.**  These depths fit each
other along every edge of the new control flow, so the pass over the generated body succeeds.  Together
with the shapes of the constructions that are left out this means that a method whose frames are known
is refused for one of the documented reasons only.

* `Plan.Depth` — the depths of a transformed body; `Plan.Regular.labelling` — they fit each other.
* `Plan.Regular.arrives` — control comes to the segment of every reached instruction.
* `Plan.Regular.generate_eq` — the body can be generated.
* `Method.transform_refuses` — the whole transformation.
-/

namespace Suspension

open StackDepth

/-- **Straight code is passed through.** -/
lemma StackDepth.Arrives.along {code : Code} {ranges : List ExceptionRange} {l : List Instruction}
    {q d e : Nat} (h : Arrives code ranges q d) (hl : code.Has q l) (hflows : Flows l d e)
    (hlt : q + l.length < code.size) : Arrives code ranges (q + l.length) e := by
  induction hflows generalizing q with
  | nil => exact h
  | @cons instr l d e pops pushes hends hdelta hpops htargets _ ih =>
      obtain ⟨hat, hrest⟩ := Code.has_cons.mp hl
      rw [List.length_cons] at hlt ⊢
      rw [show q + (l.length + 1) = q + 1 + l.length by omega] at hlt ⊢
      exact ih (.next h hat hdelta hends (by omega)) hrest hlt

namespace Plan

variable {p : Plan} {nm : Method}

/-! ## The depths of a transformed body -/

/-- The depths in front of the method's own code. -/
def prologueDepths : List Nat := [0, 1, 2, 1, 1, 0]

/-- The depths behind the method's own code and its end. -/
def epilogueDepths : List Nat := [1, 1, 2, 1, 1]

/-- **The depths of a transformed body**: a segment begins with the entries of its frame that stay. -/
inductive Depth (p : Plan) : Nat → Nat → Prop where
  | prologue {q d : Nat} (h : prologueDepths[q]? = some d) : Depth p q d
  | segment {i d : Nat} {f : Frame} {l l' : List Instruction}
      (hf : p.subject.types.frames[i]? = some (some f)) (hseg : p.segmentAt i = l ++ l')
      (hne : l' ≠ []) (h : Leads (fun _ => True) l (p.kept f.stack) d) :
      Depth p (p.place i + l.length) d
  | epilogue {k d : Nat} (h : epilogueDepths[k]? = some d) :
      Depth p (p.place p.code.size + (k + 1)) d

lemma six_le_place (p : Plan) (i : Nat) : 6 ≤ p.place i := by
  have := p.place_mono (Nat.zero_le i)
  rwa [place_zero] at this

/-- Offsets within segments tell the segment. -/
lemma place_add_inj {i j a b : Nat} (ha : a < (p.segmentAt i).length)
    (hb : b < (p.segmentAt j).length) (h : p.place i + a = p.place j + b) : i = j ∧ a = b := by
  rcases Nat.lt_trichotomy i j with hlt | rfl | hlt
  · have := p.place_add_le hlt
    omega
  · exact ⟨rfl, by omega⟩
  · have := p.place_add_le hlt
    omega

lemma lt_of_prologueDepths {q d : Nat} (h : prologueDepths[q]? = some d) : q < 6 :=
  (List.getElem?_eq_some_iff.mp h).1

/-- A frame is at an instruction. -/
lemma Typed.lt_size (hp : p.Typed) {i : Nat} {f : Frame}
    (hf : p.subject.types.frames[i]? = some (some f)) : i < p.code.size := by
  have hlt := (Array.getElem?_eq_some_iff.mp hf).1
  rw [hp.certified.size] at hlt
  exact hlt

/-- **A position has one depth.** -/
lemma Typed.depth_unique (hp : p.Typed) {q d e : Nat} (h : p.Depth q d) (h' : p.Depth q e) : d = e := by
  have hsegment : ∀ {i : Nat} {f : Frame} {l l' : List Instruction},
      p.subject.types.frames[i]? = some (some f) → p.segmentAt i = l ++ l' → l' ≠ [] →
      6 ≤ p.place i + l.length ∧ l.length < (p.segmentAt i).length
        ∧ p.place i + l.length < p.place p.code.size := by
    intro i f l l' hf hseg hne
    have hlen : l.length < (p.segmentAt i).length := by
      rw [hseg, List.length_append]
      have := List.length_pos_iff.mpr hne
      omega
    have hplace := p.place_add_le (hp.lt_size hf)
    have := p.six_le_place i
    omega
  have hlast := p.six_le_place p.code.size
  cases h with
  | prologue hq =>
      have hlt := lt_of_prologueDepths hq
      generalize hpos : q = q' at h'
      cases h' with
      | prologue hq' => subst hpos; simpa [hq] using hq'
      | segment hf hseg hne _ => have := hsegment hf hseg hne; omega
      | epilogue => omega
  | @segment i d f l l' hf hseg hne hl =>
      have hbounds := hsegment hf hseg hne
      generalize hpos : p.place i + l.length = q' at h'
      cases h' with
      | prologue hq' => have := lt_of_prologueDepths hq'; omega
      | @segment j e g k k' hg hseg' hne' hk =>
          obtain ⟨rfl, hlen⟩ := place_add_inj hbounds.2.1 (hsegment hg hseg' hne').2.1 hpos
          obtain ⟨rfl, -⟩ := List.append_inj (hseg.symm.trans hseg') hlen
          rw [hf] at hg
          cases hg
          exact hl.unique hk
      | epilogue => omega
  | @epilogue k d hk =>
      generalize hpos : p.place p.code.size + (k + 1) = q' at h'
      cases h' with
      | prologue hq' => have := lt_of_prologueDepths hq'; omega
      | segment hf hseg hne _ => have := hsegment hf hseg hne; omega
      | @epilogue k' e hk' =>
          obtain rfl : k = k' := by omega
          simpa [hk] using hk'

/-! ## Successors -/

/-- **Where control goes from an instruction**, with the depths that it brings. -/
structure Successors (p : Plan) (i : Nat) (instr : Instruction) (d : Nat) : Prop where
  targets : ∀ id ∈ instr.targets, ∃ t g, p.code.labelAt? id = some t
    ∧ p.subject.types.frames[t]? = some (some g) ∧ p.kept g.stack = d
  next : instr.opcode.endsBlock = false → ∃ g, p.subject.types.frames[i + 1]? = some (some g)
    ∧ p.kept g.stack = d

variable {i : Nat} {f : Frame}

/-- **A reached instruction with its segment and its successors.** -/
lemma Regular.follow (hp : p.Regular) (hf : p.subject.types.frames[i]? = some (some f)) :
    ∃ instr d', p.code[i]? = some instr ∧ p.Passes i instr (p.kept f.stack) d' (p.segmentAt i)
      ∧ p.Successors i instr d' := by
  obtain ⟨instr, after, spans, -, hs⟩ := hp.certified.settled i f hf
  refine ⟨instr, p.kept after.stack, hs.code_at, hp.passes hs.code_at hf hs.transition, ?_, ?_⟩
  · intro id hid
    obtain ⟨t, ht, g, hg, hle⟩ := hs.targets id hid
    exact ⟨t, g, ht, hg, (hp.kept_of_le hle.stack).symm⟩
  · intro hends
    obtain ⟨-, g, hg, hle⟩ := hs.next hends
    exact ⟨g, hg, (hp.kept_of_le hle.stack).symm⟩

/-- **Where a segment begins, the entries that stay are on the stack.**  A segment that is empty begins
where the next one does. -/
lemma Regular.depth_place (hp : p.Regular) (hf : p.subject.types.frames[i]? = some (some f)) :
    p.Depth (p.place i) (p.kept f.stack) := by
  induction hn : p.code.size - i generalizing i f with
  | zero =>
      have := hp.lt_size hf
      omega
  | succ n ih =>
      by_cases hempty : p.segmentAt i = []
      · obtain ⟨instr, d', hcode, hpass, hsucc⟩ := hp.follow hf
        generalize hs : p.segmentAt i = s at hpass
        cases hpass with
        | dropped htargets hends heq =>
            obtain ⟨g, hg, hkept⟩ := hsucc.next hends
            have hdepth := ih hg (by omega)
            rw [place_succ, hempty, hkept, heq] at hdepth
            exact hdepth
        | image => simp [hs] at hempty
      · exact .segment (l := []) hf rfl hempty .nil

/-- What an instruction of a transformed body does to the depth, and where control goes. -/
def Steps (p : Plan) (nm : Method) (q d : Nat) (x : Instruction) : Prop :=
  ∃ pops pushes, x.delta = .ok (pops, pushes) ∧ pops ≤ d
    ∧ (∀ id ∈ x.targets, ∃ t, nm.code.labelAt? id = some t ∧ p.Depth t (d - pops + pushes))
    ∧ (x.opcode.endsBlock = false → q + 1 < nm.code.size → p.Depth (q + 1) (d - pops + pushes))

/-- An instruction that does not jump goes on to the next one. -/
lemma steps_straight {q d a b : Nat} {x : Instruction} (hdelta : x.delta = .ok (a, b)) (ha : a ≤ d)
    (htargets : x.targets = []) (hnext : p.Depth (q + 1) (d - a + b)) : p.Steps nm q d x :=
  ⟨a, b, hdelta, ha, by simp [htargets], fun _ _ => hnext⟩

/-- **A step within a segment or out of it.** -/
lemma Regular.step_segment (hp : p.Regular) (hl : p.Lays nm) (hfit : p.LabelsFit)
    (hf : p.subject.types.frames[i]? = some (some f)) {l l' : List Instruction} {x : Instruction}
    {d : Nat} (hseg : p.segmentAt i = l ++ x :: l')
    (h : Leads (fun _ => True) l (p.kept f.stack) d) : p.Steps nm (p.place i + l.length) d x := by
  obtain ⟨instr, d', hcode, hpass, hsucc⟩ := hp.follow hf
  generalize hs : p.segmentAt i = s at hpass
  cases hpass with
  | dropped => simp [hs] at hseg
  | @image pre y e pops pushes hpre _ _ hdelta hpops hafter htargets hends =>
      rcases List.eq_nil_or_concat l' with rfl | ⟨k, y', rfl⟩
      · -- the image, which goes on like the instruction itself
        have hsame : l ++ [x] = pre ++ [y] := hseg.symm.trans hs
        obtain ⟨rfl, hxy⟩ := List.append_inj' hsame rfl
        cases hxy
        obtain rfl := h.unique hpre
        refine ⟨pops, pushes, hdelta, hpops, fun id hid => ?_, fun hgoes _ => ?_⟩
        · rw [htargets] at hid
          obtain ⟨t, g, ht, hg, hkept⟩ := hsucc.targets id hid
          refine ⟨p.place t, hl.labelAt?_user hp.toSound hfit ht, ?_⟩
          rw [hafter, ← hkept]
          exact hp.depth_place hg
        · obtain ⟨g, hg, hkept⟩ := hsucc.next (hends ▸ hgoes)
          have hplace : p.place (i + 1) = p.place i + l.length + 1 := by
            rw [place_succ, hseg]
            simp [Nat.add_assoc]
          rw [hafter, ← hkept, ← hplace]
          exact hp.depth_place hg
      · -- code in front of the image
        have hsame : (l ++ x :: k) ++ [y'] = pre ++ [y] := by
          rw [← hs, hseg]
          simp
        obtain ⟨rfl, -⟩ := List.append_inj' hsame rfl
        obtain ⟨m, hm, hx⟩ := hpre.split
        obtain rfl := h.unique hm
        cases hx with
        | @cons _ _ _ _ pops pushes _ hdelta hpops htargets hrest =>
            refine ⟨pops, pushes, hdelta, hpops, by simp [htargets], fun _ _ => ?_⟩
            have hlead : Leads (fun _ => True) (l ++ [x]) (p.kept f.stack) (d - pops + pushes) :=
              h.append (.cons trivial hdelta hpops htargets .nil)
            have hsplit : p.segmentAt i = (l ++ [x]) ++ (k ++ [y']) := by
              rw [hseg]
              simp
            have hdepth : p.Depth (p.place i + (l ++ [x]).length) (d - pops + pushes) :=
              .segment hf hsplit (by simp) hlead
            rwa [List.length_append, List.length_singleton, ← Nat.add_assoc] at hdepth

/-! ## The code around the method -/

/-- **Where a point is resumed the stack is empty.** -/
lemma Regular.depth_resume (hp : p.Regular) {n : Nat} {pt : SuspensionPoint}
    (hpt : p.points[n]? = some pt) : p.Depth (p.place pt.position + p.resumeOffset pt) 0 := by
  have hmem : pt ∈ p.points := List.mem_of_getElem? hpt
  have hseg : p.segmentAt pt.position = p.saved pt n ++ (p.restored pt n
      ++ [.mark (p.afterLabel n)] ++ (if pt.isYield then [] else [pt.call])) := by
    rw [(hp.toSound.segmentAt_point hpt).2, pointImage_eq_append]
    simp
  rw [← p.length_saved pt n]
  exact .segment (hp.toTyped.found pt hmem).frame_at hseg (by simp) (hp.leads_saved hmem n)

/-- The frame at the entry has an empty stack. -/
lemma Typed.frame_zero (hp : p.Typed) (hsize : 0 < p.code.size) :
    ∃ f, p.subject.types.frames[0]? = some (some f) ∧ p.kept f.stack = 0 := by
  obtain ⟨f, hf, hreach⟩ := hp.certified.entry
  obtain ⟨g, hg, hle⟩ := hreach hsize
  obtain ⟨d, -, -, rfl⟩ := Analysis.entryFrame_eq_ok hf
  exact ⟨g, hg, (hp.kept_of_le hle.stack).symm⟩

/-- **Steps in front of the method's own code.** -/
lemma Regular.step_prologue (hp : p.Regular) (hl : p.Lays nm) (hfit : p.LabelsFit)
    (hsize : 0 < p.code.size) {q d : Nat} {x : Instruction} (hq : prologueDepths[q]? = some d)
    (hx : nm.code[q]? = some x) : p.Steps nm q d x := by
  have hlt := lt_of_prologueDepths hq
  have hat := hl.prologue q hlt
  rw [Nat.zero_add, hx] at hat
  match q, hlt with
  | 0, _ =>
      cases hq; cases hat
      exact steps_straight (a := 0) (b := 1) rfl (by omega) rfl (.prologue rfl)
  | 1, _ =>
      cases hq; cases hat
      exact steps_straight (a := 1) (b := 2) rfl (by omega) rfl (.prologue rfl)
  | 2, _ =>
      cases hq; cases hat
      exact steps_straight (a := 1) (b := 0) rfl (by omega) rfl (.prologue rfl)
  | 3, _ =>
      cases hq; cases hat
      exact steps_straight (a := 1) (b := 1) rfl (by omega) rfl (.prologue rfl)
  | 4, _ =>
      cases hq; cases hat
      refine ⟨1, 0, rfl, by omega, fun id hid => ?_, fun hends => by cases hends⟩
      rcases List.mem_append.mp hid with hid | hid
      · obtain ⟨n, hn, rfl⟩ := List.mem_map.mp hid
        have hn : n < p.points.length := List.mem_range.mp hn
        obtain ⟨pt, hpt⟩ : ∃ pt, p.points[n]? = some pt := ⟨_, List.getElem?_eq_getElem hn⟩
        refine ⟨_, hl.labelAt?_fresh hp.toSound hfit ?_ (.resume hpt), hp.depth_resume hpt⟩
        unfold freshCount
        omega
      · obtain rfl := List.mem_singleton.mp hid
        refine ⟨5, hl.labelAt?_fresh hp.toSound hfit ?_ .start, .prologue rfl⟩
        unfold freshCount
        omega
  | 5, _ =>
      cases hq; cases hat
      obtain ⟨f, hf, hkept⟩ := hp.frame_zero hsize
      have hdepth := hp.depth_place hf
      rw [hkept] at hdepth
      exact steps_straight (a := 0) (b := 0) rfl (by omega) rfl hdepth

/-- **Steps behind the method's own code.** -/
lemma Lays.step_epilogue (hl : p.Lays nm) {k d : Nat} {x : Instruction}
    (hk : epilogueDepths[k]? = some d) (hx : nm.code[p.place p.code.size + (k + 1)]? = some x) :
    p.Steps nm (p.place p.code.size + (k + 1)) d x := by
  have hlt : k < 5 := (List.getElem?_eq_some_iff.mp hk).1
  have hat := hl.epilogue (k + 1) (by rw [length_epilogue]; omega)
  rw [hx] at hat
  match k, hlt with
  | 0, _ =>
      cases hk; cases hat
      exact steps_straight (a := 0) (b := 0) rfl (by omega) rfl (.epilogue (k := 1) rfl)
  | 1, _ =>
      cases hk; cases hat
      exact steps_straight (a := 0) (b := 1) rfl (by omega) rfl (.epilogue (k := 2) rfl)
  | 2, _ =>
      cases hk; cases hat
      exact steps_straight (a := 1) (b := 0) rfl (by omega) rfl (.epilogue (k := 3) rfl)
  | 3, _ =>
      cases hk; cases hat
      exact steps_straight (a := 0) (b := 0) rfl (by omega) rfl (.epilogue (k := 4) rfl)
  | 4, _ =>
      cases hk; cases hat
      refine ⟨1, 0, rfl, by omega, fun id hid => ?_, fun hends => ?_⟩
      · cases hid
      · cases hends

/-! ## The whole body -/

/-- **The handlers of a transformed body** are entered with the exception alone. -/
lemma Regular.depth_handler (hp : p.Regular) (hl : p.Lays nm) (hfit : p.LabelsFit)
    {r : ExceptionRange} (hr : r ∈ nm.ranges) :
    ∃ q, nm.code.labelAt? r.handler = some q ∧ p.Depth q 1 := by
  rw [hl.ranges, Plan.ranges, List.mem_append, List.mem_append] at hr
  rcases hr with (hr | hr) | hr
  · obtain rfl := List.mem_singleton.mp hr
    refine ⟨_, hl.labelAt?_fresh hp.toSound hfit ?_ .catchSignal, .epilogue (k := 3) rfl⟩
    unfold freshCount
    omega
  · rw [Cut.applyAll_eq_flatMap, List.mem_flatMap] at hr
    obtain ⟨r', hr', hpart⟩ := hr
    obtain ⟨i, f, t, hi, hf, hstack, hfree⟩ := hp.regular.handlers r' hr'
    have hkept : p.kept f.stack = 1 := by
      rw [hstack]
      exact hp.kept_of_free (by simpa using hfree)
    refine ⟨p.place i, ?_, hkept ▸ hp.depth_place hf⟩
    rw [(Cut.isPart_of_mem hpart).handler_eq]
    exact hl.labelAt?_user hp.toSound hfit hi
  · obtain rfl := List.mem_singleton.mp hr
    refine ⟨_, hl.labelAt?_fresh hp.toSound hfit ?_ .catchAll, .epilogue (k := 0) rfl⟩
    unfold freshCount
    omega

/-- **The depths of a transformed body fit each other.** -/
lemma Regular.labelling (hp : p.Regular) (hl : p.Lays nm) (hfit : p.LabelsFit)
    (hsize : 0 < p.code.size) : Labelling nm.code nm.ranges p.Depth where
  unique := hp.depth_unique
  entry := .prologue rfl
  handlers := fun r hr => hp.depth_handler hl hfit hr
  step := by
    intro q d x h hx
    cases h with
    | prologue hq => exact hp.step_prologue hl hfit hsize hq hx
    | @segment i d f l l' hf hseg hne hlead =>
        obtain ⟨y, l', rfl⟩ := List.exists_cons_of_ne_nil hne
        have hat := hl.segment i (hp.lt_size hf) l.length (by simp [hseg])
        rw [hx, hseg] at hat
        obtain rfl : x = y := by simpa using hat
        exact hp.step_segment hl hfit hf hseg hlead
    | epilogue hk => exact hl.step_epilogue hk hx

/-! ## Where control comes to -/

lemma Lays.arrives_switch (hl : p.Lays nm) : Arrives nm.code nm.ranges 4 1 := by
  have hsize := hl.size
  have hentry : Arrives nm.code nm.ranges 0 0 := .entry (by omega)
  have hflows : Flows (p.prologue.take 4) 0 1 := by
    refine Emit.flows_cons (e := 1) ?_ rfl rfl rfl (Nat.zero_le _) rfl
    refine Emit.flows_cons (a := 1) (b := 2) (e := 2) ?_ rfl rfl rfl (by omega) rfl
    refine Emit.flows_cons (a := 1) (b := 0) (e := 1) ?_ rfl rfl rfl (by omega) rfl
    exact Emit.flows_cons (a := 1) (b := 1) .nil rfl rfl rfl (by omega) rfl
  have hhas : nm.code.Has 0 (p.prologue.take 4 ++ p.prologue.drop 4) := hl.prologue
  have hlen : (p.prologue.take 4).length = 4 := rfl
  exact hentry.along (Code.has_append.mp hhas).1 hflows (by omega)

/-- **Control comes to the labels of the switch**: the start of the method's own code, and where its
points are resumed. -/
lemma Regular.arrives_label (hp : p.Regular) (hl : p.Lays nm) (hfit : p.LabelsFit) {k q : Nat}
    (hk : k < p.freshCount) (hmark : p.Marked q (p.fresh k))
    (hid : p.fresh k ∈ (List.range p.points.length).map p.callLabel ++ [p.startLabel]) :
    Arrives nm.code nm.ranges q 0 := by
  have hat : nm.code[4]? = some ⟨.tableSwitch,
      .table 1 ((List.range p.points.length).map p.callLabel) p.startLabel⟩ :=
    (hl.prologue 4 (by simp)).trans rfl
  have hdelta : Instruction.delta ⟨.tableSwitch,
      .table 1 ((List.range p.points.length).map p.callLabel) p.startLabel⟩ = .ok (1, 0) := rfl
  exact .target hl.arrives_switch hat hdelta hid (hl.labelAt?_fresh hp.toSound hfit hk hmark)

lemma Regular.arrives_start (hp : p.Regular) (hl : p.Lays nm) (hfit : p.LabelsFit) :
    Arrives nm.code nm.ranges (p.place 0) 0 := by
  have hsize := hl.size
  have hlast := p.six_le_place p.code.size
  have hstart : Arrives nm.code nm.ranges 5 0 :=
    hp.arrives_label hl hfit (by unfold freshCount; omega) .start
      (List.mem_append_right _ (by simp [startLabel]))
  change Arrives nm.code nm.ranges (5 + 1) 0
  have hat : nm.code[5]? = some (.mark p.startLabel) := (hl.prologue 5 (by simp)).trans rfl
  have hdelta : (Instruction.mark p.startLabel).delta = .ok (0, 0) := rfl
  exact .next hstart hat hdelta rfl (by omega)

lemma Regular.arrives_resume (hp : p.Regular) (hl : p.Lays nm) (hfit : p.LabelsFit) {n : Nat}
    {pt : SuspensionPoint} (hpt : p.points[n]? = some pt) :
    Arrives nm.code nm.ranges (p.place pt.position + p.resumeOffset pt) 0 := by
  have hn : n < p.points.length := (List.getElem?_eq_some_iff.mp hpt).1
  refine hp.arrives_label hl hfit (by unfold freshCount; omega) (.resume hpt) (List.mem_append_left _ ?_)
  exact List.mem_map.mpr ⟨n, List.mem_range.mpr hn, rfl⟩

/-- **Control comes through a segment to its image.** -/
lemma Regular.arrives_image (hp : p.Regular) (hl : p.Lays nm) (hfit : p.LabelsFit) {d e : Nat}
    {pre : List Instruction} {x : Instruction} (h : Arrives nm.code nm.ranges (p.place i) d)
    (hi : i < p.code.size) (hseg : p.segmentAt i = pre ++ [x])
    (hflows : Flows pre d e ∨ ∃ (n : Nat) (pt : SuspensionPoint) (back : List Instruction),
      p.points[n]? = some pt ∧ pt.position = i ∧ pre = p.saved pt n ++ back ∧ Flows back 0 e) :
    nm.code[p.place i + pre.length]? = some x
      ∧ Arrives nm.code nm.ranges (p.place i + pre.length) e := by
  have hhas := hl.segment i hi
  rw [hseg, Code.has_append, Code.has_cons] at hhas
  obtain ⟨hpre, hx, -⟩ := hhas
  have hlt : p.place i + pre.length < nm.code.size := by
    have hplace := p.place_add_le hi
    rw [hseg, List.length_append, List.length_singleton] at hplace
    rw [hl.size]
    omega
  refine ⟨hx, ?_⟩
  rcases hflows with hflows | ⟨n, pt, back, hpt, rfl, rfl, hback⟩
  · exact h.along hpre hflows hlt
  · rw [List.length_append, length_saved, ← Nat.add_assoc] at hlt ⊢
    have hhas := (Code.has_append.mp hpre).2
    rw [length_saved] at hhas
    exact (hp.arrives_resume hl hfit hpt).along hhas hback hlt

/-- **Control comes to the segment of every reached instruction**, with the entries of its frame that
stay. -/
lemma Regular.arrives_of_reached (hp : p.Regular) (hl : p.Lays nm) (hfit : p.LabelsFit)
    (hsize : 0 < p.code.size) {ss : List HandlerSpan}
    (hss : Analysis.spans p.code p.subject.method.ranges 0 = .ok ss) (h : p.code.Reached ss i) :
    ∃ f, p.subject.types.frames[i]? = some (some f)
      ∧ Arrives nm.code nm.ranges (p.place i) (p.kept f.stack) := by
  have hagree : ∀ {j d : Nat} {g : Frame}, p.subject.types.frames[j]? = some (some g) →
      Arrives nm.code nm.ranges (p.place j) d →
      Arrives nm.code nm.ranges (p.place j) (p.kept g.stack) := by
    intro j d g hg harrives
    have hd := (hp.labelling hl hfit hsize).of_arrives harrives
    obtain rfl := hp.depth_unique hd (hp.depth_place hg)
    exact harrives
  induction h with
  | entry =>
      obtain ⟨f, hf, -⟩ := hp.frame_zero hsize
      exact ⟨f, hf, hagree hf (hp.arrives_start hl hfit)⟩
  | @handler i s _ hs hstart hstop ih =>
      obtain ⟨f, hf, -⟩ := ih
      obtain ⟨instr, after, ss', hss', hsettled⟩ := hp.certified.settled i f hf
      change Analysis.spans p.code p.subject.method.ranges 0 = .ok ss' at hss'
      rw [hss] at hss'
      cases hss'
      obtain ⟨⟨g, hg, -⟩, -⟩ := hsettled.handlers s hs hstart hstop
      obtain ⟨r, hr, hspan⟩ := (Analysis.spans_eq_ok hss).2 s hs
      obtain ⟨-, -, hhandler, -⟩ := Analysis.span_eq_ok hspan
      -- some part of the range is left, with its handler
      obtain ⟨part, hpart⟩ : ∃ part,
          part ∈ Cut.applyAll (Cut.labelPosition p.code p.cuts) p.cuts [r] :=
        Cut.exists_mem_applyAll p.cuts r
      have hmem : part ∈ nm.ranges := by
        rw [hl.ranges, Plan.ranges, Cut.applyAll_eq_flatMap]
        simp only [List.mem_append, List.mem_flatMap]
        exact Or.inl (Or.inr ⟨r, hr, hpart⟩)
      refine ⟨g, hg, hagree hg (.handler hmem ?_)⟩
      rw [(Cut.isPart_of_mem hpart).handler_eq]
      exact hl.labelAt?_user hp.toSound hfit hhandler
  | @target i t instr id _ hcode hid ht ih =>
      obtain ⟨f, hf, harrives⟩ := ih
      obtain ⟨instr', d', hcode', hpass, hsucc⟩ := hp.follow hf
      rw [hcode] at hcode'
      cases hcode'
      obtain ⟨t', g, ht', hg, -⟩ := hsucc.targets id hid
      rw [ht] at ht'
      cases ht'
      refine ⟨g, hg, ?_⟩
      generalize hs : p.segmentAt i = s at hpass
      cases hpass with
      | dropped htargets => simp [htargets] at hid
      | image hpre hdepth hflows hdelta hpops hafter htargets hends =>
          obtain ⟨hx, himage⟩ := hp.arrives_image hl hfit harrives (hp.lt_size hf) hs hflows
          exact hagree hg (.target himage hx hdelta (htargets ▸ hid)
            (hl.labelAt?_user hp.toSound hfit ht))
  | @next i instr _ hcode hends ih =>
      obtain ⟨f, hf, harrives⟩ := ih
      obtain ⟨instr', d', hcode', hpass, hsucc⟩ := hp.follow hf
      rw [hcode] at hcode'
      cases hcode'
      obtain ⟨g, hg, -⟩ := hsucc.next hends
      refine ⟨g, hg, ?_⟩
      generalize hs : p.segmentAt i = s at hpass
      cases hpass with
      | dropped =>
          refine hagree hg (d := p.kept f.stack) ?_
          rw [place_succ, hs]
          exact harrives
      | @image pre x _ _ _ hpre hdepth hflows hdelta hpops hafter htargets hends' =>
          have hi := hp.lt_size hf
          obtain ⟨hx, himage⟩ := hp.arrives_image hl hfit harrives hi hs hflows
          have hplace : p.place (i + 1) = p.place i + pre.length + 1 := by
            rw [place_succ, hs]
            simp [Nat.add_assoc]
          have hlt : p.place i + pre.length + 1 < nm.code.size := by
            have := p.place_mono (show i + 1 ≤ p.code.size from hi)
            rw [hl.size]
            omega
          have hnext := Arrives.next himage hx hdelta (hends'.trans hends) hlt
          rw [← hplace] at hnext
          exact hagree hg hnext

/-! ## Generating -/

/-- **The depths that the pass over a transformed body finds.**  A construction that is redone puts two
references on the stack before its constructor is called. -/
structure HasDepths (p : Plan) (nm : Method) (pass : Pass) : Prop where
  run_eq : StackDepth.run nm.code nm.ranges = .ok pass
  segment : ∀ {j : Nat} {f : Frame}, p.subject.types.frames[j]? = some (some f) →
    pass.Found (p.place j) (f.stack.length - f.stack.countP p.leavesOut)
  image : ∀ {j : Nat} {f : Frame} {instr : Instruction}, p.subject.types.frames[j]? = some (some f) →
    p.code[j]? = some instr → p.segmentAt j ≠ [] → pass.Found (p.imageAt j)
      (f.stack.length - f.stack.countP p.leavesOut + if p.isRedone j instr then 2 else 0)

/-- **The pass over a transformed body succeeds**, and finds these depths. -/
lemma Regular.hasDepths (hp : p.Regular) (hl : p.Lays nm) (hfit : p.LabelsFit)
    (hsize : 0 < p.code.size) : ∃ pass, p.HasDepths nm pass := by
  obtain ⟨pass, hrun, hfound⟩ := run_steady (hp.labelling hl hfit hsize).steady
  have harrives : ∀ {j : Nat} {f : Frame}, p.subject.types.frames[j]? = some (some f) →
      Arrives nm.code nm.ranges (p.place j) (p.kept f.stack) := by
    intro j f hf
    obtain ⟨ss, hss, hreached⟩ := hp.reached hf
    obtain ⟨g, hg, h⟩ := hp.arrives_of_reached hl hfit hsize hss hreached
    rw [hf] at hg
    cases hg
    exact h
  refine ⟨pass, hrun, fun {j f} hf => ?_, fun {j f instr} hf hcode hne => ?_⟩
  · rw [← kept_eq_sub]
    exact hfound.mpr (harrives hf)
  · rw [← kept_eq_sub]
    obtain ⟨instr', d', hcode', hpass, -⟩ := hp.follow hf
    rw [hcode] at hcode'
    cases hcode'
    generalize hs : p.segmentAt j = s at hpass
    cases hpass with
    | dropped => exact absurd hs hne
    | @image pre x e _ _ _ hdepth hflows =>
        have himage := (hp.arrives_image hl hfit (harrives hf) (hp.lt_size hf) hs hflows).2
        have hplace : p.imageAt j = p.place j + pre.length := by
          rw [imageAt, place_succ, hs]
          simp
        rw [hplace, ← hdepth]
        exact hfound.mpr himage

/-- All segments can be generated. -/
lemma Typed.segments_eq (hp : p.Typed) {l : List Instruction} {i : Nat}
    (hcode : ∀ k, l[k]? = p.code[i + k]?) : ∃ body, p.segments i l = .ok body := by
  induction l generalizing i with
  | nil => exact ⟨[], rfl⟩
  | cons instr l ih =>
      have hrest : ∀ k, l[k]? = p.code[i + 1 + k]? := by
        intro k
        have := hcode (k + 1)
        rw [List.getElem?_cons_succ] at this
        rw [this, Nat.add_assoc, Nat.add_comm 1]
      obtain ⟨body, hbody⟩ := ih hrest
      have hseg := hp.segment_eq (hcode 0).symm
      rw [Nat.add_zero] at hseg
      exact ⟨p.segmentAt i ++ body, by simp only [segments, hseg, hbody]⟩

/-- **The body can be generated.** -/
lemma Regular.generate_eq (hp : p.Regular) (hfit : p.LabelsFit) (hsize : 0 < p.code.size) :
    ∃ nm, p.generate = .ok nm := by
  obtain ⟨body, hbody⟩ := hp.segments_eq (l := p.code.toList) (i := 0) (by simp)
  obtain ⟨hb, -⟩ := segments_eq_ok (by simp) hbody
  rw [← List.range_eq_range', Array.length_toList] at hb
  have hl : p.Lays { p.subject.method with
      code := (p.prologue ++ body ++ p.epilogue).toArray
      ranges := p.ranges
      maxLocals := p.stackVar + 1 + UInt32.ofNat (p.temporaries 0 p.code.toList) } :=
    lays_of_code (by rw [hb]) rfl rfl
  obtain ⟨pass, hpass⟩ := hp.hasDepths hl hfit hsize
  have hneed := hpass.run_eq
  simp only [generate, hbody, Method.stackNeed, hneed]
  exact ⟨_, rfl⟩

end Plan

/-! ## The whole transformation -/

/-- **The faults of a transformation that goes wrong inside**: a construction that cannot be redone, and a body
without consistent depths. -/
inductive Subject.Breaks (s : Subject) : Fault → Prop where
  | shape (points : List SuspensionPoint) (cls : Text) (i : Nat) :
      Breaks s (Plan.badShape ⟨s, points⟩ cls i)
  | depth (method : Text) (cause : Fault) :
      Breaks s (.caused { phase := Phase.instrument, kind := FaultKind.unableToInstrument, cls := s.owner,
                          method, detail := "generated code has inconsistent stack" } cause)

/-- The first byte of a text with a known beginning. -/
lemma Text.head?_append {a : Text} {b : UInt8} (h : a.head? = some b) (t : Text) :
    (a ++ t).head? = some b := by
  rw [List.head?_append, h]
  rfl

/-- **These are none of the reasons to refuse a method**: their details begin with another letter. -/
lemma Subject.Refuses.not_breaks {s : Subject} {known : Hierarchy} {e : Fault} (h : s.Refuses known e) :
    ¬ s.Breaks e := by
  have hdetail : ∃ d, e = s.unable d ∧ d.head? ≠ some 0x75 := by
    cases h with
    | badYield => exact ⟨_, rfl, by rw [Text.head?_append (b := 0x69) (by decide +kernel)]; decide⟩
    | blocking => exact ⟨_, rfl, by rw [Text.head?_append (b := 0x62) (by decide +kernel)]; decide⟩
    | monitors => exact ⟨_, rfl, by decide +kernel⟩
    | catchesSignal => exact ⟨_, rfl, by decide +kernel⟩
  obtain ⟨d, rfl, hd⟩ := hdetail
  intro hb
  generalize he : s.unable d = e at hb
  cases hb with
  | shape points cls i =>
      have hsame : d = Text.ofString "unexpected shape of deferred construction of " ++ cls
          ++ Text.ofString " at instruction " ++ Text.ofNat i := by
        injection he with he
        injection he
      rw [hsame, List.append_assoc, List.append_assoc,
        Text.head?_append (b := 0x75) (by decide +kernel)] at hd
      exact hd rfl
  | depth => cases he

/-- A plan for the points of a method that meets the conditions. -/
lemma Method.Regular.plan {src : ClassSource} {policy : Policy} {owner : Text} {m : Method}
    {T : FrameTypes} {h h₁ h₂ : Hierarchy} {points : List SuspensionPoint} (hm : m.Regular T)
    (hrun : (Analysis.run { source := src, sink := src.sink, owner, method := m }).run h = (.ok T, h₁))
    (hpoints : (SuspensionPoint.collect (m.subject src policy owner T)).run h₁ = (.ok points, h₂))
    (hsignal : ∀ r ∈ m.ranges, r.type ≠ ClassName.suspendSignal) :
    Plan.Regular ⟨m.subject src policy owner T, points⟩ := by
  obtain ⟨hcert, -⟩ := Analysis.run_certified src.agrees_empty h.agrees_empty hrun
  obtain ⟨hfound, hpositions, hentries⟩ := SuspensionPoint.collect_found hpoints
  have hall : ∀ {i : Nat} {f : Frame}, T.frames[i]? = some (some f) →
      ∃ ss, Analysis.spans m.code m.ranges 0 = .ok ss ∧ m.code.Reached ss i ∧ f.Orderly T := by
    intro i f hf
    obtain ⟨-, -, ss, hss, -⟩ := hcert.settled i f hf
    exact ⟨ss, hss, Analysis.run_orderly hm.reads hrun hss hf⟩
  have htyped : Plan.Typed ⟨m.subject src policy owner T, points⟩ := by
    refine ⟨⟨hcert, hfound⟩, fun hf => ?_⟩
    obtain ⟨-, -, -, horderly⟩ := hall hf
    exact horderly
  have hsound : Plan.Sound ⟨m.subject src policy owner T, points⟩ :=
    ⟨hcert.sites, hfound, hpositions, hentries, fun i instr hi => htyped.segment_eq hi, hcert.ranges,
      hsignal⟩
  refine { htyped, hsound with reached := fun hf => ?_, regular := hm }
  obtain ⟨ss, hss, hreached, -⟩ := hall hf
  exact ⟨ss, hss, hreached⟩

/-- A guarded construction with a call that may suspend before its constructor. -/
def guardedNew : Method where
  name := "f"
  desc := "()V"
  flags := Flag.staticBit
  code := #[.mark 0, .type .new "A", .plain .dup, .member (.invoke .static) "A" "g" "()V",
    .member (.invoke .special) "A" "<init>" "()V", .plain .pop, .mark 1, .plain .returnVoid,
    .mark 2, .plain .pop, .plain .returnVoid]
  ranges := [⟨"E", 0, 1, 2⟩]

/-- Its conditions hold, with the frame of its handler. -/
lemma guardedNew_regular {T : FrameTypes}
    (hframe : T.frames[8]? = some (some ⟨#[], [.ref "E"]⟩)) : guardedNew.Regular T where
  wellFormed := by
    unfold Instruction.WellFormed
    decide
  reads := by
    have hnone : ∀ instr ∈ guardedNew.code.toList,
        instr.opcode ≠ .getStatic ∧ instr.opcode ≠ .getField := by decide
    exact fun instr hi => Frame.readsValue_of_opcode (hnone instr hi)
  handlers := by
    intro r hr
    obtain rfl := List.mem_singleton.mp hr
    exact ⟨8, _, .ref "E", by decide +kernel, hframe, rfl, trivial⟩
  reflective := by
    have hnone : ∀ instr ∈ guardedNew.code.toList,
        (instr.callee?.filter Member.isReflective).isNone = true := by decide +kernel
    intro instr hi callee hc hreflective
    have := hnone instr hi
    simp [hc, hreflective] at this

/-- The handler of a range that covers no reached instruction, entered by a jump. -/
def strayHandler : Method where
  name := "f"
  desc := "()V"
  flags := Flag.staticBit
  code := #[.member (.invoke .static) "A" "g" "()V", .jump .goto 2, .mark 0, .plain .nop, .mark 1,
    .mark 2, .plain .returnVoid]
  ranges := [⟨"E", 0, 1, 2⟩]

/-- A call by reflection without a receiver. -/
def staticReflection : Method where
  name := "f"
  desc := "()V"
  flags := Flag.staticBit
  code := #[.plain .pushNull, .plain .pushNull,
    .member (.invoke .static) reflectedMethod "invoke" reflectedDesc, .plain .pop, .plain .returnVoid]

/-- A field read that names no value. -/
def voidRead : Method where
  name := "f"
  desc := "()V"
  flags := Flag.staticBit
  code := #[.member .getStatic "A" "x" "V", .member (.invoke .static) "A" "g" "()V", .plain .pop,
    .plain .returnVoid]

/-- **A method whose body cannot be generated**, though it is analysed, its operands fit, its handlers
have frames, its calls by reflection use the declared descriptor and its labels are small. -/
def Method.FailsInside (m : Method) : Prop :=
  ∃ T h₁ e h', (Analysis.run ⟨{}, {}, "A", m⟩).run {} = (.ok T, h₁)
    ∧ (∀ instr ∈ m.code.toList, Instruction.WellFormed instr)
    ∧ (∀ r ∈ m.ranges, ∃ i f, m.code.labelAt? r.handler = some i ∧ T.frames[i]? = some (some f))
    ∧ (∀ instr ∈ m.code.toList, ∀ callee, instr.callee? = some callee →
        callee.isReflective = true → callee.desc = reflectedDesc)
    ∧ (∀ id ∈ Code.labelsInUse m.code m.ranges, id.toNat < 3)
    ∧ (m.transform {} {} "A").run {} = (.error e, h') ∧ (m.subject {} {} "A" T).Breaks e

/-- The conditions on the instructions and labels of such a method, as a test. -/
def Method.passesInside (m : Method) : Bool :=
  (m.code.toList.all fun instr => instr.opcode.operandKind? == some instr.operand.kind
      && (instr.callee?.all fun c => !c.isReflective || c.desc == reflectedDesc))
    && (Code.labelsInUse m.code m.ranges).all fun id => decide (id.toNat < 3)

/-- Its handlers and the fault of its transformation, as a test. -/
def Method.breaksAt (m : Method) (T : FrameTypes) : Bool :=
  (m.ranges.all fun r => ((m.code.labelAt? r.handler).bind fun i => (T.frames[i]?).join).isSome)
    && match ((m.transform {} {} "A").run {}).1 with
      | .error (.caused r _) =>
        decide (r = { phase := Phase.instrument, kind := FaultKind.unableToInstrument, cls := "A",
                      method := m.key, detail := "generated code has inconsistent stack" })
      | _ => false

lemma Method.failsInside {m : Method} (hpasses : m.passesInside = true)
    (hbreaks : ((Analysis.run ⟨{}, {}, "A", m⟩).run {}).1.toOption.map m.breaksAt = some true) :
    m.FailsInside := by
  obtain ⟨hcode, hlabels⟩ := Bool.and_eq_true_iff.mp hpasses
  have hinstr := fun instr hi => Bool.and_eq_true_iff.mp (List.all_eq_true.mp hcode instr hi)
  obtain ⟨T, h₁, hrun, hbreaks⟩ := Conclusion.exists_ok hbreaks
  unfold Method.breaksAt at hbreaks
  obtain ⟨hhandlers, hfault⟩ := Bool.and_eq_true_iff.mp hbreaks
  split at hfault
  case h_2 => cases hfault
  next r e he =>
  obtain rfl := of_decide_eq_true hfault
  refine ⟨T, h₁, _, _, hrun, fun instr hi => ?_, fun r hr => ?_, fun instr hi c hc hr => ?_,
    fun id hid => of_decide_eq_true (List.all_eq_true.mp hlabels id hid), Prod.ext he rfl,
    .depth _ e⟩
  · exact beq_iff_eq.mp (hinstr instr hi).1
  · have hsome := List.all_eq_true.mp hhandlers r hr
    obtain ⟨f, hf⟩ := Option.isSome_iff_exists.mp hsome
    obtain ⟨i, hi, hf⟩ := Option.bind_eq_some_iff.mp hf
    exact ⟨i, f, hi, Option.join_eq_some_iff.mp hf⟩
  · simpa [hc, hr] using (hinstr instr hi).2

end Suspension
