import Suspension.Proofs.Instrument.Cuts
import Suspension.Proofs.Instrument.Marks
import Suspension.Proofs.Machine.Step

/-!
# Exception dispatch in a transformed body

**An exception is caught in a transformed method where it is caught in the method itself**: at the
image of an instruction the parts of exactly those ranges apply that protect the instruction.  The
suspend signal passes all of them, what no range catches pops the record, and the code that saves and
restores a frame is protected by none of the method's own ranges.

* `Plan.Survives` — an instruction has an image.
* `Plan.Dispatches` — how a transformed method dispatches exceptions.
* `Method.transform_dispatches` — every transformed method does.
-/

namespace Suspension

/-- A search that looks for each element in a list of its own. -/
lemma find?_flatMap_eq_bind {α β : Type} {P : β → Bool} {Q : α → Bool} {g : α → List β}
    {l : List α} (h : ∀ a ∈ l, (∃ b ∈ g a, P b = true) ↔ Q a = true) :
    (l.flatMap g).find? P = (l.find? Q).bind fun a => (g a).find? P := by
  induction l with
  | nil => rfl
  | cons a l ih =>
      have ih := ih fun b hb => h b (List.mem_cons_of_mem a hb)
      rw [List.flatMap_cons, List.find?_append, ih]
      have ha := h a List.mem_cons_self
      cases hQ : Q a with
      | true =>
          obtain ⟨b, hb, hP⟩ := ha.mpr hQ
          have hsome : ((g a).find? P).isSome := List.find?_isSome.mpr ⟨b, hb, hP⟩
          rw [List.find?_cons_of_pos hQ, Option.or_of_isSome hsome]
          rfl
      | false =>
          have hnone : (g a).find? P = none := by
            refine List.find?_eq_none.mpr fun b hb hP => ?_
            rw [ha.mp ⟨b, hb, hP⟩] at hQ
            cases hQ
          rw [List.find?_cons_of_neg (by simp [hQ]), hnone, Option.none_or]

namespace Plan

variable {p : Plan} {nm : Method}

/-! ## Positions of labels -/

/-- The labels that the ends of parts may be. -/
inductive Boundary (p : Plan) : Label → Nat → Nat → Prop where
  | user {id : Label} {i : Nat} (h : p.code.labelAt? id = some i) :
      Boundary p id (p.code.skipMarks i) (p.place i)
  | before {n : Nat} {pt : SuspensionPoint} (h : p.points[n]? = some pt) :
      Boundary p (p.beforeLabel n) pt.position (p.place pt.position)
  | after {n : Nat} {pt : SuspensionPoint} (h : p.points[n]? = some pt) :
      Boundary p (p.afterLabel n) pt.position (p.place pt.position + p.afterOffset pt)

/-- Where cutting takes a label to be. -/
def cutPosition (p : Plan) (id : Label) : Nat := Cut.labelPosition p.code p.cuts id

lemma mem_cuts {c : Cut} : c ∈ p.cuts ↔ ∃ n pt, p.points[n]? = some pt
    ∧ c = ⟨pt.position, p.beforeLabel n, p.afterLabel n⟩ := by
  unfold cuts
  simp only [List.mem_map, Prod.exists, List.mem_zipIdx_iff_getElem?]
  constructor
  · rintro ⟨pt, n, h, rfl⟩
    exact ⟨n, pt, h, rfl⟩
  · rintro ⟨n, pt, h, rfl⟩
    exact ⟨pt, n, h, rfl⟩

/-- The number of a point is below the number of points, and so are its labels. -/
lemma number_lt {n : Nat} {pt : SuspensionPoint} (h : p.points[n]? = some pt) :
    2 * n < p.freshCount ∧ 2 * n + 1 < p.freshCount := by
  have hlt := (List.getElem?_eq_some_iff.mp h).1
  unfold freshCount
  omega

lemma LabelsFit.findSome?_cuts (hf : p.LabelsFit) {n k : Nat} {pt : SuspensionPoint}
    (h : p.points[n]? = some pt) (hk : k = 2 * n ∨ k = 2 * n + 1) :
    p.cuts.findSome? (·.position? (p.fresh k)) = some pt.position := by
  obtain ⟨h₀, h₁⟩ := number_lt h
  have hkn : k < p.freshCount := by omega
  cases hfind : p.cuts.findSome? (·.position? (p.fresh k)) with
  | none =>
      have hnone := List.findSome?_eq_none_iff.mp hfind _ (mem_cuts.mpr ⟨n, pt, h, rfl⟩)
      rcases hk with rfl | rfl <;> simp [Cut.position?, beforeLabel, afterLabel] at hnone
  | some i =>
      obtain ⟨c, hc, hpos⟩ := List.exists_of_findSome?_eq_some hfind
      obtain ⟨n', pt', h', rfl⟩ := mem_cuts.mp hc
      obtain ⟨h₀', h₁'⟩ := number_lt h'
      unfold Cut.position? at hpos
      split at hpos
      · next heq =>
          simp only [Bool.or_eq_true, beq_iff_eq] at heq
          have hnn : n' = n := by
            rcases heq with heq | heq
            · have := hf.fresh_inj hkn h₀' heq
              omega
            · have := hf.fresh_inj hkn h₁' heq
              omega
          subst hnn
          rw [h] at h'
          cases h'
          exact hpos.symm
      · cases hpos

lemma mem_labelsInUse_of_labelAt? {id : Label} {i : Nat} (h : p.code.labelAt? id = some i) :
    id ∈ Code.labelsInUse p.code p.subject.method.ranges :=
  mem_labelsInUse_of_markAt? (Code.labelAt?_eq_some_iff.mp h).1

/-- **Where a boundary is**, for cutting and in the transformed body. -/
lemma Boundary.positions (hl : p.Lays nm) (hp : p.Sound) (hf : p.LabelsFit) {id : Label} {i q : Nat}
    (h : p.Boundary id i q) : p.cutPosition id = i ∧ nm.labelPosition id = q := by
  unfold cutPosition Cut.labelPosition Method.labelPosition
  cases h with
  | user h =>
      have hnone : p.cuts.findSome? (·.position? id) = none := by
        refine List.findSome?_eq_none_iff.mpr fun c hc => ?_
        obtain ⟨n, pt, hn, rfl⟩ := mem_cuts.mp hc
        obtain ⟨h₀, h₁⟩ := number_lt hn
        have hb := hf.ne_fresh (mem_labelsInUse_of_labelAt? h) h₀
        have ha := hf.ne_fresh (mem_labelsInUse_of_labelAt? h) h₁
        simp [Cut.position?, beforeLabel, afterLabel, hb, ha]
      rw [hnone, hl.labelAt?_user hp hf h, h]
      exact ⟨rfl, rfl⟩
  | before h =>
      obtain ⟨h₀, h₁⟩ := number_lt h
      rw [beforeLabel, hf.findSome?_cuts h (Or.inl rfl), hl.labelAt?_fresh hp hf h₀ (.before h)]
      exact ⟨rfl, rfl⟩
  | after h =>
      obtain ⟨h₀, h₁⟩ := number_lt h
      rw [afterLabel, hf.findSome?_cuts h (Or.inr rfl), hl.labelAt?_fresh hp hf h₁ (.after h)]
      exact ⟨rfl, rfl⟩

lemma afterOffset_lt (hp : p.Sound) {n : Nat} {pt : SuspensionPoint} (h : p.points[n]? = some pt) :
    p.place pt.position + p.afterOffset pt < p.place (pt.position + 1) := by
  rw [place_succ, (hp.segmentAt_point h).2, length_pointImage]
  omega

/-- **A boundary lies in front of a place exactly when it lies in front of the instruction that the
place belongs to.**  Only the label behind a saved region divides the segment it is in. -/
lemma Boundary.le_iff (hp : p.Sound) {id : Label} {i b j q : Nat} (h : p.Boundary id i b)
    (hj : ¬ p.code.MarkAt j) (hlow : p.place j ≤ q) (hhigh : q < p.place (j + 1))
    (hafter : ∀ (n : Nat) (pt : SuspensionPoint), p.points[n]? = some pt → pt.position = j →
      id = p.afterLabel n → p.place j + p.afterOffset pt ≤ q) : b ≤ q ↔ i ≤ j := by
  have hmono : ∀ i, p.place i ≤ q ↔ i ≤ j := by
    intro i
    constructor
    · intro hle
      by_contra hlt
      have := p.place_mono (show j + 1 ≤ i by omega)
      omega
    · intro hle
      exact Nat.le_trans (p.place_mono hle) hlow
  cases h with
  | user h => rw [hmono, Code.skipMarks_le_iff hj]
  | before h => exact hmono _
  | after h =>
      next n pt =>
      have hlt := afterOffset_lt hp h
      constructor
      · intro hle
        exact (hmono _).mp (by omega)
      · intro hle
        rcases Nat.lt_or_eq_of_le hle with hle | heq
        · have := p.place_mono (show pt.position + 1 ≤ j by omega)
          omega
        · have := hafter n pt h heq rfl
          rw [heq]
          exact this

/-! ## Images -/

/-- **An instruction survives the transformation**: it is no mark, it is not dropped, and it is no
request to suspend. -/
structure Survives (p : Plan) (j : Nat) (instr : Instruction) : Prop where
  code_at : p.code[j]? = some instr
  noMark : instr.isMark = false
  kept : p.isDropped j = false
  noYield : ∀ pt ∈ p.points, pt.position = j → pt.isYield = false

variable {j q : Nat} {instr : Instruction}

lemma Survives.not_markAt (h : p.Survives j instr) : ¬ p.code.MarkAt j := by
  rintro ⟨instr', hj, hmark⟩
  rw [h.code_at] at hj
  cases hj
  rw [h.noMark] at hmark
  cases hmark

lemma Survives.lt (h : p.Survives j instr) : j < p.code.size :=
  (Array.getElem?_eq_some_iff.mp h.code_at).1

/-- **The segment of an instruction that survives** ends with the instruction, or with the call that
stands in for it; the segment of a point has its saved region in front of that. -/
lemma Survives.segment (hp : p.Sound) (h : p.Survives j instr) :
    ∃ pre img, p.segmentAt j = pre ++ [img]
      ∧ (img = instr ∨ img = reflectInvoke ∧ ∃ m, instr.callee? = some m ∧ m.isReflective = true)
      ∧ ∀ (n : Nat) (pt : SuspensionPoint), p.points[n]? = some pt → pt.position = j →
          pre.length = p.afterOffset pt + 1 := by
  have hseg := hp.segment_cases h.code_at
  have hnone : p.pointAt? j = none →
      ∀ (n : Nat) (pt : SuspensionPoint), p.points[n]? = some pt → pt.position ≠ j := by
    intro hpt n pt hn hpos
    have := hp.pointAt?_position hn
    rw [hpos, hpt] at this
    cases this
  generalize p.segmentAt j = l at hseg
  cases hseg with
  | point hn hpos =>
      next pt n =>
      have hyield := h.noYield pt (List.mem_of_getElem? hn) hpos
      obtain ⟨save, restore, call, -, -, hcall, hs, hr, himage⟩ := p.pointImage_eq pt n
      rw [hyield] at hcall
      refine ⟨.mark (p.beforeLabel n) :: (save ++ .mark (p.callLabel n)
          :: (restore ++ [.mark (p.afterLabel n)])), pt.call, ?_, ?_, ?_⟩
      · rw [himage, hcall]
        simp
      · obtain ⟨instr', m, hcode, hcallee, hcall, -⟩ :=
          (hp.found pt (List.mem_of_getElem? hn)).call
        have hcode : p.code[pt.position]? = some instr' := hcode
        rw [hpos, h.code_at] at hcode
        cases hcode
        rcases hcall with hcall | ⟨hrefl, hcall⟩
        · exact Or.inl hcall
        · exact Or.inr ⟨hcall, m, hcallee, hrefl⟩
      · intro n' pt' hn' hpos'
        obtain ⟨rfl, rfl⟩ := hp.point_unique hn hn' (hpos.trans hpos'.symm)
        simp only [List.length_cons, List.length_append, List.length_nil]
        omega
  | dropped hpt hd =>
      rw [h.kept] at hd
      cases hd
  | returns hpt =>
      exact ⟨[.slot (.load .ref) p.stackVar, Emit.popMethod], instr, rfl, Or.inl rfl,
        fun n pt hn hpos => absurd hpos (hnone hpt n pt hn)⟩
  | plain hpt =>
      exact ⟨[], instr, rfl, Or.inl rfl, fun n pt hn hpos => absurd hpos (hnone hpt n pt hn)⟩
  | redone hpt =>
      exact ⟨_, instr, rfl, Or.inl rfl, fun n pt hn hpos => absurd hpos (hnone hpt n pt hn)⟩

/-- **A place within the segment of an instruction**, behind the saved region if there is one. -/
structure Within (p : Plan) (j q : Nat) : Prop where
  lt : j < p.code.size
  noMark : ¬ p.code.MarkAt j
  low : p.place j ≤ q
  high : q < p.place (j + 1)
  behind : ∀ (n : Nat) (pt : SuspensionPoint), p.points[n]? = some pt → pt.position = j →
    p.place j + p.afterOffset pt ≤ q

/-- **The image of an instruction** is within the segment of the instruction. -/
lemma Survives.image (hl : p.Lays nm) (hp : p.Sound) (h : p.Survives j instr) :
    p.Within j (p.imageAt j) ∧ ∃ img, nm.code[p.imageAt j]? = some img
      ∧ (img = instr ∨ img = reflectInvoke ∧ ∃ m, instr.callee? = some m ∧ m.isReflective = true) := by
  obtain ⟨pre, img, hseg, himg, hpre⟩ := h.segment hp
  have hplace : p.imageAt j = p.place j + pre.length := by
    unfold imageAt
    rw [place_succ, hseg]
    simp
  have hnext : p.place (j + 1) = p.place j + pre.length + 1 := by
    rw [place_succ, hseg]
    simp [Nat.add_assoc]
  refine ⟨⟨h.lt, h.not_markAt, by omega, by omega, fun n pt hn hpos => ?_⟩, img, ?_, himg⟩
  · have := hpre n pt hn hpos
    omega
  · rw [hplace, hl.segment j h.lt pre.length (by simp [hseg]), hseg]
    simp

/-! ## Parts of ranges -/

/-- The parts of a range. -/
def parts (p : Plan) (r : ExceptionRange) : List ExceptionRange :=
  Cut.applyAll p.cutPosition p.cuts [r]

/-- The range that lets the suspend signal pass. -/
def signalRange (p : Plan) : ExceptionRange :=
  ⟨ClassName.suspendSignal, p.startLabel, p.endLabel, p.catchSignalLabel⟩

/-- The range that catches whatever leaves the method. -/
def catchAllRange (p : Plan) : ExceptionRange := ⟨[], p.startLabel, p.endLabel, p.catchAllLabel⟩

lemma ranges_eq (p : Plan) :
    p.ranges = p.signalRange :: (p.subject.method.ranges.flatMap p.parts ++ [p.catchAllRange]) := by
  have h : Cut.applyAll (Cut.labelPosition p.code p.cuts) p.cuts p.subject.method.ranges
      = p.subject.method.ranges.flatMap p.parts := Cut.applyAll_eq_flatMap _ _
  unfold ranges
  rw [h]
  rfl

lemma placed_cuts (hl : p.Lays nm) (hp : p.Sound) (hf : p.LabelsFit) :
    Cut.Placed p.cutPosition p.cuts := by
  intro c hc
  obtain ⟨n, pt, h, rfl⟩ := mem_cuts.mp hc
  exact ⟨((Boundary.before h).positions hl hp hf).1, ((Boundary.after h).positions hl hp hf).1⟩

lemma Sound.sorted_cuts (hp : p.Sound) : p.cuts.Pairwise fun c d => c.position < d.position := by
  unfold cuts
  rw [List.pairwise_map]
  refine List.pairwise_iff_getElem.mpr fun a b ha hb hab => ?_
  have := List.pairwise_iff_getElem.mp hp.positions a b (by simpa using ha) (by simpa using hb) hab
  simpa using this

/-- The labels of a range are marked. -/
lemma Sound.range_labels (hp : p.Sound) {r : ExceptionRange}
    (hr : r ∈ p.subject.method.ranges) : (∃ i, p.code.labelAt? r.start = some i)
      ∧ (∃ i, p.code.labelAt? r.stop = some i) ∧ ∃ i, p.code.labelAt? r.handler = some i := by
  obtain ⟨s, hs⟩ := hp.ranges r hr
  obtain ⟨h₁, h₂, h₃, -⟩ := Analysis.span_eq_ok hs
  exact ⟨⟨_, h₁⟩, ⟨_, h₂⟩, ⟨_, h₃⟩⟩

/-- **The ends of a part are boundaries.**  No part ends behind a saved region. -/
lemma Sound.part_ends (hp : p.Sound) (hf : p.LabelsFit) {r s : ExceptionRange}
    (hr : r ∈ p.subject.method.ranges) (hs : s ∈ p.parts r) :
    (∃ i b, p.Boundary s.start i b) ∧ (∃ i b, p.Boundary s.stop i b)
      ∧ ∀ (n : Nat) (pt : SuspensionPoint), p.points[n]? = some pt → s.stop ≠ p.afterLabel n := by
  have hpart := Cut.isPart_of_mem hs
  obtain ⟨⟨i, hi⟩, ⟨k, hk⟩, -⟩ := hp.range_labels hr
  refine ⟨?_, ?_, fun n pt hn => ?_⟩
  · rcases hpart.start with h | ⟨c, hc, h⟩
    · rw [h]
      exact ⟨_, _, .user hi⟩
    · obtain ⟨n, pt, hn, rfl⟩ := mem_cuts.mp hc
      rw [h]
      exact ⟨_, _, .after hn⟩
  · rcases hpart.stop with h | ⟨c, hc, h⟩
    · rw [h]
      exact ⟨_, _, .user hk⟩
    · obtain ⟨n, pt, hn, rfl⟩ := mem_cuts.mp hc
      rw [h]
      exact ⟨_, _, .before hn⟩
  · obtain ⟨-, h₁⟩ := number_lt hn
    rcases hpart.stop with h | ⟨c, hc, h⟩
    · rw [h]
      exact hf.ne_fresh (mem_labelsInUse_of_labelAt? hk) h₁
    · obtain ⟨n', pt', hn', rfl⟩ := mem_cuts.mp hc
      obtain ⟨h₀', -⟩ := number_lt hn'
      intro heq
      rw [h] at heq
      have := hf.fresh_inj h₀' h₁ heq
      omega

/-- Boundaries lie between prologue and epilogue. -/
lemma Boundary.bounds (hp : p.Sound) {id : Label} {i b : Nat} (h : p.Boundary id i b) :
    6 ≤ b ∧ b ≤ p.place p.code.size := by
  have hlow : ∀ i, 6 ≤ p.place i := fun i => p.place_mono (Nat.zero_le i)
  cases h with
  | user h => exact ⟨hlow _, p.place_mono (Nat.le_of_lt (Code.labelAt?_lt h))⟩
  | before h =>
      exact ⟨hlow _, p.place_mono (Nat.le_of_lt (hp.segmentAt_point h).1)⟩
  | after h =>
      next n pt =>
      have hlt := afterOffset_lt hp h
      have hmono := p.place_mono (show pt.position + 1 ≤ p.code.size from (hp.segmentAt_point h).1)
      have := hlow pt.position
      omega

/-- **Within the segment of an instruction** a part applies exactly when it covers the instruction. -/
lemma Within.covers_iff (hl : p.Lays nm) (hp : p.Sound) (hf : p.LabelsFit) (h : p.Within j q)
    {r s : ExceptionRange} (hr : r ∈ p.subject.method.ranges) (hs : s ∈ p.parts r) :
    Cut.Covers nm.labelPosition s q ↔ Cut.Covers p.cutPosition s j := by
  obtain ⟨⟨i, b, hstart⟩, ⟨k, d, hstop⟩, -⟩ := hp.part_ends hf hr hs
  obtain ⟨hi, hb⟩ := hstart.positions hl hp hf
  obtain ⟨hk, hd⟩ := hstop.positions hl hp hf
  have h₁ := hstart.le_iff hp h.noMark h.low h.high fun n pt hn hpos _ => h.behind n pt hn hpos
  have h₂ := hstop.le_iff hp h.noMark h.low h.high fun n pt hn hpos _ => h.behind n pt hn hpos
  unfold Cut.Covers
  rw [hi, hb, hk, hd]
  omega

/-- An instruction is covered by a range in the method exactly when it is by the positions that cutting
uses. -/
lemma Within.covers_range_iff (hl : p.Lays nm) (hp : p.Sound) (hf : p.LabelsFit) (h : p.Within j q)
    {r : ExceptionRange} (hr : r ∈ p.subject.method.ranges) :
    Cut.Covers p.cutPosition r j ↔ Cut.Covers p.subject.method.labelPosition r j := by
  obtain ⟨⟨i, hi⟩, ⟨k, hk⟩, -⟩ := hp.range_labels hr
  have h₁ := ((Boundary.user hi).positions hl hp hf).1
  have h₂ := ((Boundary.user hk).positions hl hp hf).1
  have hi : p.subject.method.code.labelAt? r.start = some i := hi
  have hk : p.subject.method.code.labelAt? r.stop = some k := hk
  unfold Cut.Covers Method.labelPosition
  rw [h₁, h₂, hi, hk, Code.skipMarks_le_iff h.noMark]
  have := Code.skipMarks_le_iff h.noMark (i := k)
  simp only [Option.getD_some]
  omega

/-- **No part protects a saved region.** -/
lemma Sound.not_covers_saved (hl : p.Lays nm) (hp : p.Sound) (hf : p.LabelsFit) {n q : Nat}
    {pt : SuspensionPoint} (hn : p.points[n]? = some pt) (hlow : nm.labelPosition (p.beforeLabel n) ≤ q)
    (hhigh : q < nm.labelPosition (p.afterLabel n)) {r s : ExceptionRange}
    (hr : r ∈ p.subject.method.ranges) (hs : s ∈ p.parts r) :
    ¬ Cut.Covers nm.labelPosition s q := by
  rintro ⟨hle, hlt⟩
  have hafter := (Boundary.after hn).positions hl hp hf
  rw [((Boundary.before hn).positions hl hp hf).2] at hlow
  rw [hafter.2] at hhigh
  have hnext := afterOffset_lt hp hn
  have hmark := hp.not_markAt_point hn
  obtain ⟨⟨i, b, hstart⟩, ⟨k, d, hstop⟩, hne⟩ := hp.part_ends hf hr hs
  obtain ⟨hi, hb⟩ := hstart.positions hl hp hf
  obtain ⟨hk, hd⟩ := hstop.positions hl hp hf
  rw [hb] at hle
  rw [hd] at hlt
  -- the label behind this very region is not in front of the place
  have hown : s.start ≠ p.afterLabel n := by
    intro heq
    rw [heq, hafter.2] at hb
    omega
  have h₁ := hstart.le_iff hp hmark hlow (by omega) fun n' pt' hn' hpos heq => by
    obtain ⟨rfl, rfl⟩ := hp.point_unique hn hn' hpos.symm
    exact absurd heq hown
  have h₂ := hstop.le_iff hp hmark hlow (by omega) fun n' pt' hn' _ heq => absurd heq (hne n' pt' hn')
  refine hown (Cut.start_of_covers_cut (placed_cuts hl hp hf) hp.sorted_cuts
    (mem_cuts.mpr ⟨n, pt, hn, rfl⟩) hs ⟨?_, ?_⟩)
  · rw [hi]
    exact h₁.mp hle
  · rw [hk]
    show pt.position < k
    omega

/-! ## Dispatch -/

/-- The first parts of ranges that apply within a segment are parts of the range that catches at the
instruction. -/
lemma Within.find?_parts (hl : p.Lays nm) (hp : p.Sound) (hf : p.LabelsFit) (h : p.Within j q)
    (catches : Text → Bool) :
    (p.subject.method.ranges.flatMap p.parts).find? (fun s =>
        nm.labelPosition s.start ≤ q && q < nm.labelPosition s.stop
          && (s.type.isEmpty || catches s.type))
      = (p.subject.method.rangeFor catches j).bind fun r => (p.parts r).find? fun s =>
          nm.labelPosition s.start ≤ q && q < nm.labelPosition s.stop
            && (s.type.isEmpty || catches s.type) := by
  unfold Method.rangeFor
  refine find?_flatMap_eq_bind fun r hr => ?_
  have hcovers := (Cut.exists_covers_applyAll (placed_cuts hl hp hf)).trans
    (h.covers_range_iff hl hp hf hr)
  have hpart : ∀ s ∈ p.parts r, s.type = r.type := fun s hs => (Cut.isPart_of_mem hs).type_eq
  simp only [Bool.and_eq_true, decide_eq_true_eq]
  constructor
  · rintro ⟨s, hs, hcov, htype⟩
    rw [hpart s hs] at htype
    exact ⟨hcovers.mp ⟨s, hs, (h.covers_iff hl hp hf hr hs).mp hcov⟩, htype⟩
  · rintro ⟨hcov, htype⟩
    obtain ⟨s, hs, hscov⟩ := hcovers.mpr hcov
    rw [← hpart s hs] at htype
    exact ⟨s, hs, (h.covers_iff hl hp hf hr hs).mpr hscov, htype⟩

/-- Where prologue and epilogue put their labels. -/
lemma Lays.frame_labels (hl : p.Lays nm) (hp : p.Sound) (hf : p.LabelsFit) :
    nm.labelPosition p.startLabel = 5 ∧ nm.labelPosition p.endLabel = p.place p.code.size
      ∧ nm.labelPosition p.catchAllLabel = p.place p.code.size + 1
      ∧ nm.labelPosition p.catchSignalLabel = p.place p.code.size + 4 := by
  have hcount : 2 * p.points.length + 3 < p.freshCount := by unfold freshCount; omega
  have at_ : ∀ {k q : Nat}, k < p.freshCount → p.Marked q (p.fresh k) →
      nm.labelPosition (p.fresh k) = q := by
    intro k q hk hm
    unfold Method.labelPosition
    rw [hl.labelAt?_fresh hp hf hk hm]
    rfl
  exact ⟨at_ (by omega) .start, at_ (by omega) .stop, at_ (by omega) .catchAll,
    at_ (by omega) .catchSignal⟩

/-- The ranges of a transformed body cover nothing in front of its start and behind its end. -/
lemma Sound.covers_bounds (hl : p.Lays nm) (hp : p.Sound) (hf : p.LabelsFit) {r : ExceptionRange}
    (hr : r ∈ nm.ranges) {q : Nat} (hcov : Cut.Covers nm.labelPosition r q) :
    nm.labelPosition p.startLabel ≤ q ∧ q < nm.labelPosition p.endLabel := by
  rw [hl.ranges, ranges_eq, List.mem_cons, List.mem_append, List.mem_singleton] at hr
  rcases hr with rfl | hr | rfl
  · exact hcov
  · obtain ⟨r', hr', hs⟩ := List.mem_flatMap.mp hr
    obtain ⟨⟨i, b, hstart⟩, ⟨k, d, hstop⟩, -⟩ := hp.part_ends hf hr' hs
    obtain ⟨hlow, hhigh⟩ := hcov
    rw [(hstart.positions hl hp hf).2] at hlow
    rw [(hstop.positions hl hp hf).2] at hhigh
    obtain ⟨h₁, h₂, -⟩ := hl.frame_labels hp hf
    rw [h₁, h₂]
    have := (hstart.bounds hp).1
    have := (hstop.bounds hp).2
    omega
  · exact hcov

/-- **How a transformed method dispatches exceptions**, the method being `p.subject.method`. -/
structure Dispatches (p : Plan) (nm : Method) : Prop where
  /-- the image of an instruction is the instruction, or the call that stands in for it -/
  image : ∀ j instr, p.Survives j instr → ∃ img, nm.code[p.imageAt j]? = some img
    ∧ (img = instr ∨ img = reflectInvoke ∧ ∃ m, instr.callee? = some m ∧ m.isReflective = true)
  /-- what a range catches at an instruction, a part of that range catches at its image, and the
  handler is where the handler of the range has been put -/
  caught : ∀ (catches : Text → Bool), catches ClassName.suspendSignal = false →
    ∀ j instr, p.Survives j instr → ∀ r, p.subject.method.rangeFor catches j = some r →
      ∃ s ∈ p.parts r, nm.rangeFor catches (p.imageAt j) = some s
        ∧ s.type = r.type ∧ s.handler = r.handler
        ∧ (Body.ofMethod nm).handlerFor catches (p.imageAt j)
          = some (p.place (p.subject.method.labelPosition r.handler))
  /-- what no range catches, and only that, is caught by the handler that pops the record -/
  uncaught : ∀ (catches : Text → Bool), catches ClassName.suspendSignal = false →
    ∀ j instr, p.Survives j instr →
      ((Body.ofMethod nm).handlerFor catches (p.imageAt j) = some (nm.labelPosition p.catchAllLabel)
        ↔ p.subject.method.rangeFor catches j = none)
  /-- the suspend signal passes -/
  signal : ∀ (catches : Text → Bool), catches ClassName.suspendSignal = true →
    ∀ pc, nm.labelPosition p.startLabel ≤ pc → pc < nm.labelPosition p.endLabel →
      (Body.ofMethod nm).handlerFor catches pc = some (nm.labelPosition p.catchSignalLabel)
  /-- the generated handlers -/
  handlers : nm.code.Has (nm.labelPosition p.catchAllLabel)
      [.mark p.catchAllLabel, .slot (.load .ref) p.stackVar, Emit.popMethod,
        .mark p.catchSignalLabel, .plain .throw]
    ∧ nm.labelPosition p.catchSignalLabel = nm.labelPosition p.catchAllLabel + 3
  /-- between the labels around it, the code that saves and restores a frame is protected by no part
  of a range of the method -/
  saved : ∀ (n : Nat) (pt : SuspensionPoint), p.points[n]? = some pt →
    nm.code.Has (nm.labelPosition (p.beforeLabel n)) (p.pointImage pt n)
    ∧ ∀ q, nm.labelPosition (p.beforeLabel n) ≤ q → q < nm.labelPosition (p.afterLabel n) →
      ∀ s ∈ nm.ranges, Cut.Covers nm.labelPosition s q → s = p.signalRange ∨ s = p.catchAllRange
  /-- nothing protects the prologue and the epilogue -/
  outside : nm.code.Has 0 p.prologue ∧ nm.labelPosition p.startLabel = p.prologue.length - 1
    ∧ nm.code.Has (nm.labelPosition p.endLabel) p.epilogue
    ∧ ∀ q, q < nm.labelPosition p.startLabel ∨ nm.labelPosition p.endLabel ≤ q →
      ∀ s ∈ nm.ranges, ¬ Cut.Covers nm.labelPosition s q

/-- **Within the segment of an instruction** the range that catches is a part of the one that catches at the
instruction; what none catches goes to the handler that pops the record. -/
lemma Within.rangeFor (hl : p.Lays nm) (hp : p.Sound) (hf : p.LabelsFit) (h : p.Within j q)
    {catches : Text → Bool} (hsignal : catches ClassName.suspendSignal = false) :
    (∀ r, p.subject.method.rangeFor catches j = some r →
      ∃ s ∈ p.parts r, nm.rangeFor catches (q) = some s) ∧
    (p.subject.method.rangeFor catches j = none →
      nm.rangeFor catches (q) = some p.catchAllRange) := by
  have hfind := h.find?_parts hl hp hf catches
  -- the signal's range is passed over, for its type is not empty and does not catch
  have hskip : nm.rangeFor catches (q)
      = ((p.subject.method.ranges.flatMap p.parts).find? (fun s =>
          nm.labelPosition s.start ≤ q && q < nm.labelPosition s.stop
            && (s.type.isEmpty || catches s.type))).or
        ([p.catchAllRange].find? fun s =>
          nm.labelPosition s.start ≤ q && q < nm.labelPosition s.stop
            && (s.type.isEmpty || catches s.type)) := by
    unfold Method.rangeFor
    rw [hl.ranges, ranges_eq, List.find?_cons_of_neg, List.find?_append]
    have hempty : ClassName.suspendSignal.isEmpty = false := by decide
    simp [signalRange, hsignal, hempty]
  constructor
  · intro r hr
    have hmem : r ∈ p.subject.method.ranges := List.mem_of_find?_eq_some hr
    rw [hr] at hfind
    cases hpart : (p.parts r).find? (fun s =>
        nm.labelPosition s.start ≤ q && q < nm.labelPosition s.stop
          && (s.type.isEmpty || catches s.type)) with
    | some s =>
        refine ⟨s, List.mem_of_find?_eq_some hpart, ?_⟩
        rw [hskip, hfind, Option.bind_some, hpart]
        rfl
    | none =>
        -- the range covers the instruction, so one of its parts covers the image
        have hcatch := List.find?_some hr
        simp only [Bool.and_eq_true, decide_eq_true_eq] at hcatch
        obtain ⟨s, hs, hscov⟩ := (Cut.exists_covers_applyAll (placed_cuts hl hp hf)).mpr
          ((h.covers_range_iff hl hp hf hmem).mpr hcatch.1)
        have hcov := (h.covers_iff hl hp hf hmem hs).mpr hscov
        refine absurd ?_ (List.find?_eq_none.mp hpart s hs)
        simp only [Bool.and_eq_true, decide_eq_true_eq]
        exact ⟨hcov, (Cut.isPart_of_mem hs).type_eq ▸ hcatch.2⟩
  · intro hnone
    rw [hnone] at hfind
    obtain ⟨h₁, h₂, -⟩ := hl.frame_labels hp hf
    have hfrom : 6 ≤ p.place j := p.place_mono (Nat.zero_le j)
    have hupto := p.place_mono (show j + 1 ≤ p.code.size from h.lt)
    have hlow := h.low
    have hhigh := h.high
    rw [hskip, hfind, Option.bind_none, Option.none_or]
    refine List.find?_cons_of_pos ?_
    simp only [catchAllRange, h₁, h₂, List.isEmpty_nil, Bool.true_or, Bool.and_true, Bool.and_eq_true,
      decide_eq_true_eq]
    omega

/-- **A laid-out body dispatches exceptions as its method does.** -/
lemma Sound.dispatches (hl : p.Lays nm) (hp : p.Sound) (hf : p.LabelsFit) : p.Dispatches nm where
  image j instr h := by
    exact (h.image hl hp).2
  caught catches hsignal j instr h r hr := by
    obtain ⟨s, hs, hfor⟩ := ((h.image hl hp).1.rangeFor hl hp hf hsignal).1 r hr
    have hpart := Cut.isPart_of_mem hs
    refine ⟨s, hs, hfor, hpart.type_eq, hpart.handler_eq, ?_⟩
    obtain ⟨-, -, i, hi⟩ := hp.range_labels (List.mem_of_find?_eq_some hr)
    have hi' : p.subject.method.code.labelAt? r.handler = some i := hi
    rw [Body.handlerFor_ofMethod, hfor, Option.map_some, hpart.handler_eq,
      ((Boundary.user hi).positions hl hp hf).2, Method.labelPosition, hi']
    rfl
  uncaught catches hsignal j instr h := by
    obtain ⟨hsome, hnone⟩ := (h.image hl hp).1.rangeFor hl hp hf hsignal
    rw [Body.handlerFor_ofMethod]
    constructor
    · intro hcatch
      cases hr : p.subject.method.rangeFor catches j with
      | none => rfl
      | some r =>
          -- the handler of a range stands in front of the epilogue
          obtain ⟨s, hs, hfor⟩ := hsome r hr
          obtain ⟨-, -, i, hi⟩ := hp.range_labels (List.mem_of_find?_eq_some hr)
          rw [hfor, Option.map_some, (Cut.isPart_of_mem hs).handler_eq,
            ((Boundary.user hi).positions hl hp hf).2, (hl.frame_labels hp hf).2.2.1,
            Option.some.injEq] at hcatch
          have := ((Boundary.user hi).bounds hp).2
          omega
    · intro hr
      rw [hnone hr]
      rfl
  signal catches hsignal pc hlow hhigh := by
    rw [Body.handlerFor_ofMethod]
    unfold Method.rangeFor
    rw [hl.ranges, ranges_eq, List.find?_cons_of_pos]
    · rfl
    · simp [signalRange, hsignal, hlow, hhigh]
  handlers := by
    obtain ⟨-, -, h₃, h₄⟩ := hl.frame_labels hp hf
    have hepi := hl.epilogue
    unfold epilogue at hepi
    rw [Code.has_cons] at hepi
    rw [h₃, h₄]
    exact ⟨hepi.2, rfl⟩
  saved n pt hn := by
    obtain ⟨hlt, hseg⟩ := hp.segmentAt_point hn
    refine ⟨?_, fun q hlow hhigh s hs hcov => ?_⟩
    · rw [((Boundary.before hn).positions hl hp hf).2, ← hseg]
      exact hl.segment pt.position hlt
    · rw [hl.ranges, ranges_eq, List.mem_cons, List.mem_append, List.mem_singleton] at hs
      rcases hs with rfl | hs | rfl
      · exact Or.inl rfl
      · obtain ⟨r, hr, hs⟩ := List.mem_flatMap.mp hs
        exact absurd hcov (hp.not_covers_saved hl hf hn hlow hhigh hr hs)
      · exact Or.inr rfl
  outside := by
    obtain ⟨h₁, h₂, -⟩ := hl.frame_labels hp hf
    refine ⟨hl.prologue, h₁, h₂ ▸ hl.epilogue, fun q hq s hs hcov => ?_⟩
    obtain ⟨hlow, hhigh⟩ := hp.covers_bounds hl hf hs hcov
    omega

end Plan

/-- **Exception dispatch is preserved.**  A transformed method has a plan by which it was made; if its
fresh labels do not wrap, then exceptions are caught at the images of its instructions where they are
caught at the instructions, the suspend signal passes, and no generated code is protected by the
method's own ranges. -/
theorem Method.transform_dispatches {src : ClassSource} {policy : Policy} {owner : Text}
    {m nm : Method} {h h' : Hierarchy}
    (ht : (Method.transform src policy owner m).run h = (.ok (some nm), h')) :
    ∃ p : Plan, p.Makes src owner m h nm ∧ (p.LabelsFit → p.Dispatches nm) := by
  obtain ⟨p, hp⟩ := Method.transform_makes ht
  exact ⟨p, hp, fun hf => hp.sound.dispatches (Plan.generate_lays hp.generate) hf⟩

/-- A call that may suspend, and whose exceptions are caught. -/
def guardedCall : Method where
  name := "f"
  desc := "()V"
  flags := Flag.staticBit
  code := #[.mark 0, .member (.invoke .static) "A" "g" "()V", .mark 1, .plain .returnVoid,
    .mark 2, .plain .pop, .plain .returnVoid]
  ranges := [⟨"E", 0, 1, 2⟩]

/-- **A method that is transformed**, by evaluation. -/
lemma Method.exists_transformed {src : ClassSource} {policy : Policy} {owner : Text} {m : Method}
    {h : Hierarchy}
    (hsome : (((Method.transform src policy owner m).run h).1.toOption.join).isSome = true) :
    ∃ nm h', (Method.transform src policy owner m).run h = (.ok (some nm), h') := by
  generalize (Method.transform src policy owner m).run h = r at hsome ⊢
  obtain ⟨r, h'⟩ := r
  match r, hsome with
  | .ok (some nm), _ => exact ⟨nm, h', rfl⟩

/-- **Labels fit where the method leaves room for fresh ones.** -/
lemma Plan.Makes.labelsFit {src : ClassSource} {owner : Text} {m nm : Method} {h : Hierarchy} {p : Plan}
    (hp : p.Makes src owner m h nm)
    (hinUse : ((Code.labelsInUse m.code m.ranges).all fun id => decide (id.toNat + 1 < UInt32.size)) = true)
    (hroom : m.nextLabel.toNat + 3 * m.code.size + 4 ≤ UInt32.size) : p.LabelsFit := by
  have hmethod := hp.method_eq
  refine hp.sound.labelsFit (fun id hid => ?_) ?_
  · unfold Plan.code at hid
    rw [hmethod] at hid
    exact of_decide_eq_true (List.all_eq_true.mp hinUse id hid)
  · unfold Plan.code Plan.firstLabel
    rwa [hmethod]

/-- Its labels leave room for fresh ones. -/
lemma guardedCall_labelsFit {m nm : Method} {h : Hierarchy} {p : Plan}
    (hcode : m.code = guardedCall.code) (hranges : m.ranges = guardedCall.ranges)
    (hp : Plan.Makes {} "A" m h p nm) : p.LabelsFit := by
  refine hp.labelsFit ?_ ?_
  · rw [hcode, hranges]
    decide +kernel
  · unfold Method.nextLabel
    rw [hcode, hranges]
    decide +kernel

set_option maxRecDepth 100000 in
/-- The theorem at a method with a suspension point inside a protected range. -/
theorem guardedCall_dispatches : ∃ nm h' p,
    (Method.transform {} {} "A" guardedCall).run {} = (.ok (some nm), h')
      ∧ Plan.Makes {} "A" guardedCall {} p nm ∧ p.LabelsFit ∧ p.Dispatches nm := by
  have hsome : (((Method.transform {} {} "A" guardedCall).run {}).1.toOption.join).isSome = true := by
    decide +kernel
  obtain ⟨nm, h', ht⟩ := Method.exists_transformed hsome
  obtain ⟨p, hp, hd⟩ := Method.transform_dispatches ht
  have hf := guardedCall_labelsFit rfl rfl hp
  exact ⟨nm, h', p, ht, hp, hf, hd hf⟩

end Suspension
