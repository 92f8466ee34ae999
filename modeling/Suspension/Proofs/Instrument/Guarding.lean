import Suspension.Proofs.Frame.Settled
import Suspension.Proofs.Instrument.Dispatch

/-!
# Handlers of a transformed body

**A part of a range reaches no further than the range**: what it covers in the segment of an instruction,
the range covers at the instruction, whether that is a mark or not.  So the handlers of a transformed body
are those of the method, each for instructions that it had before, and the two that are generated.

* `Plan.Confined` — a part within its range, `Plan.Confined.of_covers` — what it covers.
* `Plan.Guards`, `Plan.Sound.guards` — the handlers of a transformed body.
-/

namespace Suspension

namespace Analysis

variable {code : Code}

lemma span_of_labelAt? {r : ExceptionRange} {start stop handler : Nat} (h₁ : code.labelAt? r.start = some start)
    (h₂ : code.labelAt? r.stop = some stop) (h₃ : code.labelAt? r.handler = some handler) :
    span code r = .ok ⟨caughtClass r, start, stop, handler⟩ := by
  unfold span
  rw [h₁, h₂, h₃]
  rfl

/-- Ranges whose labels are marked have positions. -/
lemma exists_spans {ranges : List ExceptionRange} (h : ∀ r ∈ ranges, ∃ s, span code r = .ok s) (n : Nat) :
    ∃ ss, spans code ranges n = .ok ss := by
  induction ranges generalizing n with
  | nil => exact ⟨[], rfl⟩
  | cons r ranges ih =>
      obtain ⟨⟨s, hs⟩, hrest⟩ := List.forall_mem_cons.mp h
      obtain ⟨ss, hss⟩ := ih hrest (n + 1)
      exact ⟨s :: ss, by simp [spans, hs, hss]⟩

end Analysis

namespace Plan

variable {p : Plan} {nm : Method}

/-! ## Parts -/

/-- A boundary is a label of the transformed body. -/
lemma Boundary.labelAt? (hl : p.Lays nm) (hp : p.Sound) (hf : p.LabelsFit) {id : Label} {i q : Nat}
    (h : p.Boundary id i q) : nm.code.labelAt? id = some q := by
  cases h with
  | user hu => exact hl.labelAt?_user hp hf hu
  | before hn => exact hl.labelAt?_fresh hp hf (number_lt hn).1 (.before hn)
  | after hn => exact hl.labelAt?_fresh hp hf (number_lt hn).2 (.after hn)

/-- **A part of a range reaches no further** than the range, at the places of the transformed body. -/
structure Confined (p : Plan) (span : HandlerSpan) (s : ExceptionRange) : Prop where
  start : ∃ i b, p.Boundary s.start i b ∧ p.place span.start ≤ b
  stop : ∃ k d, p.Boundary s.stop k d ∧ d ≤ p.place span.stop

lemma Confined.apply (hl : p.Lays nm) (hp : p.Sound) (hf : p.LabelsFit) {span : HandlerSpan} {c : Cut}
    (hc : c ∈ p.cuts) {r s : ExceptionRange} (hr : p.Confined span r) (hs : s ∈ Cut.apply p.cutPosition c r) :
    p.Confined span s := by
  obtain ⟨n, pt, hn, rfl⟩ := mem_cuts.mp hc
  obtain ⟨⟨i, b, hstart, hib⟩, k, d, hstop, hkd⟩ := hr
  have hmark := hp.not_markAt_point hn
  have hlt := afterOffset_lt hp hn
  have hi := (hstart.positions hl hp hf).1
  have hk := (hstop.positions hl hp hf).1
  rcases Cut.mem_apply.mp hs with ⟨-, rfl⟩ | ⟨⟨hcov, -⟩, rfl⟩ | ⟨⟨-, hcov⟩, -, rfl⟩
  · exact ⟨⟨i, b, hstart, hib⟩, k, d, hstop, hkd⟩
  · refine ⟨⟨_, _, .after hn, ?_⟩, k, d, hstop, hkd⟩
    have hiff := hstart.le_iff hp hmark (q := p.place pt.position + p.afterOffset pt) (by omega) hlt
      fun n' pt' hn' hpos _ => by
        obtain ⟨-, rfl⟩ := hp.point_unique hn hn' hpos.symm
        exact Nat.le_refl _
    rw [hi] at hcov
    exact Nat.le_trans hib (hiff.mpr hcov)
  · refine ⟨⟨i, b, hstart, hib⟩, _, _, .before hn, ?_⟩
    have hcov : pt.position < k := hk ▸ hcov
    have hiff := hstop.le_iff hp hmark (q := p.place pt.position) (Nat.le_refl _) (by omega)
      fun n' pt' hn' hpos heq => by
        rw [heq, ((Boundary.after hn').positions hl hp hf).1, hpos] at hk
        omega
    omega

/-- **The parts of a range are confined to it.** -/
lemma Sound.confined (hl : p.Lays nm) (hp : p.Sound) (hf : p.LabelsFit) {r s : ExceptionRange}
    {span : HandlerSpan}
    (hspan : Analysis.span p.code r = .ok span) (hs : s ∈ p.parts r) : p.Confined span s := by
  obtain ⟨h₁, h₂, -, -⟩ := Analysis.span_eq_ok hspan
  exact Cut.of_mem_applyAll (fun c hc r' hr' s' hs' => hr'.apply hl hp hf hc hs')
    ⟨⟨_, _, .user h₁, Nat.le_refl _⟩, _, _, .user h₂, Nat.le_refl _⟩ hs

/-- **What a part covers in a segment**, its range covers at the instruction. -/
lemma Confined.of_covers (hl : p.Lays nm) (hp : p.Sound) (hf : p.LabelsFit) {span : HandlerSpan}
    {s : ExceptionRange}
    (h : p.Confined span s) {i k : Nat} (hk : k < (p.segmentAt i).length)
    (hcov : Cut.Covers nm.labelPosition s (p.place i + k)) : span.start ≤ i ∧ i < span.stop := by
  obtain ⟨⟨_, b, hstart, hib⟩, _, d, hstop, hkd⟩ := h
  obtain ⟨hlow, hhigh⟩ := hcov
  rw [(hstart.positions hl hp hf).2] at hlow
  rw [(hstop.positions hl hp hf).2] at hhigh
  constructor
  · by_contra hlt
    have := p.place_add_le (show i < span.start by omega)
    omega
  · by_contra hlt
    have := p.place_mono (show span.stop ≤ i by omega)
    omega

/-! ## Handlers -/

/-- **A handler of a transformed body**: one of the two that are generated, or that of a part of a range. -/
inductive Guards (p : Plan) (nm : Method) (spans : List HandlerSpan) : HandlerSpan → Prop where
  | signal : Guards p nm spans ⟨ClassName.suspendSignal, 5, p.place p.code.size, p.place p.code.size + 4⟩
  | part {r s : ExceptionRange} {span : HandlerSpan} (hr : r ∈ p.subject.method.ranges) (hs : s ∈ p.parts r)
      (hspan : span ∈ spans) (hat : Analysis.span p.code r = .ok span) :
      Guards p nm spans ⟨span.cls, nm.labelPosition s.start, nm.labelPosition s.stop, p.place span.handler⟩
  | catchAll : Guards p nm spans ⟨ClassName.throwable, 5, p.place p.code.size, p.place p.code.size + 1⟩

/-- **The handlers of a transformed body.** -/
lemma Sound.guards (hl : p.Lays nm) (hp : p.Sound) (hf : p.LabelsFit) {spans : List HandlerSpan}
    (hss : Analysis.spans p.code p.subject.method.ranges 0 = .ok spans) :
    ∃ spans', Analysis.spans nm.code nm.ranges 0 = .ok spans' ∧ ∀ s ∈ spans', p.Guards nm spans s := by
  have hcount : 2 * p.points.length + 3 < p.freshCount := by unfold freshCount; omega
  have hat : ∀ {k q : Nat}, k < p.freshCount → p.Marked q (p.fresh k) → nm.code.labelAt? (p.fresh k) = some q :=
    fun hk hm => hl.labelAt?_fresh hp hf hk hm
  have hstart := hat (k := 2 * p.points.length) (by omega) .start
  have hstop := hat (k := 2 * p.points.length + 1) (by omega) .stop
  have hrange : ∀ r ∈ nm.ranges, ∃ s, Analysis.span nm.code r = .ok s ∧ p.Guards nm spans s := by
    intro r hr
    rw [hl.ranges, ranges_eq, List.mem_cons, List.mem_append, List.mem_singleton] at hr
    rcases hr with rfl | hr | rfl
    · exact ⟨_, Analysis.span_of_labelAt? hstart hstop (hat (by omega) .catchSignal), .signal⟩
    · obtain ⟨r', hr', hs⟩ := List.mem_flatMap.mp hr
      obtain ⟨span, hmem, hspan⟩ := (Analysis.spans_eq_ok hss).1 r' hr'
      obtain ⟨-, -, h₃, hcls⟩ := Analysis.span_eq_ok hspan
      obtain ⟨⟨_, b, hb⟩, ⟨_, d, hd⟩, -⟩ := hp.part_ends hf hr' hs
      have hpart := Cut.isPart_of_mem hs
      refine ⟨_, Analysis.span_of_labelAt? (hb.labelAt? hl hp hf) (hd.labelAt? hl hp hf)
        (hpart.handler_eq ▸ hl.labelAt?_user hp hf h₃), ?_⟩
      rw [← (hb.positions hl hp hf).2, ← (hd.positions hl hp hf).2,
        show Analysis.caughtClass r = span.cls by rw [hcls, Analysis.caughtClass, hpart.type_eq]; rfl]
      exact .part hr' hs hmem hspan
    · exact ⟨_, Analysis.span_of_labelAt? hstart hstop (hat (by omega) .catchAll), .catchAll⟩
  obtain ⟨spans', hss'⟩ := Analysis.exists_spans (fun r hr => (hrange r hr).imp fun _ h => h.1) 0
  refine ⟨spans', hss', fun s hs => ?_⟩
  obtain ⟨r, hr, hspan⟩ := (Analysis.spans_eq_ok hss').2 s hs
  obtain ⟨s', hspan', hguards⟩ := hrange r hr
  rw [hspan] at hspan'
  cases hspan'
  exact hguards

end Plan

end Suspension
