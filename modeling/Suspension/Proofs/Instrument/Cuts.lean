import Mathlib.Tactic.Common
import Suspension.Instrument.Protection

/-!
# Cutting protected ranges

Cutting a range at a suspension point changes what it covers only inside the saved region.  By the
positions of the method, **the parts of a range cover together what the range covers**; a part that
covers a cut begins behind the saved region of that cut.

* `Cut.Covers` — a range covers a position.
* `Cut.IsPart` — what a part keeps of its range.
* `Cut.exists_covers_applyAll` — the parts cover what the range covers.
* `Cut.start_of_covers_cut` — a part that covers a cut begins behind its saved region.
-/

namespace Suspension

namespace Cut

variable {position : Label → Nat}

/-- **A range covers a position.** -/
def Covers (position : Label → Nat) (r : ExceptionRange) (i : Nat) : Prop :=
  position r.start ≤ i ∧ i < position r.stop

/-- The labels of cuts stand at their cuts. -/
def Placed (position : Label → Nat) (cuts : List Cut) : Prop :=
  ∀ c ∈ cuts, position c.before = c.position ∧ position c.after = c.position

/-- **A part of a range**: type and handler are those of the range, and its ends are ends of the range
or lie at a cut. -/
structure IsPart (cuts : List Cut) (r s : ExceptionRange) : Prop where
  type_eq : s.type = r.type
  handler_eq : s.handler = r.handler
  start : s.start = r.start ∨ ∃ c ∈ cuts, s.start = c.after
  stop : s.stop = r.stop ∨ ∃ c ∈ cuts, s.stop = c.before

/-! ## One cut -/

/-- The parts of a range at one cut: the range as it is, when it does not cover the cut, and otherwise
what lies behind the cut, and what lies in front of it. -/
lemma mem_apply {c : Cut} {r s : ExceptionRange} :
    s ∈ apply position c r ↔
      (¬ Covers position r c.position ∧ s = r) ∨
      (Covers position r c.position ∧ s = { r with start := c.after }) ∨
      (Covers position r c.position ∧ position r.start ≠ c.position
        ∧ s = { r with stop := c.before }) := by
  unfold apply Covers
  by_cases hout : c.position < position r.start ∨ position r.stop ≤ c.position
  · have hin : ¬ (position r.start ≤ c.position ∧ c.position < position r.stop) := by omega
    simp [hout, hin]
  · have hin : position r.start ≤ c.position ∧ c.position < position r.stop := by omega
    by_cases hstart : position r.start = c.position
    · have hstop : ¬ position r.stop ≤ c.position := by omega
      simp [hin, hstart, hstop]
    · simp [hout, hin, hstart, or_comm]

lemma IsPart.refl (cuts : List Cut) (r : ExceptionRange) : IsPart cuts r r :=
  ⟨rfl, rfl, Or.inl rfl, Or.inl rfl⟩

lemma IsPart.apply {cuts : List Cut} {c : Cut} {r s t : ExceptionRange} (h : IsPart cuts r s)
    (hc : c ∈ cuts) (ht : t ∈ Cut.apply position c s) : IsPart cuts r t := by
  rcases mem_apply.mp ht with ⟨-, rfl⟩ | ⟨-, rfl⟩ | ⟨-, -, rfl⟩
  · exact h
  · exact ⟨h.type_eq, h.handler_eq, Or.inr ⟨c, hc, rfl⟩, h.stop⟩
  · exact ⟨h.type_eq, h.handler_eq, h.start, Or.inr ⟨c, hc, rfl⟩⟩

/-- **The parts at one cut cover together what the range covers.** -/
lemma exists_covers_apply {c : Cut} {r : ExceptionRange} {i : Nat}
    (hbefore : position c.before = c.position) (hafter : position c.after = c.position) :
    (∃ s ∈ apply position c r, Covers position s i) ↔ Covers position r i := by
  constructor
  · rintro ⟨s, hs, hcov⟩
    rcases mem_apply.mp hs with ⟨-, rfl⟩ | ⟨hc, rfl⟩ | ⟨hc, -, rfl⟩
    · exact hcov
    · simp only [Covers, hafter] at hcov hc ⊢
      omega
    · simp only [Covers, hbefore] at hcov hc ⊢
      omega
  · intro hcov
    by_cases hc : Covers position r c.position
    · by_cases hi : c.position ≤ i
      · refine ⟨_, mem_apply.mpr (Or.inr (Or.inl ⟨hc, rfl⟩)), ?_⟩
        simp only [Covers, hafter] at hcov ⊢
        omega
      · refine ⟨_, mem_apply.mpr (Or.inr (Or.inr ⟨hc, ?_, rfl⟩)), ?_⟩
        · simp only [Covers] at hcov
          omega
        · simp only [Covers, hbefore] at hcov ⊢
          omega
    · exact ⟨r, mem_apply.mpr (Or.inl ⟨hc, rfl⟩), hcov⟩

/-! ## All cuts -/

@[simp] lemma applyAll_nil (ranges : List ExceptionRange) : applyAll position [] ranges = ranges := rfl

@[simp] lemma applyAll_cons (c : Cut) (cuts : List Cut) (ranges : List ExceptionRange) :
    applyAll position (c :: cuts) ranges
      = applyAll position cuts (ranges.flatMap (apply position c)) := rfl

/-- Every range is cut on its own. -/
lemma applyAll_eq_flatMap (cuts : List Cut) (ranges : List ExceptionRange) :
    applyAll position cuts ranges = ranges.flatMap fun r => applyAll position cuts [r] := by
  induction cuts generalizing ranges with
  | nil => simp
  | cons c cuts ih =>
      rw [applyAll_cons, ih, List.flatMap_assoc]
      congr 1
      funext r
      rw [applyAll_cons, ih]
      simp

lemma mem_applyAll_cons {c : Cut} {cuts : List Cut} {r t : ExceptionRange} :
    t ∈ applyAll position (c :: cuts) [r] ↔
      ∃ s ∈ apply position c r, t ∈ applyAll position cuts [s] := by
  rw [applyAll_cons, applyAll_eq_flatMap]
  simp

/-- **What every cut keeps holds of all parts.** -/
lemma of_mem_applyAll {P : ExceptionRange → Prop} {cuts : List Cut} {r t : ExceptionRange}
    (hcut : ∀ c ∈ cuts, ∀ s, P s → ∀ s' ∈ apply position c s, P s') (hr : P r)
    (h : t ∈ applyAll position cuts [r]) : P t := by
  induction cuts generalizing r with
  | nil =>
      obtain rfl : t = r := by simpa using h
      exact hr
  | cons c cuts ih =>
      obtain ⟨s, hs, ht⟩ := mem_applyAll_cons.mp h
      exact ih (fun c' hc' => hcut c' (List.mem_cons_of_mem c hc'))
        (hcut c List.mem_cons_self r hr s hs) ht

/-- Cutting leaves something of a range. -/
lemma exists_mem_applyAll (cuts : List Cut) (r : ExceptionRange) :
    ∃ t, t ∈ applyAll position cuts [r] := by
  induction cuts generalizing r with
  | nil => exact ⟨r, by simp⟩
  | cons c cuts ih =>
      obtain ⟨s, hs⟩ : ∃ s, s ∈ apply position c r := by
        by_cases hcov : Covers position r c.position
        · exact ⟨_, mem_apply.mpr (Or.inr (Or.inl ⟨hcov, rfl⟩))⟩
        · exact ⟨_, mem_apply.mpr (Or.inl ⟨hcov, rfl⟩)⟩
      obtain ⟨t, ht⟩ := ih s
      exact ⟨t, mem_applyAll_cons.mpr ⟨s, hs, ht⟩⟩

lemma isPart_of_mem {cuts : List Cut} {r t : ExceptionRange}
    (h : t ∈ applyAll position cuts [r]) : IsPart cuts r t :=
  of_mem_applyAll (fun _ hc _ hs _ hs' => hs.apply hc hs') (.refl cuts r) h

/-- **The parts of a range cover together what the range covers.** -/
lemma exists_covers_applyAll {cuts : List Cut} (hplaced : Placed position cuts)
    {r : ExceptionRange} {i : Nat} :
    (∃ s ∈ applyAll position cuts [r], Covers position s i) ↔ Covers position r i := by
  induction cuts generalizing r with
  | nil => simp
  | cons c cuts ih =>
      have hrest : Placed position cuts := fun c' hc' => hplaced c' (List.mem_cons_of_mem c hc')
      obtain ⟨hbefore, hafter⟩ := hplaced c List.mem_cons_self
      rw [← exists_covers_apply hbefore hafter]
      constructor
      · rintro ⟨t, ht, hcov⟩
        obtain ⟨s, hs, ht'⟩ := mem_applyAll_cons.mp ht
        exact ⟨s, hs, (ih hrest).mp ⟨t, ht', hcov⟩⟩
      · rintro ⟨s, hs, hcov⟩
        obtain ⟨t, ht, htcov⟩ := (ih hrest).mpr hcov
        exact ⟨t, mem_applyAll_cons.mpr ⟨s, hs, ht⟩, htcov⟩

/-- What covers a cut begins behind its saved region. -/
def Behind (position : Label → Nat) (c : Cut) (s : ExceptionRange) : Prop :=
  Covers position s c.position → s.start = c.after

lemma Behind.self {c : Cut} {r s : ExceptionRange} (hbefore : position c.before = c.position)
    (h : s ∈ apply position c r) : Behind position c s := by
  intro hcov
  rcases mem_apply.mp h with ⟨hc, rfl⟩ | ⟨-, rfl⟩ | ⟨-, -, rfl⟩
  · exact absurd hcov hc
  · rfl
  · simp only [Covers, hbefore] at hcov
    omega

/-- A later cut does not change that. -/
lemma Behind.apply {c c' : Cut} {r s : ExceptionRange} (h : Behind position c r)
    (hlt : c.position < c'.position) (hafter : position c'.after = c'.position)
    (hs : s ∈ Cut.apply position c' r) : Behind position c s := by
  intro hcov
  rcases mem_apply.mp hs with ⟨-, rfl⟩ | ⟨-, rfl⟩ | ⟨hc, -, rfl⟩
  · exact h hcov
  · simp only [Covers, hafter] at hcov
    omega
  · refine h ?_
    simp only [Covers] at hcov hc ⊢
    omega

lemma Behind.applyAll {c : Cut} {cuts : List Cut} (hplaced : Placed position cuts)
    (hlt : ∀ c' ∈ cuts, c.position < c'.position) {r t : ExceptionRange}
    (h : Behind position c r) (ht : t ∈ Cut.applyAll position cuts [r]) : Behind position c t := by
  induction cuts generalizing r with
  | nil =>
      obtain rfl : t = r := by simpa using ht
      exact h
  | cons c' cuts ih =>
      obtain ⟨s, hs, ht'⟩ := mem_applyAll_cons.mp ht
      exact ih (fun d hd => hplaced d (List.mem_cons_of_mem c' hd))
        (fun d hd => hlt d (List.mem_cons_of_mem c' hd))
        (h.apply (hlt c' List.mem_cons_self) (hplaced c' List.mem_cons_self).2 hs) ht'

/-- **A part that covers a cut begins behind the saved region of the cut.** -/
lemma start_of_covers_cut {cuts : List Cut} (hplaced : Placed position cuts)
    (hsorted : cuts.Pairwise fun c d => c.position < d.position) {c : Cut} (hc : c ∈ cuts)
    {r t : ExceptionRange} (ht : t ∈ applyAll position cuts [r])
    (hcov : Covers position t c.position) : t.start = c.after := by
  suffices h : Behind position c t from h hcov
  clear hcov
  induction cuts generalizing r with
  | nil => simp at hc
  | cons d cuts ih =>
      have hrest : Placed position cuts := fun e he => hplaced e (List.mem_cons_of_mem d he)
      obtain ⟨hlt, hsorted⟩ := List.pairwise_cons.mp hsorted
      obtain ⟨s, hs, ht'⟩ := mem_applyAll_cons.mp ht
      rcases List.mem_cons.mp hc with rfl | hc
      · exact (Behind.self (hplaced c List.mem_cons_self).1 hs).applyAll hrest hlt ht'
      · exact ih hrest hsorted hc ht'

end Cut

end Suspension
