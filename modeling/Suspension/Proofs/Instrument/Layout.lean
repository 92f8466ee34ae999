import Suspension.Proofs.Code.Labels
import Suspension.Proofs.Frame.Settled
import Suspension.Proofs.Instrument.Points

/-!
# Where instructions are in a transformed body

A transformed body is a prologue, one **segment** for each instruction, and an epilogue.  The image of
an instruction is the last instruction of its segment; whatever stands in front of it there was
generated.

* `Code.Has` — a list of instructions stands at a position of a body.
* `Plan.segmentAt`, `Plan.place` — the segment of an instruction, and where it begins.
* `Plan.imageAt` — where the image of an instruction is.
* `Plan.Lays`, `Plan.generate_lays` — prologue, segments and epilogue of a generated body.
* `Plan.Sound`, `Plan.Makes.sound` — what is known about a plan that comes out of the analysis.
-/

namespace Suspension

/-! ## Lists in a body -/

namespace Code

/-- **A list of instructions stands at a position.** -/
def Has (code : Code) (q : Nat) (l : List Instruction) : Prop :=
  ∀ k, k < l.length → code[q + k]? = l[k]?

variable {code : Code} {q : Nat} {l l' : List Instruction}

lemma has_append : code.Has q (l ++ l') ↔ code.Has q l ∧ code.Has (q + l.length) l' := by
  constructor
  · intro h
    refine ⟨fun k hk => ?_, fun k hk => ?_⟩
    · rw [h k (by simp; omega), List.getElem?_append_left hk]
    · rw [Nat.add_assoc, h (l.length + k) (by simp; omega),
        List.getElem?_append_right (by omega), Nat.add_sub_cancel_left]
  · rintro ⟨h₁, h₂⟩ k hk
    by_cases hlt : k < l.length
    · rw [h₁ k hlt, List.getElem?_append_left hlt]
    · have := h₂ (k - l.length) (by simp at hk; omega)
      rw [List.getElem?_append_right (by omega), ← this]
      congr 1
      omega

lemma has_cons {i : Instruction} : code.Has q (i :: l) ↔ code[q]? = some i ∧ code.Has (q + 1) l := by
  have h : code.Has q ([i] ++ l) ↔ code.Has q [i] ∧ code.Has (q + 1) l := has_append
  rw [List.singleton_append] at h
  rw [h]
  refine and_congr_left fun _ => ⟨fun h => by simpa using h 0 (by simp), fun h k hk => ?_⟩
  obtain rfl : k = 0 := by simpa using hk
  simpa using h

/-- A part of a list in a body is in the body. -/
lemma has_toArray (pre l post : List Instruction) :
    Has (pre ++ l ++ post).toArray pre.length l := by
  intro k hk
  rw [List.getElem?_toArray, List.append_assoc, List.getElem?_append_right (by omega),
    Nat.add_sub_cancel_left, List.getElem?_append_left hk]

end Code

/-! ## Segments -/

namespace Plan

/-- **The segment of an instruction.** -/
def segmentAt (p : Plan) (i : Nat) : List Instruction :=
  match p.code[i]? with
  | some instr => ((p.segment i instr).toOption).getD []
  | none => []

/-- **Where the segment of an instruction begins.** -/
def place (p : Plan) (i : Nat) : Nat :=
  p.prologue.length + ((List.range i).flatMap p.segmentAt).length

/-- **Where the image of an instruction is**: at the end of its segment. -/
def imageAt (p : Plan) (i : Nat) : Nat := p.place (i + 1) - 1

variable {p : Plan}

@[simp] lemma length_prologue (p : Plan) : p.prologue.length = 6 := rfl

@[simp] lemma length_epilogue (p : Plan) : p.epilogue.length = 6 := rfl

@[simp] lemma place_zero (p : Plan) : p.place 0 = 6 := rfl

lemma place_succ (p : Plan) (i : Nat) : p.place (i + 1) = p.place i + (p.segmentAt i).length := by
  simp [place, List.range_succ, Nat.add_assoc]

lemma place_mono (p : Plan) {i j : Nat} (h : i ≤ j) : p.place i ≤ p.place j := by
  induction h with
  | refl => exact Nat.le_refl _
  | step _ ih => rw [place_succ]; omega

/-- Segments follow each other. -/
lemma place_add_le (p : Plan) {i j : Nat} (h : i < j) :
    p.place i + (p.segmentAt i).length ≤ p.place j := by
  rw [← place_succ]
  exact p.place_mono h

/-- The segments that are laid out are those of the instructions. -/
lemma segments_eq_ok {l : List Instruction} {i : Nat} {body : List Instruction}
    (hcode : ∀ k, l[k]? = p.code[i + k]?) (h : p.segments i l = .ok body) :
    body = (List.range' i l.length).flatMap p.segmentAt ∧
      ∀ k instr, l[k]? = some instr → p.segment (i + k) instr = .ok (p.segmentAt (i + k)) := by
  induction l generalizing i body with
  | nil =>
      cases h
      exact ⟨rfl, by simp⟩
  | cons instr l ih =>
      unfold segments at h
      split at h
      · cases h
      next here hhere =>
      split at h
      · cases h
      next more hmore =>
      cases h
      have hfirst : p.code[i]? = some instr := (hcode 0).symm
      have hseg : p.segmentAt i = here := by
        simp [segmentAt, hfirst, hhere, Except.toOption]
      have hrest : ∀ k, l[k]? = p.code[i + 1 + k]? := by
        intro k
        have := hcode (k + 1)
        rw [List.getElem?_cons_succ] at this
        rw [this, Nat.add_assoc, Nat.add_comm 1]
      obtain ⟨hbody, hall⟩ := ih hrest hmore
      refine ⟨?_, fun k instr' hk => ?_⟩
      · rw [List.length_cons, List.range'_succ, List.flatMap_cons, hseg, ← hbody]
      · cases k with
        | zero =>
            cases hk
            rw [Nat.add_zero, hhere, hseg]
        | succ k =>
            have := hall k instr' (by simpa using hk)
            rw [Nat.add_assoc, Nat.add_comm 1] at this
            exact this

/-- **The generated body.** -/
lemma generate_code {nm : Method} (h : p.generate = .ok nm) :
    nm.code = (p.prologue ++ (List.range p.code.size).flatMap p.segmentAt ++ p.epilogue).toArray ∧
      (∀ i instr, p.code[i]? = some instr → p.segment i instr = .ok (p.segmentAt i)) := by
  unfold generate at h
  split at h
  · cases h
  next body hbody =>
  simp only at h
  split at h
  · cases h
  · cases h
    obtain ⟨hb, hall⟩ := segments_eq_ok (by simp) hbody
    refine ⟨?_, fun i instr hi => ?_⟩
    · rw [hb, ← List.range_eq_range', Array.length_toList]
    · simpa using hall i instr (by simpa using hi)

/-- The other parts of a generated method. -/
lemma generate_ranges {nm : Method} (h : p.generate = .ok nm) :
    nm.ranges = p.ranges ∧ nm.maxLocals
      = p.stackVar + 1 + UInt32.ofNat (p.temporaries 0 p.code.toList) := by
  unfold generate at h
  split at h
  · cases h
  simp only at h
  split at h
  · cases h
  · cases h
    exact ⟨rfl, rfl⟩

/-- **A body is laid out by a plan**: its code, its ranges and its locals. -/
structure Lays (p : Plan) (nm : Method) : Prop where
  prologue : nm.code.Has 0 p.prologue
  segment : ∀ i, i < p.code.size → nm.code.Has (p.place i) (p.segmentAt i)
  epilogue : nm.code.Has (p.place p.code.size) p.epilogue
  size : nm.code.size = p.place p.code.size + 6
  ranges : nm.ranges = p.ranges
  maxLocals : nm.maxLocals = p.stackVar + 1 + UInt32.ofNat (p.temporaries 0 p.code.toList)

lemma flatMap_range_split (f : Nat → List Instruction) {i n : Nat} (h : i < n) :
    ∃ post, (List.range n).flatMap f = (List.range i).flatMap f ++ f i ++ post := by
  induction n with
  | zero => omega
  | succ n ih =>
      rw [List.range_succ, List.flatMap_append]
      by_cases hlt : i < n
      · obtain ⟨post, hpost⟩ := ih hlt
        exact ⟨post ++ [n].flatMap f, by rw [hpost]; simp⟩
      · obtain rfl : i = n := by omega
        exact ⟨[], by simp⟩

/-- What a body is laid out as is decided by its code, its ranges and its locals. -/
lemma lays_of_code {nm : Method}
    (hcode : nm.code
      = (p.prologue ++ (List.range p.code.size).flatMap p.segmentAt ++ p.epilogue).toArray)
    (hranges : nm.ranges = p.ranges)
    (hlocals : nm.maxLocals = p.stackVar + 1 + UInt32.ofNat (p.temporaries 0 p.code.toList)) :
    p.Lays nm := by
  refine ⟨?_, fun i hi => ?_, ?_, ?_, hranges, hlocals⟩
  · have := Code.has_toArray [] p.prologue
      ((List.range p.code.size).flatMap p.segmentAt ++ p.epilogue)
    rw [hcode, List.append_assoc]
    simpa using this
  · obtain ⟨post, hpost⟩ := flatMap_range_split p.segmentAt hi
    have := Code.has_toArray (p.prologue ++ (List.range i).flatMap p.segmentAt) (p.segmentAt i)
      (post ++ p.epilogue)
    rw [hcode, hpost]
    simpa [place, List.append_assoc] using this
  · have := Code.has_toArray (p.prologue ++ (List.range p.code.size).flatMap p.segmentAt)
      p.epilogue []
    rw [hcode]
    simpa [place] using this
  · rw [hcode]
    simp [place, Nat.add_assoc]

lemma generate_lays {nm : Method} (h : p.generate = .ok nm) : p.Lays nm := by
  obtain ⟨hcode, -⟩ := generate_code h
  obtain ⟨hranges, hlocals⟩ := generate_ranges h
  exact lays_of_code hcode hranges hlocals

/-- **Every position of a laid-out body** is in the prologue, in a segment or in the epilogue. -/
lemma Lays.locate {nm : Method} (h : p.Lays nm) {q : Nat} (hq : q < nm.code.size) :
    q < 6 ∨ (∃ i k, i < p.code.size ∧ k < (p.segmentAt i).length ∧ q = p.place i + k) ∨
      ∃ k, k < 6 ∧ q = p.place p.code.size + k := by
  rw [h.size] at hq
  by_cases hend : p.place p.code.size ≤ q
  · exact Or.inr (Or.inr ⟨q - p.place p.code.size, by omega, by omega⟩)
  -- otherwise it is in the last segment that begins at or in front of it
  suffices hseg : ∀ n, n ≤ p.code.size → q < p.place n →
      q < 6 ∨ ∃ i k, i < n ∧ k < (p.segmentAt i).length ∧ q = p.place i + k by
    rcases hseg p.code.size (Nat.le_refl _) (by omega) with h | ⟨i, k, hi, hk, hq⟩
    · exact Or.inl h
    · exact Or.inr (Or.inl ⟨i, k, hi, hk, hq⟩)
  intro n
  induction n with
  | zero => exact fun _ hlt => Or.inl hlt
  | succ n ih =>
      intro hn hlt
      by_cases hlt' : q < p.place n
      · rcases ih (by omega) hlt' with h | ⟨i, k, hi, hk, hq⟩
        · exact Or.inl h
        · exact Or.inr ⟨i, k, by omega, hk, hq⟩
      · rw [place_succ] at hlt
        exact Or.inr ⟨n, q - p.place n, by omega, by omega, by omega⟩

/-! ## Sound plans -/

/-- **What is known about a plan** that comes out of the analysis and the search for points. -/
structure Sound (p : Plan) : Prop where
  sites : Site.Sound p.code p.subject.types.sites
  found : ∀ pt ∈ p.points, pt.Found p.subject
  positions : p.points.Pairwise fun a b => a.position < b.position
  entries : p.points.map (·.entry) = List.range' 1 p.points.length
  segments : ∀ i instr, p.code[i]? = some instr → p.segment i instr = .ok (p.segmentAt i)
  ranges : ∀ r ∈ p.subject.method.ranges, ∃ s, Analysis.span p.code r = .ok s
  noSignal : ∀ r ∈ p.subject.method.ranges, r.type ≠ ClassName.suspendSignal

/-- A plan that makes a transformed method is sound. -/
lemma Makes.sound {src : ClassSource} {owner : Text} {m nm : Method} {h : Hierarchy} {p : Plan}
    (hp : p.Makes src owner m h nm) : p.Sound := by
  obtain ⟨h₁, h₂, htypes, hpoints⟩ := hp.found
  obtain ⟨hcert, -⟩ := Analysis.run_certified src.agrees_empty h.agrees_empty htypes
  obtain ⟨hfound, hpositions, hentries⟩ := SuspensionPoint.collect_found hpoints
  have hm := hp.method_eq
  have hsites := hcert.sites
  have hranges := hcert.ranges
  simp only [← hm] at hsites hranges
  exact ⟨hsites, hfound, hpositions, hentries, (generate_code hp.generate).2, hranges,
    hm ▸ hp.noSignal⟩

variable {p : Plan}

/-- The point at a position. -/
lemma pointAt?_eq_some {i n : Nat} {pt : SuspensionPoint} (h : p.pointAt? i = some (pt, n)) :
    p.points[n]? = some pt ∧ pt.position = i := by
  have hmem := List.mem_of_find?_eq_some h
  have hpos := List.find?_some h
  rw [List.mem_zipIdx_iff_getElem?] at hmem
  exact ⟨hmem, by simpa using hpos⟩

/-- Two points at one position are the same. -/
lemma Sound.point_unique (hp : p.Sound) {a b : Nat} {x y : SuspensionPoint}
    (hx : p.points[a]? = some x) (hy : p.points[b]? = some y) (hxy : x.position = y.position) :
    a = b ∧ x = y := by
  obtain ⟨ha, rfl⟩ := List.getElem?_eq_some_iff.mp hx
  obtain ⟨hb, rfl⟩ := List.getElem?_eq_some_iff.mp hy
  have hpw := List.pairwise_iff_getElem.mp hp.positions
  rcases Nat.lt_trichotomy a b with h | h | h
  · have := hpw a b ha hb h
    omega
  · subst h
    exact ⟨rfl, rfl⟩
  · have := hpw b a hb ha h
    omega

lemma Sound.pointAt?_position (hp : p.Sound) {n : Nat} {pt : SuspensionPoint}
    (h : p.points[n]? = some pt) : p.pointAt? pt.position = some (pt, n) := by
  cases hf : p.pointAt? pt.position with
  | none =>
      unfold pointAt? at hf
      rw [List.find?_eq_none] at hf
      have hmem : (pt, n) ∈ p.points.zipIdx := by rw [List.mem_zipIdx_iff_getElem?]; exact h
      exact absurd (by simp) (hf _ hmem)
  | some x =>
      obtain ⟨y, k⟩ := x
      obtain ⟨hy, hpos⟩ := pointAt?_eq_some hf
      obtain ⟨rfl, rfl⟩ := hp.point_unique hy h hpos
      rfl

end Plan

end Suspension
