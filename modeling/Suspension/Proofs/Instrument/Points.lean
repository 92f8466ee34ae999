import Suspension.Instrument.Class
import Suspension.Proofs.Frame.Following
import Suspension.Proofs.Hierarchy.Agreement

/-!
# The points of a transformed method

What the search for suspension points finds, and what a transformation that succeeds has been made
from.  **A transformed method is generated from a plan**: the frame types of the method, and its
points in the order of their positions.

* `SuspensionPoint.Found` — a point is a reachable call, with the frame before it.
* `SuspensionPoint.collect_found` — the points of a search are such, their positions rise, and their
  entries count from 1.
* `Plan.Makes` — a plan makes a transformed method; `Method.transform_makes` — every transformation
  that changes a method has one.
* `Instrumenter.onClass_eq_some`, `Instrumenter.onLoad_eq_ok` — what is put in place of a class.
-/

namespace Suspension

/-! ## Points -/

/-- A call is one of the four calls, with its method as operand. -/
lemma Instruction.callee?_eq_some {instr : Instruction} {m : Member} (hm : instr.callee? = some m) :
    ∃ mode, instr.opcode = .invoke mode ∧ instr.operand = .member m := by
  unfold Instruction.callee? at hm
  split at hm
  · next mode m' hop ho =>
      split at hm
      · cases hm
      · cases hm
        exact ⟨mode, hop, ho⟩
  · cases hm

/-- **A suspension point of a method**: a call that is reached, with the frame before it.  A call by
reflection is exchanged, a request to suspend is not. -/
structure SuspensionPoint.Found (s : Subject) (p : SuspensionPoint) : Prop where
  frame_at : s.types.frames[p.position]? = some (some p.frame)
  plan : p.plan = .ofFrame s.isDeferred s.firstLocal p.frame
  call : ∃ instr m, s.method.code[p.position]? = some instr ∧ instr.callee? = some m
    ∧ (p.call = instr ∨ m.isReflective = true ∧ p.call = reflectInvoke)
    ∧ (p.isYield = true → m.isYield = true ∧ instr.opcode = .invoke .static)

namespace PointSearch

variable {s : Subject}

/-- What the search knows behind a position, the latest point first. -/
structure Sorted (s : Subject) (position : Nat) (points : List SuspensionPoint) : Prop where
  found : ∀ p ∈ points, p.Found s
  below : ∀ p ∈ points, p.position < position
  positions : points.Pairwise fun p q => q.position < p.position
  entries : points.map (·.entry) = (List.range' 1 points.length).reverse

lemma Sorted.mono {position position' : Nat} {points : List SuspensionPoint}
    (h : Sorted s position points) (hle : position ≤ position') : Sorted s position' points :=
  ⟨h.found, fun p hp => Nat.lt_of_lt_of_le (h.below p hp) hle, h.positions, h.entries⟩

lemma Sorted.cons {position : Nat} {points : List SuspensionPoint} (h : Sorted s position points)
    {p : SuspensionPoint} (hp : p.Found s) (hpos : p.position = position)
    (hentry : p.entry = points.length + 1) : Sorted s (position + 1) (p :: points) where
  found := by
    intro q hq
    rcases List.mem_cons.mp hq with rfl | hq
    · exact hp
    · exact h.found q hq
  below := by
    intro q hq
    rcases List.mem_cons.mp hq with rfl | hq
    · omega
    · have := h.below q hq
      omega
  positions := List.pairwise_cons.mpr ⟨fun q hq => hpos ▸ h.below q hq, h.positions⟩
  entries := by
    rw [List.map_cons, h.entries, hentry, List.length_cons, List.range'_concat]
    simp [Nat.add_comm]

lemma reportDeferred_points (ns : List Nat) (acc : PointSearch) (h : Hierarchy) :
    ((reportDeferred s ns acc).run h).1.points = acc.points := by
  induction ns generalizing acc h with
  | nil => rfl
  | cons n ns ih =>
      unfold reportDeferred
      split
      · exact ih acc h
      · split
        · exact ih acc h
        · simp only [Query.run_bind]
          exact ih _ _

lemma add_points (acc : PointSearch) (position : Nat) (call : Instruction) (f : Frame)
    (isYield : Bool) (h : Hierarchy) :
    ((add s acc position call f isYield).run h).1.points
      = s.point position (acc.points.length + 1) call f isYield :: acc.points := by
  simp only [add, Query.run_bind, Query.run_pure]
  rw [reportDeferred_points]

lemma callKind_reflective {src : ClassSource} {op : Opcode} {m : Member} {h h' : Hierarchy}
    (hk : (callKind src op m).run h = (.reflective, h')) : m.isReflective = true := by
  unfold callKind at hk
  split at hk
  · assumption
  · simp only [Query.run_bind] at hk
    generalize (Hierarchy.isSuspendable src m.owner m.name m.desc op.searchesSupers).run h = r at hk
    obtain ⟨b, h₁⟩ := r
    cases b with
    | true =>
        simp only [if_true] at hk
        split at hk
        · split at hk <;> cases hk
        · cases hk
    | false =>
        simp only [Bool.false_eq_true, if_false] at hk
        split at hk <;> cases hk

lemma callKind_yields {src : ClassSource} {op : Opcode} {m : Member} {h h' : Hierarchy}
    (hk : (callKind src op m).run h = (.yields, h')) :
    m.isYield = true ∧ op = .invoke .static := by
  unfold callKind at hk
  split at hk
  · cases hk
  · simp only [Query.run_bind] at hk
    generalize (Hierarchy.isSuspendable src m.owner m.name m.desc op.searchesSupers).run h = r at hk
    obtain ⟨b, h₁⟩ := r
    cases b with
    | true =>
        simp only [if_true] at hk
        split at hk
        · next hy =>
            split at hk
            · next hop => exact ⟨hy, by simpa using hop⟩
            · cases hk
        · cases hk
    | false =>
        simp only [Bool.false_eq_true, if_false] at hk
        split at hk <;> cases hk

/-- A point that is added is one of the method. -/
lemma add_sorted {acc : PointSearch} {position : Nat} {instr call : Instruction} {m : Member}
    {f : Frame} {isYield : Bool} (h : Hierarchy) (hacc : Sorted s position acc.points)
    (hcode : s.method.code[position]? = some instr)
    (hf : s.types.frames[position]? = some (some f)) (hm : instr.callee? = some m)
    (hcall : call = instr ∨ m.isReflective = true ∧ call = reflectInvoke)
    (hyield : isYield = true → m.isYield = true ∧ instr.opcode = .invoke .static) :
    Sorted s (position + 1) ((add s acc position call f isYield).run h).1.points := by
  rw [add_points]
  exact hacc.cons ⟨hf, rfl, instr, m, hcode, hm, hcall, hyield⟩ rfl rfl

/-- **One instruction** adds a point or none. -/
lemma visit_sorted {acc acc' : PointSearch} {position : Nat} {instr : Instruction} {f : Frame}
    {h h' : Hierarchy} (hacc : Sorted s position acc.points)
    (hcode : s.method.code[position]? = some instr)
    (hf : s.types.frames[position]? = some (some f))
    (hv : (visit s acc position instr f).run h = (.ok acc', h')) :
    Sorted s (position + 1) acc'.points := by
  have hstay := hacc.mono (Nat.le_add_right position 1)
  unfold visit at hv
  split at hv
  · cases hv
    exact hstay
  next m hm =>
  simp only [Query.run_bind] at hv
  cases hk : (callKind s.source instr.opcode m).run h with
  | mk kind h₁ =>
      rw [hk] at hv
      cases kind with
      | plain =>
          cases hv
          exact hstay
      | reflective =>
          simp only [Query.run_bind, Query.run_pure] at hv
          cases hv
          exact add_sorted _ hacc hcode hf hm (Or.inr ⟨callKind_reflective hk, rfl⟩) (by simp)
      | badYield => cases hv
      | yields =>
          simp only [Query.run_bind, Query.run_pure] at hv
          cases hv
          exact add_sorted _ hacc hcode hf hm (Or.inl rfl) (fun _ => callKind_yields hk)
      | suspends =>
          simp only [Query.run_bind, Query.run_pure] at hv
          cases hv
          exact add_sorted _ hacc hcode hf hm (Or.inl rfl) (by simp)
      | blocks row =>
          simp only [block] at hv
          split at hv
          · cases hv
          · split at hv
            · cases hv
              exact hstay
            · simp only [Query.run_bind, Query.run_pure] at hv
              cases hv
              exact hstay

/-- **All instructions from a position on.** -/
lemma visitAll_sorted {instrs : List Instruction} {position : Nat} {acc acc' : PointSearch}
    {h h' : Hierarchy} (hacc : Sorted s position acc.points)
    (hcode : ∀ k, instrs[k]? = s.method.code[position + k]?)
    (hv : (visitAll s instrs position acc).run h = (.ok acc', h')) :
    Sorted s (position + instrs.length) acc'.points := by
  induction instrs generalizing position acc h with
  | nil =>
      cases hv
      exact hacc
  | cons instr instrs ih =>
      have hrest : ∀ k, instrs[k]? = s.method.code[position + 1 + k]? := by
        intro k
        have := hcode (k + 1)
        rw [List.getElem?_cons_succ] at this
        rw [this, Nat.add_assoc, Nat.add_comm 1]
      have hlen : position + (instr :: instrs).length = position + 1 + instrs.length := by
        simp [Nat.add_assoc, Nat.add_comm 1]
      rw [hlen]
      unfold visitAll at hv
      split at hv
      · exact ih (hacc.mono (Nat.le_add_right position 1)) hrest hv
      · next f hf =>
          simp only [Query.run_bind] at hv
          cases hvisit : (visit s acc position instr f).run h with
          | mk r h₁ =>
              rw [hvisit] at hv
              cases r with
              | error e => cases hv
              | ok acc₁ =>
                  have hinstr : s.method.code[position]? = some instr := (hcode 0).symm
                  exact ih (visit_sorted hacc hinstr (Option.join_eq_some_iff.mp hf) hvisit) hrest hv

end PointSearch

/-- **The points of a method** are what they should be, in the order of their positions, and their
entries count from 1. -/
lemma SuspensionPoint.collect_found {s : Subject} {points : List SuspensionPoint}
    {h h' : Hierarchy} (hc : (SuspensionPoint.collect s).run h = (.ok points, h')) :
    (∀ p ∈ points, p.Found s) ∧ (points.Pairwise fun p q => p.position < q.position) ∧
      points.map (·.entry) = List.range' 1 points.length := by
  simp only [SuspensionPoint.collect, Query.run_bind] at hc
  cases hv : (PointSearch.visitAll s s.method.code.toList 0 {}).run h with
  | mk r h₁ =>
      rw [hv] at hc
      cases r with
      | error e => cases hc
      | ok acc =>
          cases hc
          have hstart : PointSearch.Sorted s 0 ({} : PointSearch).points :=
            ⟨by simp, by simp, List.Pairwise.nil, rfl⟩
          have hsorted := PointSearch.visitAll_sorted hstart (by simp) hv
          refine ⟨fun p hp => hsorted.found p (List.mem_reverse.mp hp), ?_, ?_⟩
          · exact List.pairwise_reverse.mpr hsorted.positions
          · rw [List.map_reverse, hsorted.entries]
            simp

/-! ## Plans -/

/-- **A plan makes a transformed method**: the frame types are those of the method, the points are
those that the search finds, and the body is generated from both. -/
structure Plan.Makes (src : ClassSource) (owner : Text) (m : Method) (h : Hierarchy) (p : Plan)
    (nm : Method) : Prop where
  method_eq : p.subject.method = m
  owner_eq : p.subject.owner = owner
  source_eq : p.subject.source = src
  found : ∃ h₁ h₂,
    (Analysis.run { source := src, sink := src.sink, owner, method := m }).run h
      = (.ok p.subject.types, h₁)
    ∧ (SuspensionPoint.collect p.subject).run h₁ = (.ok p.points, h₂)
  nonempty : p.points ≠ []
  noSignal : ∀ r ∈ m.ranges, r.type ≠ ClassName.suspendSignal
  generate : p.generate = .ok nm

/-- A transformed method keeps all that its callers see. -/
lemma Plan.generate_keeps {p : Plan} {nm : Method} (hgen : p.generate = .ok nm) :
    nm.name = p.subject.method.name ∧ nm.desc = p.subject.method.desc
      ∧ nm.flags = p.subject.method.flags ∧ nm.throws = p.subject.method.throws := by
  unfold generate at hgen
  split at hgen
  · cases hgen
  simp only at hgen
  split at hgen
  · cases hgen
  · cases hgen
    exact ⟨rfl, rfl, rfl, rfl⟩

/-- The method at work once its frames are known. -/
def Method.subject (m : Method) (src : ClassSource) (policy : Policy) (owner : Text)
    (types : FrameTypes) : Subject :=
  { source := src, policy, owner, method := m, types
    sink := src.sink.adding [("class", .text owner), ("method", .text m.key)] }

/-- What comes of a method whose frames are known is what comes of the work on it. -/
lemma Method.run_transform {src : ClassSource} {policy : Policy} {owner : Text} {m : Method} {T : FrameTypes}
    {h h₁ h' : Hierarchy} {r : Conclusion (Option Method)}
    (hrun : (Analysis.run { source := src, sink := src.sink, owner, method := m }).run h = (.ok T, h₁))
    (ht : (m.transform src policy owner).run h = (r, h')) :
    ∃ r', (m.subject src policy owner T).transform.run h₁ = (r', h') ∧ r = .ofExcept r' := by
  simp only [Method.transform, Query.run_bind, hrun] at ht
  obtain ⟨hvalue, hstate⟩ := Prod.mk.inj ht
  exact ⟨_, Prod.ext rfl hstate, hvalue.symm⟩

/-- **A transformation that succeeds** has analysed the frames of the method. -/
lemma Method.transform_eq_ok {src : ClassSource} {policy : Policy} {owner : Text} {m : Method}
    {h h' : Hierarchy} {o : Option Method} (ht : (Method.transform src policy owner m).run h = (.ok o, h')) :
    ∃ types h₁,
      (Analysis.run { source := src, sink := src.sink, owner, method := m }).run h = (.ok types, h₁)
        ∧ (m.subject src policy owner types).transform.run h₁ = (.ok o, h') := by
  cases hr : (Analysis.run { source := src, sink := src.sink, owner, method := m }).run h with
  | mk r h₁ =>
      cases r with
      | error | endless =>
          simp only [Method.transform, Query.run_bind, hr] at ht
          cases ht
      | ok types =>
          obtain ⟨r', hs, hvalue⟩ := run_transform hr ht
          exact ⟨types, h₁, rfl, Conclusion.ofExcept_eq_ok.mp hvalue.symm ▸ hs⟩

/-- **Every transformation that changes a method follows a plan.** -/
lemma Method.transform_makes {src : ClassSource} {policy : Policy} {owner : Text} {m nm : Method}
    {h h' : Hierarchy} (ht : (Method.transform src policy owner m).run h = (.ok (some nm), h')) :
    ∃ p, Plan.Makes src owner m h p nm := by
  obtain ⟨types, h₁, hr, ht⟩ := transform_eq_ok ht
  simp only [Subject.transform, Query.run_bind] at ht
  cases hc : (SuspensionPoint.collect (m.subject src policy owner types)).run h₁ with
  | mk rc h₂ =>
      rw [hc] at ht
      cases rc with
      | error e => cases ht
      | ok points =>
          cases points with
          | nil => cases ht
          | cons q qs =>
              simp only [Query.run_bind] at ht
              split at ht
              · cases ht
              simp only [Query.run_bind] at ht
              split at ht
              · cases ht
              next hsignal =>
              simp only [Query.run_bind, Query.run_pure] at ht
              refine ⟨⟨m.subject src policy owner types, q :: qs⟩, rfl, rfl, rfl, ⟨h₁, h₂, hr, hc⟩, by simp,
                ?_, ?_⟩
              · intro r hmem hty
                exact hsignal (List.any_eq_true.mpr ⟨r, hmem, by simpa using hty⟩)
              · have hmap := (Prod.mk.inj ht).1
                generalize Plan.generate _ = g at hmap ⊢
                cases g with
                | error e => cases hmap
                | ok nm' =>
                    cases hmap
                    rfl

/-! ## Methods and classes -/

namespace Instrumenter

variable {i : Instrumenter} {owner : Text} {h : Hierarchy}

/-- **So does every treatment that changes a method.** -/
lemma treat_makes {m nm : Method} (ht : ((i.treat owner m).run h).1 = .instrumented nm) :
    ∃ p, Plan.Makes i.source owner m h p nm := by
  unfold treat at ht
  split at ht
  · cases ht
  split at ht
  · cases ht
  split at ht
  · cases ht
  split at ht
  · cases ht
  simp only [Query.run_bind] at ht
  cases hr : (m.transform i.source i.policy owner).run h with
  | mk r h' =>
      rw [hr] at ht
      cases r with
      | error | endless => cases ht
      | ok o =>
          cases o with
          | none => cases ht
          | some result =>
              obtain ⟨p, hp⟩ := Method.transform_makes hr
              simp only [Query.run_pure, checked] at ht
              split at ht
              · cases ht
                exact ⟨p, hp⟩
              · split at ht
                · cases ht
                  exact ⟨p, hp⟩
                · cases ht

/-- **What is put in place of a class**: its methods are treated once the class is recorded, and it is
marked. -/
lemma onClass_eq_some {c c' : Class} {r : ClassReport} (hrun : ((i.onClass c).run h).1 = some (some c', r)) :
    ∃ ms, ((i.treatAll c.name c.methods { cls := c.name }).run ((Hierarchy.record i.source c).run h).2).1
        = some (ms, r)
      ∧ c' = { c with
        methods := ms
        annotations := c.annotations ++ [ClassName.instrumentedMark] } := by
  unfold onClass at hrun
  dsimp only at hrun
  split at hrun
  · cases hrun
  split at hrun
  · cases hrun
  simp only [Query.run_bind] at hrun
  split at hrun
  · cases hrun
  next ms r' htreated =>
  split at hrun
  · cases hrun
  · simp only [Query.run_bind, Query.run_pure] at hrun
    cases hrun
    exact ⟨ms, htreated, rfl⟩

/-- **What is loaded in the place of a class**: the class that its transformation gives, or the class itself. -/
lemma onLoad_eq_ok {c c' : Class} (hrun : ((i.onLoad c).run h).1 = .ok c') :
    ∃ c? r, ((i.onClass c).run h).1 = some (c?, r) ∧ c' = c?.getD c := by
  simp only [onLoad, Query.run_bind] at hrun
  cases hclass : ((i.onClass c).run h).1 with
  | none =>
      rw [hclass] at hrun
      cases hrun
  | some outcome =>
      rw [hclass] at hrun
      dsimp only at hrun
      split at hrun
      · cases hrun
      · cases hrun
        exact ⟨_, _, rfl, rfl⟩

end Instrumenter

end Suspension
