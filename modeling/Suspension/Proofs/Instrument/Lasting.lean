import Suspension.Instrument.Class
import Suspension.Proofs.Frame.Lasting

/-!
# What transforming a class leaves as it is

To transform a class, questions are asked about the calls in it, its frames are analysed, the class is
recorded, and messages are logged.  So **a relation between states of knowledge that lasts through questions
lasts through the transformation of every class** that may be recorded, whether its methods are transformed
or not: related states are not told apart.

* `Method.respects_transform` — one method.
* `Instrumenter.respects_onClass`, `Instrumenter.respects_onBytes` — a class, and an encoded one.
* `Instrumenter.treatAll_forall₂` — what stands in the place of the methods of a class.
-/

namespace Suspension

open Query

variable {R : Hierarchy → Hierarchy → Prop}

/-! ## The search for suspension points -/

lemma respects_callKind {src : ClassSource} (hR : Hierarchy.Lasting src R) (op : Opcode) (m : Member) :
    Respects R (callKind src op m) := by
  unfold callKind
  split
  · exact respects_pure _
  refine (hR.isSuspendable _ _ _ _).bind fun answer => ?_
  split
  · split <;> exact respects_pure _
  · split <;> exact respects_pure _

namespace PointSearch

variable {s : Subject} (hR : Hierarchy.Lasting s.source R)
include hR

lemma respects_reportDeferred (sites : List Nat) (acc : PointSearch) :
    Respects R (reportDeferred s sites acc) := by
  induction sites generalizing acc with
  | nil => exact respects_pure _
  | cons newAt rest ih =>
      unfold reportDeferred
      split
      · exact ih acc
      split
      · exact ih acc
      · exact (hR.send _ _ _ _).bind fun _ => ih _

lemma respects_add (acc : PointSearch) (position : Nat) (call : Instruction) (f : Frame)
    (isYield : Bool) : Respects R (add s acc position call f isYield) :=
  (respects_reportDeferred hR _ _).bind fun _ => respects_pure _

lemma respects_block (acc : PointSearch) (m : Member) (row : Nat) :
    Respects R (block s acc m row) := by
  unfold block
  split
  · exact respects_pure _
  split
  · exact respects_pure _
  · exact (hR.send _ _ _ _).bind fun _ => respects_pure _

/-- **One instruction.** -/
lemma respects_visit (acc : PointSearch) (position : Nat) (instr : Instruction) (f : Frame) :
    Respects R (visit s acc position instr f) := by
  unfold visit
  split
  · exact respects_pure _
  refine (respects_callKind hR _ _).bind fun kind => ?_
  cases kind with
  | plain | badYield => exact respects_pure _
  | reflective | suspends =>
      exact (hR.send _ _ _ _).bind fun _ => (respects_add hR _ _ _ _ _).bind fun _ => respects_pure _
  | yields => exact (respects_add hR _ _ _ _ _).bind fun _ => respects_pure _
  | blocks row => exact respects_block hR _ _ _

lemma respects_visitAll (instrs : List Instruction) (position : Nat) (acc : PointSearch) :
    Respects R (visitAll s instrs position acc) := by
  induction instrs generalizing position acc with
  | nil => exact respects_pure _
  | cons instr rest ih =>
      unfold visitAll
      split
      · exact ih _ _
      refine (respects_visit hR _ _ _ _).bind fun r => ?_
      cases r with
      | error e => exact respects_pure _
      | ok acc => exact ih _ _

end PointSearch

/-! ## One method -/

lemma Plan.respects_announce {p : Plan} (hR : Hierarchy.Lasting p.subject.source R) (i : Nat)
    (instrs : List Instruction) : Respects R (p.announce i instrs) := by
  induction instrs generalizing i with
  | nil => exact respects_pure _
  | cons instr rest ih =>
      unfold announce
      split
      · exact respects_pure _
      · exact ih _
      · exact (hR.send _ _ _ _).bind fun _ => ih _

namespace Subject

variable {s : Subject} (hR : Hierarchy.Lasting s.source R)
include hR

lemma respects_checkMonitors : Respects R s.checkMonitors := by
  unfold checkMonitors
  split
  · exact respects_pure _
  split
  · exact respects_pure _
  · exact (hR.send _ _ _ _).bind fun _ => respects_pure _

lemma respects_collect : Respects R (SuspensionPoint.collect s) := by
  refine (PointSearch.respects_visitAll hR _ _ _).bind fun r => ?_
  cases r <;> exact respects_pure _

lemma respects_transform : Respects R s.transform := by
  refine (respects_collect hR).bind fun r => ?_
  split
  · exact respects_pure _
  · exact respects_pure _
  refine (respects_checkMonitors hR).bind fun r => ?_
  cases r with
  | error e => exact respects_pure _
  | ok _ =>
      refine (hR.send _ _ _ _).bind fun _ => ?_
      split
      · exact respects_pure _
      · exact (Plan.respects_announce (p := ⟨s, _⟩) hR _ _).bind fun _ => respects_pure _

end Subject

/-- **Transforming a method.** -/
lemma Method.respects_transform {src : ClassSource} (hR : Hierarchy.Lasting src R) (policy : Policy)
    (owner : Text) (m : Method) : Respects R (m.transform src policy owner) := by
  let ctx : AnalysisContext := { source := src, sink := src.sink, owner, method := m }
  have hrun : Respects R (Analysis.run ctx) := Analysis.respects_run hR
  refine hrun.bind fun r => ?_
  cases r with
  | error | endless => exact respects_pure _
  | ok types =>
      let s : Subject :=
        { source := src, policy, sink := src.sink.adding [("class", .text owner), ("method", .text m.key)]
          owner, method := m, types }
      have hs : Respects R s.transform := Subject.respects_transform hR
      exact hs.bind fun _ => respects_pure _

/-! ## One class -/

namespace Instrumenter

variable {i : Instrumenter} (hR : Hierarchy.Lasting i.source R)
include hR

lemma respects_treat (owner : Text) (m : Method) : Respects R (i.treat owner m) := by
  unfold treat
  split
  · exact respects_pure _
  split
  · exact (hR.send _ _ _ _).bind fun _ => respects_pure _
  split
  · exact respects_pure _
  split
  · exact respects_pure _
  refine (Method.respects_transform hR _ _ _).bind fun r => ?_
  split <;> exact respects_pure _

lemma respects_treatAll (owner : Text) (ms : List Method) (r : ClassReport) :
    Respects R (i.treatAll owner ms r) := by
  induction ms generalizing r with
  | nil => exact respects_pure _
  | cons m rest ih =>
      unfold treatAll
      refine (respects_treat hR owner m).bind fun t => ?_
      cases t with
      | endless => exact respects_pure _
      | untouched | skipped | instrumented => exact (ih _).bind fun _ => respects_pure _
      | failed e => exact (hR.send _ _ _ _).bind fun _ => (ih _).bind fun _ => respects_pure _

/-- **Transforming a class**, one that may be recorded. -/
lemma respects_onClass {c : Class} (hrecord : Respects R (Hierarchy.record i.source c)) :
    Respects R (i.onClass c) := by
  unfold onClass
  dsimp only
  split
  · exact (hR.send _ _ _ _).bind fun _ => respects_pure _
  split
  · exact respects_pure _
  refine hrecord.bind fun _ => (respects_treatAll hR _ _ _).bind fun treated => ?_
  cases treated with
  | none => exact respects_pure _
  | some treated =>
      dsimp only
      split
      · exact respects_pure _
      · exact (hR.send _ _ _ _).bind fun _ => respects_pure _

lemma respects_onLoad {c : Class} (hrecord : Respects R (Hierarchy.record i.source c)) :
    Respects R (i.onLoad c) := by
  refine (respects_onClass hR hrecord).bind fun outcome => ?_
  cases outcome with
  | none => exact respects_pure _
  | some outcome =>
      dsimp only
      split <;> exact respects_pure _

/-- **Transforming an encoded class.** -/
lemma respects_onBytes {data : Bytes}
    (hrecord : ∀ c, Class.decode data = .ok c → Respects R (Hierarchy.record i.source c)) :
    Respects R (i.onBytes data) := by
  unfold onBytes
  split
  · exact respects_pure _
  next c hc =>
  refine (respects_onClass hR (hrecord c hc)).bind fun outcome => ?_
  match outcome with
  | none | some (none, _) => exact respects_pure _
  | some (some c', report) =>
      dsimp only
      split <;> exact respects_pure _

end Instrumenter

namespace Instrumenter

variable {i : Instrumenter} {owner : Text} {h : Hierarchy}

/-- **What stands in the place of each method** of a class, from what every treatment may put there.  A method
that is not transformed stays. -/
lemma treatAll_forall₂ {I : Hierarchy → Prop} {P : Method → Method → Prop}
    (hI : Hierarchy.Lasting i.source (Hierarchy.Holding I)) (hrefl : ∀ m, P m m)
    (htreat : ∀ {h m m'}, I h → ((i.treat owner m).run h).1 = .instrumented m' → P m m') (hh : I h)
    {ms ms' : List Method} {r r' : ClassReport}
    (hrun : ((i.treatAll owner ms r).run h).1 = some (ms', r')) : List.Forall₂ P ms ms' := by
  induction ms generalizing r h ms' with
  | nil =>
      cases hrun
      exact .nil
  | cons m rest ih =>
      have hafter := respects_holding.mp (respects_treat hI owner m) h hh
      unfold treatAll at hrun
      simp only [Query.run_bind] at hrun
      cases ht : ((i.treat owner m).run h).1 with
      | endless =>
          rw [ht] at hrun
          cases hrun
      | untouched | skipped =>
          simp only [ht, Query.run_bind, Query.run_pure, Option.map_eq_some_iff] at hrun
          obtain ⟨⟨ms₁, r₁⟩, hothers, heq⟩ := hrun
          cases heq
          exact .cons (hrefl m) (ih hafter hothers)
      | failed e =>
          simp only [ht, Query.run_bind, Query.run_pure, Option.map_eq_some_iff] at hrun
          obtain ⟨⟨ms₁, r₁⟩, hothers, heq⟩ := hrun
          cases heq
          exact .cons (hrefl m) (ih (respects_holding.mp (hI.send _ _ _ _) _ hafter) hothers)
      | instrumented m' =>
          simp only [ht, Query.run_bind, Query.run_pure, Option.map_eq_some_iff] at hrun
          obtain ⟨⟨ms₁, r₁⟩, hothers, heq⟩ := hrun
          cases heq
          exact .cons (htreat hh ht) (ih hafter hothers)

end Instrumenter

end Suspension
