import Suspension.Proofs.Frame.Termination
import Suspension.Proofs.Instrument.Lasting
import Suspension.Proofs.Instrument.Points

/-!
# Transforming a class ends

Only the frame analysis may go on for ever.  It does not where every chain of superclasses ends and none
leads to the name of the null constant; then **the work on every class that is at hand ends**, once the class
itself is part of the view.

* `ClassView.Grounded` — the condition on the view of the classes.
* `Method.transform_ne_endless`, `Instrumenter.treat_ne_endless` — a method.
* `Instrumenter.onClass_isSome` — a class.
-/

namespace Suspension

open Hierarchy

/-! ## Views -/

namespace ClassView

variable {V : ClassView}

/-- **Every chain of superclasses is finite**, and no class extends one with the name of the null constant. -/
structure Grounded (V : ClassView) : Prop where
  finite : WellFounded fun s cls => (V cls).super? = some s
  apart : ∀ cls, (V cls).super? ≠ some ClassName.null

/-- Chains that are finite end at the root, or where no superclass is known. -/
lemma Grounded.ends (hV : V.Grounded) : V.Ends := Subrelation.wf And.right hV.finite

/-- Classes that extend the root only. -/
lemma grounded_of_root (h : ∀ cls s, (V cls).super? = some s → cls ≠ ClassName.object ∧ s = ClassName.object) :
    V.Grounded where
  finite := by
    have hobject : Acc (fun s cls => (V cls).super? = some s) ClassName.object :=
      ⟨_, fun s hs => absurd rfl (h _ _ hs).1⟩
    exact ⟨fun cls => ⟨_, fun s hs => (h cls s hs).2 ▸ hobject⟩⟩
  apart := fun cls hnull => absurd (h cls _ hnull).2 (by decide)

/-- A class that extends the root, where no other one is known. -/
lemma grounded_single {c : Class} (hname : c.name ≠ ClassName.object) (hsuper : c.super = ClassName.object) :
    Grounded (Function.update ({} : ClassSource).entryOf c.name (.known (.ofClass c))) := by
  refine grounded_of_root fun cls s hs => ?_
  by_cases hcls : cls = c.name
  · subst hcls
    rw [Function.update_self] at hs
    exact ⟨hname, (nonEmpty_eq_some hs).1.symm.trans hsuper⟩
  · rw [Function.update_of_ne hcls] at hs
    cases hs

end ClassView

variable {V : ClassView} {h : Hierarchy}

/-! ## Methods -/

/-- **The analysis of a method ends.** -/
lemma Analysis.run_ne_endless {ctx : AnalysisContext} (hV : V.Grounded) (hh : h.Shows ctx.source V) :
    ((Analysis.run ctx).run h).1 ≠ .endless := by
  intro hrun
  obtain ⟨ss, entry, a, -, -, hmerge, hnone⟩ := run_eq_endless hrun
  have ha := (respects_mergeInto (lasting_shows ctx.source V) _ _ _).gives hmerge hh
  obtain ⟨r, hr⟩ : ∃ r, follow ctx ss a = some r := follow_ends hV.ends (fun cls h => hV.apart cls h.2) ha
  cases hnone.symm.trans hr

/-- **So does its transformation.** -/
lemma Method.transform_ne_endless {src : ClassSource} {policy : Policy} {owner : Text} {m : Method}
    (hV : V.Grounded) (hh : h.Shows src V) :
    ((Method.transform src policy owner m).run h).1 ≠ .endless := by
  have hrun : ((Analysis.run { source := src, sink := src.sink, owner, method := m }).run h).1 ≠ .endless :=
    Analysis.run_ne_endless hV hh
  simp only [Method.transform, Query.run_bind]
  generalize (Analysis.run { source := src, sink := src.sink, owner, method := m }).run h = r at hrun
  obtain ⟨r, h'⟩ := r
  cases r with
  | endless => exact absurd rfl hrun
  | error e =>
      intro hr
      cases hr
  | ok types => exact Conclusion.ofExcept_ne_endless _

/-- Where the analysis goes on for ever the transformation does. -/
lemma Method.transform_eq_endless {src : ClassSource} {policy : Policy} {owner : Text} {m : Method}
    (hr : ((Analysis.run { source := src, sink := src.sink, owner, method := m }).run h).1 = .endless) :
    ((Method.transform src policy owner m).run h).1 = .endless := by
  simp only [Method.transform, Query.run_bind, hr]
  rfl

/-! ## Classes -/

namespace Instrumenter

variable {i : Instrumenter} {owner : Text}

/-- The methods that are looked at: they declare the signal, are neither constructors nor initialisers,
have a body, and are synchronized only if that is allowed. -/
structure Eligible (i : Instrumenter) (m : Method) : Prop where
  declares : m.declares ClassName.suspendSignal = true
  ordinary : m.name.startsWith (Text.ofString "<") = false
  body : m.hasBody = true
  unsynchronized : m.isSynchronized = true → i.policy.allowMonitors = true

/-- A treatment leaves the view as it is. -/
lemma shows_treat (hh : h.Shows i.source V) (owner : Text) (m : Method) :
    ((i.treat owner m).run h).2.Shows i.source V :=
  (respects_treat (lasting_sameView i.source V) owner m ⟨hh, hh⟩).2.1

/-- To look at a result does not take for ever. -/
lemma checked_ne_endless (m m' : Method) : i.checked owner m m' ≠ .endless := by
  unfold checked
  split
  · exact Treatment.noConfusion
  · split <;> exact Treatment.noConfusion

/-- **The treatment of a method ends.** -/
lemma treat_ne_endless (hV : V.Grounded) (hh : h.Shows i.source V) (m : Method) :
    ((i.treat owner m).run h).1 ≠ .endless := by
  unfold treat
  split
  · exact Treatment.noConfusion
  split
  · exact Treatment.noConfusion
  split
  · exact Treatment.noConfusion
  split
  · exact Treatment.noConfusion
  have hrun : ((m.transform i.source i.policy owner).run h).1 ≠ .endless := Method.transform_ne_endless hV hh
  simp only [Query.run_bind]
  generalize (m.transform i.source i.policy owner).run h = r at hrun
  obtain ⟨r, h'⟩ := r
  match r with
  | .endless => exact absurd rfl hrun
  | .error e => exact Treatment.noConfusion
  | .ok none => exact Treatment.noConfusion
  | .ok (some m') => exact checked_ne_endless m m'

/-- Where the transformation of a method does not end its treatment does not. -/
lemma treat_eq_endless {m : Method} (hm : i.Eligible m)
    (hr : ((m.transform i.source i.policy owner).run h).1 = .endless) :
    ((i.treat owner m).run h).1 = .endless := by
  unfold treat
  rw [if_neg (by simp [hm.declares]), if_neg (by simp [hm.ordinary]), if_neg (by simp [hm.body]),
    if_neg (by simpa using hm.unsynchronized)]
  simp only [Query.run_bind, hr]
  rfl

/-- **So do the treatments of all methods.** -/
lemma treatAll_isSome (hV : V.Grounded) (hh : h.Shows i.source V) (ms : List Method) (r : ClassReport) :
    ((i.treatAll owner ms r).run h).1.isSome := by
  induction ms generalizing h r with
  | nil => rfl
  | cons m rest ih =>
      have hends : ((i.treat owner m).run h).1 ≠ .endless := treat_ne_endless hV hh m
      have hafter := shows_treat hh owner m
      unfold treatAll
      simp only [Query.run_bind]
      cases ht : ((i.treat owner m).run h).1 with
      | endless => exact absurd ht hends
      | untouched | skipped | instrumented m' =>
          simp only [Query.run_bind, Query.run_pure, Option.isSome_map]
          exact ih hafter _
      | failed e =>
          have hlogged := (respects_send (V := V) i.source.sink .error "unable to instrument method"
            [("class", .text owner), ("method", .text m.key), ("error", .text e.text)]
            ⟨hafter, hafter⟩).2.1
          simp only [Query.run_bind, Query.run_pure, Option.isSome_map]
          exact ih hlogged _

/-- With a treatment that does not end those of the methods behind it are not begun. -/
lemma treatAll_eq_none {m : Method} {rest : List Method} {r : ClassReport}
    (ht : ((i.treat owner m).run h).1 = .endless) : ((i.treatAll owner (m :: rest) r).run h).1 = none := by
  unfold treatAll
  simp only [Query.run_bind, ht]
  rfl

/-- The classes that are left alone: marked ones, core ones, and those of the coroutine package. -/
def LeavesAlone (i : Instrumenter) (c : Class) : Prop :=
  c.hasAnnotation ClassName.instrumentedMark = true ∨ isCore i.source c.name = true
    ∨ c.name.startsWith coroutinePackage = true

lemma run_onClass_leavesAlone {c : Class} (hc : i.LeavesAlone c) :
    ((i.onClass c).run h).1 = some (none, { cls := c.name }) := by
  unfold onClass
  dsimp only
  split
  · rfl
  next hmark =>
  split
  · rfl
  next hother =>
  rcases hc with hc | hc | hc
  · exact absurd hc hmark
  · exact absurd (by simp [hc]) hother
  · exact absurd (by simp [hc]) hother

/-- **A class that is not left alone** is recorded, and then its methods are treated. -/
lemma run_onClass {c : Class} (hc : ¬ i.LeavesAlone c) :
    ((i.onClass c).run h).1
      = ((i.treatAll c.name c.methods { cls := c.name }).run ((record i.source c).run h).2).1.map
        fun (ms, r) => (if r.instrumented = [] then none else some { c with
          methods := ms, annotations := c.annotations ++ [ClassName.instrumentedMark] }, r) := by
  simp only [LeavesAlone, not_or, Bool.not_eq_true] at hc
  obtain ⟨hmark, hcore, hcoroutine⟩ := hc
  unfold onClass
  dsimp only
  rw [if_neg (by simp [hmark]), if_neg (by simp [hcore, hcoroutine])]
  simp only [Query.run_bind]
  rcases (i.treatAll c.name c.methods { cls := c.name }).run ((record i.source c).run h).2
    with ⟨_ | ⟨ms, r⟩, h'⟩
  · rfl
  dsimp only [Option.map_some]
  by_cases hnone : r.instrumented = []
  · rw [if_pos (by simp [ClassReport.isChanged, hnone]), if_pos hnone]
    rfl
  · rw [if_neg (by simp [ClassReport.isChanged, hnone]), if_neg hnone]
    rfl

/-- **The work on a class ends**, if the view with that class is grounded. -/
lemma onClass_isSome {c : Class} (hh : h.Shows i.source V)
    (hV : ClassView.Grounded (Function.update V c.name (.known (.ofClass c)))) :
    ((i.onClass c).run h).1.isSome := by
  by_cases hc : i.LeavesAlone c
  · rw [run_onClass_leavesAlone hc]
    rfl
  · rw [run_onClass hc, Option.isSome_map]
    exact treatAll_isSome hV (hh.record c) _ _

end Instrumenter

end Suspension
