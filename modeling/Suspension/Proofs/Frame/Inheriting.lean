import Suspension.Proofs.Frame.Bounding

/-!
# What frames inherit

A property of frames at their positions that an instruction hands on to its successors and handlers, and that
two frames hand on to what they come to where they meet, holds of **every frame of a finished analysis**.
Transitions are those of the constructions as they are known in the end, and an element is loaded only from
arrays that the analysis loads from.

* `Analysis.Inherits` — such a property.
* `Analysis.run_inherits` — it holds of all frames.
-/

namespace Suspension

open Relation (ReflTransGen)

namespace Analysis

open Transfer

variable {V : ClassView} {ctx : AnalysisContext} {U : ClassOrder ctx.source V} {S : List Site}
  {spans : List HandlerSpan} {P : Nat → Frame → Prop} {position : Nat} {a a' : Analysis}

/-- **A property of frames at their positions that is handed on.** -/
structure Inherits (U : ClassOrder ctx.source V) (S : List Site) (spans : List HandlerSpan)
    (P : Nat → Frame → Prop) : Prop where
  joins : ∀ {i : Nat} {f g r : Frame}, P i f → P i g → f.locals.size = g.locals.size →
    Frame.Joins ctx.source V f g r → P i r
  handler : ∀ {i : Nat} {f : Frame}, P i f → ∀ s ∈ spans, s.start ≤ i → i < s.stop →
    P s.handler ⟨f.locals, [.ref s.cls]⟩
  step : ∀ {i : Nat} {f after : Frame} {instr : Instruction}, P i f → ctx.method.code[i]? = some instr →
    Frame.Transition S i instr f after → U.LoadsFrom instr f → U.Builds f →
      (∀ s ∈ spans, s.start ≤ i → i < s.stop → P s.handler ⟨after.locals, [.ref s.cls]⟩) ∧
      (∀ id ∈ instr.targets, ∀ t, ctx.method.code.labelAt? id = some t → P t after) ∧
      (instr.opcode.endsBlock = false → i + 1 < ctx.method.code.size → P (i + 1) after)

/-- The frames found so far have a property, if the constructions become what they are known as. -/
structure Inheriting (V : ClassView) (ctx : AnalysisContext) (S : List Site) (P : Nat → Frame → Prop)
    (a : Analysis) : Prop where
  work : AtWork V ctx a
  holds : Site.Grow a.sites S → ∀ {i : Nat} {f : Frame}, a.frames[i]? = some (some f) → P i f

/-- What is merged must be a frame of the method with the property. -/
structure Offered (ctx : AnalysisContext) (S : List Site) (P : Nat → Frame → Prop) (a : Analysis) (target : Nat)
    (f : Frame) : Prop where
  lt : target < ctx.method.code.size
  known : f.Known a.sites
  width : f.locals.size = ctx.method.maxLocals.toNat
  holds : Site.Grow a.sites S → P target f

/-- **Merging hands the property on.** -/
lemma mergeInto_inherits (hP : Inherits U S spans P) (ha : Inheriting V ctx S P a) {target : Nat} {g : Frame}
    {u : Unit} (hg : Offered ctx S P a target g) (h : Gives (mergeInto ctx position target g) a u a') :
    Inheriting V ctx S P a' ∧ ∀ t g', Offered ctx S P a t g' → Offered ctx S P a' t g' := by
  obtain ⟨hwork, hascends, -⟩ := mergeInto_ascends (U := U) ha.work hg.lt hg.known hg.width h
  refine ⟨⟨hwork, fun hS i f hf => ?_⟩, fun t g' h' =>
    ⟨h'.lt, h'.known.grow hascends.grow, h'.width, fun hS => h'.holds (hascends.grow.trans hS)⟩⟩
  have hS := hascends.grow.trans hS
  have hwidth : ∀ old, a.frames[target]? = some (some old) → old.locals.size = g.locals.size :=
    fun old hold => (ha.work.valid.width _ _ hold).trans hg.width.symm
  rcases mergeInto_joins ha.work.shows hwidth h with ⟨-, hframes⟩ | ⟨new, hframes, -, hnew⟩
  · exact ha.holds hS (hframes ▸ hf)
  rw [hframes, Array.set!_eq_setIfInBounds, Array.getElem?_setIfInBounds] at hf
  split at hf
  · next hi =>
      subst hi
      split at hf
      · cases hf
        rcases hnew with ⟨-, rfl⟩ | ⟨old, hold, hjoins⟩
        · exact hg.holds hS
        · exact hP.joins (ha.holds hS hold) (hg.holds hS) (hwidth old hold) hjoins
      · cases hf
  · exact ha.holds hS hf

/-- **Following an instruction hands the property on.** -/
lemma step_inherits (hP : Inherits U S spans P) (hspans : ∀ s ∈ spans, s.handler < ctx.method.code.size)
    (ha : Inheriting V ctx S P a)
    (hnew : ∀ (i : Nat) (cls : Text), ctx.method.code[i]? = some ⟨.new, .type cls⟩ → U.builds cls)
    (hloads : ∀ f instr, a.frames[position]? = some (some f) → ctx.method.code[position]? = some instr →
      U.LoadsFrom instr f) {u : Unit} (h : Gives (step ctx spans position) a u a') :
    Inheriting V ctx S P a' := by
  have hmerge : ∀ {a a' : Analysis} {t : Nat} {g : Frame} {u : Unit}, Inheriting V ctx S P a →
      Offered ctx S P a t g → Gives (mergeInto ctx position t g) a u a' →
        Inheriting V ctx S P a' ∧ ∀ t g', Offered ctx S P a t g' → Offered ctx S P a' t g' :=
    fun ha hg h => mergeInto_inherits hP ha hg h
  refine step_keeps_from hmerge
    (fun {a f} ha hf s hs hstart hstop => ?_) ha (fun {a' f g instr} hf hinstr hexec => ?_) h
  · have hwidth := ha.work.valid.width _ _ hf
    exact ⟨hspans s hs, known_handler (ha.work.valid.known _ _ hf) _, hwidth,
      fun hS => hP.handler (ha.holds hS hf) s hs hstart hstop⟩
  · have hx := Frame.execute_transition (C := Classes.empty) hinstr hexec
    have hkf := ha.work.valid.known _ _ hf
    have htr := hx.transition ha.work.valid.sound hkf
    have hgrow := (hx.learns.sound ha.work.valid.sound).2
    have hka := hx.known ha.work.valid.sound hkf
    have hwa : g.locals.size = ctx.method.maxLocals.toNat := by
      rw [htr.size_locals]
      exact ha.work.valid.width _ _ hf
    have hstep := fun hS : Site.Grow a'.sites S =>
      hP.step (ha.holds (hgrow.trans hS) hf) hinstr (htr.grow hS) (hloads f instr hf hinstr)
        (ha.work.builds hnew hf)
    refine ⟨⟨⟨hx.learns.valid ha.work.valid, (Frame.respects_execute (Hierarchy.lasting_shows ctx.source V) _ _
        _).gives hexec ha.work.shows⟩, fun hS i f' hf' => ?_⟩, fun s hs hstart hstop => ?_,
          fun id hid t ht => ?_,
      fun hends hlt => ?_⟩
    · rw [hx.learns.frames] at hf'
      exact ha.holds (hgrow.trans hS) hf'
    · exact ⟨hspans s hs, known_handler hka _, hwa, fun hS => (hstep hS).1 s hs hstart hstop⟩
    · exact ⟨Code.labelAt?_lt ht, hka, hwa, fun hS => (hstep hS).2.1 id hid t ht⟩
    · exact ⟨hlt, hka, hwa, fun hS => (hstep hS).2.2 hends hlt⟩

/-- **What is handed on holds of all frames of a finished analysis**, if it holds at the entry. -/
theorem run_inherits {h h' : Hierarchy} (hh : h.Shows ctx.source V) {T : FrameTypes} {entry : Frame}
    (hrun : (run ctx).run h = (.ok T, h'))
    (hss : Analysis.spans ctx.method.code ctx.method.ranges 0 = .ok spans)
    (hentry : entryFrame ctx.owner ctx.method = .ok entry) (hP : Inherits U T.sites spans P)
    (hzero : 0 < ctx.method.code.size → P 0 entry)
    (hnew : ∀ (i : Nat) (cls : Text), ctx.method.code[i]? = some ⟨.new, .type cls⟩ → U.builds cls)
    (hloads : ∀ array, Loads ctx h array → U.loads array.typeName) :
    ∀ {i : Nat} {f : Frame}, T.frames[i]? = some (some f) → P i f := by
  obtain ⟨ss', entry', a₁, a₂, hss', hentry', hmerge, hfollow, rfl, rfl⟩ := run_eq_ok hrun
  obtain rfl : spans = ss' := Except.ok.inj (hss.symm.trans hss')
  obtain rfl : entry = entry' := Except.ok.inj (hentry.symm.trans hentry')
  have hnone := unreached_replicate ctx.method.code.size
  have hstart : Inheriting V ctx (a₂.sites.mergeSort fun x y => x.newAt ≤ y.newAt) P (start ctx h) :=
    ⟨atWork_start hh, fun _ i f hf => absurd hf (hnone i f)⟩
  have hfirst : Inheriting V ctx (a₂.sites.mergeSort fun x y => x.newAt ≤ y.newAt) P a₁ := by
    by_cases hsize : 0 < ctx.method.code.size
    · exact (mergeInto_inherits hP hstart ⟨hsize, known_entryFrame hentry [], size_entryFrame hentry,
        fun _ => hzero hsize⟩ hmerge).1
    · rcases mergeInto_cases hmerge with ⟨-, rfl⟩ | ⟨hat, -⟩ | ⟨old, _, _, _, _, hat, -⟩
      · exact hstart
      · rw [Array.getElem?_eq_none (by simpa using hsize)] at hat
        cases hat
      · exact absurd hat (hnone 0 old)
  let motive (a : Analysis) (r : Ending) : Prop := r.1 = .ok () → Visits ctx h spans a →
    Inheriting V ctx (a₂.sites.mergeSort fun x y => x.newAt ≤ y.newAt) P a →
      Inheriting V ctx (a₂.sites.mergeSort fun x y => x.newAt ≤ y.newAt) P r.2
  have hlast : Inheriting V ctx (a₂.sites.mergeSort fun x y => x.newAt ≤ y.newAt) P a₂ := by
    refine follow_induction (motive := motive) ?_ ?_ ?_ hfollow rfl ⟨entry, a₁, hentry, hmerge, .refl⟩ hfirst
    · exact fun a _ _ _ ha => ha
    · exact fun a i rest e a' _ _ hok => by cases hok
    · intro a i rest a' r hp hstep ih hok hvisits ha
      refine ih hok (hvisits.next ⟨i, rest, hp, hstep⟩) (step_inherits hP (handler_lt hss)
        ⟨ha.work.withPending rest, ha.holds⟩ hnew (fun f instr hf hinstr hop index array below hs => ?_) hstep)
      exact hloads array ⟨spans, a, i, rest, f, instr, index, below, hss, hvisits, hp, hf, hinstr, hop, hs⟩
  exact fun {i f} hf => hlast.holds
    (fun s hs => ⟨s, (List.mergeSort_perm _ _).mem_iff.mpr hs, rfl, rfl, id, fun _ h => h⟩) hf

end Analysis

end Suspension
