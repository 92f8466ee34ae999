import Suspension.Proofs.Coroutine.Isolation

/-!
# Scripted coroutines are coroutines

A script decides beforehand what a body does and how it ends, and the runs of a scripted family are
computed.  **Such a run is a course of nested coroutines**, so scripted families keep to the discipline, and
their coroutines do not interfere: the history of each is a function of its scripts and of the number of
its runs.

* `Script.Body.own`, `Script.runsOf` — the actions of one run and of the first runs of a coroutine.
* `Script.Follows` — a course that scripts prescribe, within a chain of runs.
* `Script.run_follows` — running a coroutine follows its script; the fuel suffices.
* `Script.Family.runAll_history` — what comes of a schedule.
-/

namespace Suspension

open Coroutines

namespace Script

variable {α : Type}

/-! ## What scripts prescribe -/

/-- How a body of a script ends. -/
def Ending.bodyEnd : Ending → BodyEnd
  | returns => .returns
  | suspends => .fails (.condition .suspend)
  | suspendsWrapped => .fails (.context "wrapped" (.condition .suspend))
  | fails t => .fails (.plain t)
  | breaks => .breaks

lemma Ending.suspends_bodyEnd (e : Ending) : e.bodyEnd.suspends = e.isSuspension := by
  cases e <;> rfl

/-- The operation of an action on the coroutine's own stack. -/
def Action.own? : Action α → Option (OwnAction α)
  | .stack op => some (.acts op)
  | .isOwned | .run _ | .active | .state _ => none

/-- **The own actions of one run.** -/
def Body.own (b : Body α) : List (OwnAction α) :=
  .enters :: (b.actions.filterMap Action.own? ++ [.ends b.ending.bodyEnd])

/-- The own actions of the first runs; where there is no script left, the body returns at once. -/
def runsOf : List (Body α) → Nat → List (OwnAction α)
  | _, 0 => []
  | scripts, k + 1 => (scripts.head?.getD {}).own ++ runsOf scripts.tail k

lemma runsOf_add (scripts : List (Body α)) (k l : Nat) :
    runsOf scripts (k + l) = runsOf scripts k ++ runsOf (scripts.drop k) l := by
  induction k generalizing scripts with
  | zero => simp [runsOf]
  | succ k ih =>
    rw [Nat.succ_add, runsOf, runsOf, ih, List.append_assoc, List.drop_tail]

/-- The scripts that a coroutine has still to perform. -/
def Family.scriptsOf (f : Family α) (i : CoroutineId) : List (Body α) := (f.scripts[i]?).getD []

/-! ### Taking off a script -/

section

variable (f : Family α) (id : CoroutineId)

lemma nextBody_body : (f.nextBody id).1 = (f.scriptsOf id).head?.getD {} := by
  unfold Family.nextBody Family.scriptsOf
  rcases h : f.scripts[id]? with _ | _ | ⟨b, rest⟩ <;> simp

lemma world_nextBody : (f.nextBody id).2.world = f.world := by
  unfold Family.nextBody
  rcases h : f.scripts[id]? with _ | _ | ⟨b, rest⟩ <;> simp

lemma scriptsOf_nextBody_self : (f.nextBody id).2.scriptsOf id = (f.scriptsOf id).tail := by
  unfold Family.nextBody Family.scriptsOf
  rcases h : f.scripts[id]? with _ | _ | ⟨b, rest⟩
  · simp [h]
  · simp [h]
  · have hlt := (Array.getElem?_eq_some_iff.mp h).1
    simp [Array.getElem?_setIfInBounds_self_of_lt hlt]

lemma scriptsOf_nextBody_of_ne {i : CoroutineId} (hne : i ≠ id) :
    (f.nextBody id).2.scriptsOf i = f.scriptsOf i := by
  unfold Family.nextBody Family.scriptsOf
  rcases h : f.scripts[id]? with _ | _ | ⟨b, rest⟩
  · simp
  · simp
  · simp [Array.getElem?_setIfInBounds_ne hne.symm]

end

lemma actionsOf_append (i : CoroutineId) (es es' : List (Event α)) :
    actionsOf i (es ++ es') = actionsOf i es ++ actionsOf i es' := by
  simp [actionsOf, history]

lemma actionsOf_singleton (i : CoroutineId) (e : Event α) :
    actionsOf i [e] = ((e.own? i).map (·.action)).toList := by
  cases h : e.own? i <;> simp [actionsOf, history, h]

/-- The own actions of a whole run, and those of the others. -/
lemma actionsOf_run (i id : CoroutineId) (es : List (Event α)) (e : BodyEnd) (state : CoroutineState)
    (saved : List (FrameRecord α)) :
    actionsOf i ([] ++ [.entered id] ++ es ++ [.left id e state saved])
      = if id = i then .enters :: (actionsOf i es ++ [.ends e]) else actionsOf i es := by
  rw [actionsOf_append, actionsOf_append, List.nil_append, actionsOf_singleton, actionsOf_singleton,
    Event.own?, Event.own?]
  split
  · rfl
  · exact List.append_nil _

variable [Inhabited α]

/-! ## Following a script -/

/-- **A course that scripts prescribe**, within a chain of runs.  The innermost coroutine of the chain does
what is asked of it, the others of the chain do nothing, and each one outside makes some number of runs. -/
structure Follows (chain : List (CoroutineId × Option StackId)) (own : List (OwnAction α))
    (f f' : Family α) (es : List (Event α)) : Prop where
  course : Course ⟨f.world, chain⟩ es ⟨f'.world, chain⟩
  inside : ∀ i ∈ chain.map Prod.fst,
    actionsOf i es = (if (chain.map Prod.fst).head? = some i then own else [])
      ∧ f'.scriptsOf i = f.scriptsOf i
  outside : ∀ i ∉ chain.map Prod.fst,
    ∃ k, actionsOf i es = runsOf (f.scriptsOf i) k ∧ f'.scriptsOf i = (f.scriptsOf i).drop k

lemma Follows.trans {chain : List (CoroutineId × Option StackId)} {own own' : List (OwnAction α)}
    {f f' f'' : Family α} {es es' : List (Event α)} (h : Follows chain own f f' es)
    (h' : Follows chain own' f' f'' es') : Follows chain (own ++ own') f f'' (es ++ es') where
  course := h.course.trans h'.course
  inside i hi := by
    obtain ⟨hacts, hscripts⟩ := h.inside i hi
    obtain ⟨hacts', hscripts'⟩ := h'.inside i hi
    refine ⟨?_, hscripts'.trans hscripts⟩
    rw [actionsOf_append, hacts, hacts']
    split <;> simp
  outside i hi := by
    obtain ⟨k, hacts, hscripts⟩ := h.outside i hi
    obtain ⟨l, hacts', hscripts'⟩ := h'.outside i hi
    refine ⟨k + l, ?_, ?_⟩
    · rw [actionsOf_append, hacts, hacts', runsOf_add, hscripts]
    · rw [hscripts', hscripts, List.drop_drop]

/-- Nothing happens. -/
lemma Follows.refl (chain : List (CoroutineId × Option StackId)) (f : Family α) :
    Follows chain [] f f [] :=
  ⟨.refl, fun _ _ => ⟨by simp [actionsOf, history], rfl⟩, fun _ _ => ⟨0, rfl, rfl⟩⟩

/-- The trace is another matter. -/
lemma Follows.record {chain : List (CoroutineId × Option StackId)} {own : List (OwnAction α)}
    {f f' : Family α} {es : List (Event α)} (h : Follows chain own f f' es) (t : Trace α) :
    Follows chain own f (f'.record t) es := ⟨h.course, h.inside, h.outside⟩

/-- The innermost body operates on its stack. -/
lemma Follows.acts (chain : List (CoroutineId × Option StackId)) (f : Family α) (op : FrameStack.Op α) :
    Follows chain [.acts op] f { f with world := (onStack f.world f.world.ambient op).2 }
      [.acted (chain.map Prod.fst).head? op (onStack f.world f.world.ambient op).1] := by
  refine ⟨.tail .refl (.acts op), fun i _ => ⟨?_, rfl⟩, fun i hi => ⟨0, ?_, rfl⟩⟩
  · rw [actionsOf_singleton, Event.own?]
    split <;> rfl
  · have hne : (chain.map Prod.fst).head? ≠ some i := fun hhead => hi (List.mem_of_head? hhead)
    rw [actionsOf_singleton, Event.own?, if_neg hne]
    rfl

/-- **Performing actions follows them**, if running coroutines follows their scripts. -/
lemma perform_follows {fuel : Nat} {outer : Option StackId}
    {chain : List (CoroutineId × Option StackId)}
    (hrun : ∀ (f : Family α) (id : CoroutineId), Chained outer ⟨f.world, chain⟩ →
      f.world.coroutines.size < fuel + chain.length → ∃ es, Follows chain [] f (run fuel f id).2 es)
    (actions : List (Action α)) (f : Family α) (h : Chained outer ⟨f.world, chain⟩)
    (hfuel : f.world.coroutines.size < fuel + chain.length) :
    ∃ es, Follows chain (actions.filterMap Action.own?) f (perform fuel f actions) es := by
  induction actions generalizing f with
  | nil =>
    rw [perform]
    exact ⟨[], .refl chain f⟩
  | cons a rest ih =>
    -- whatever the first action comes to, the others go on from there
    have hgo : ∀ {own : List (OwnAction α)} {f' : Family α} {es : List (Event α)},
        Follows chain own f f' es →
        ∃ es, Follows chain (own ++ rest.filterMap Action.own?) f (perform fuel f' rest) es := by
      intro own f' es hfirst
      have hsize := hfirst.course.sameStacks.size
      obtain ⟨es', hrest⟩ := ih f' (h.course hfirst.course) (by rw [hsize]; exact hfuel)
      exact ⟨_, hfirst.trans hrest⟩
    cases a with
    | stack op =>
      rw [perform]
      exact hgo ((Follows.acts chain f op).record _)
    | run id =>
      obtain ⟨es, hfirst⟩ := hrun f id h hfuel
      rw [perform]
      exact hgo (hfirst.record _)
    | isOwned =>
      rw [perform]
      exact hgo ((Follows.refl chain f).record _)
    | active =>
      rw [perform]
      exact hgo ((Follows.refl chain f).record _)
    | state id =>
      rw [perform]
      exact hgo ((Follows.refl chain f).record _)

/-- **A coroutine that can be run follows its next script**, if performing actions follows them. -/
lemma Follows.enter {f f₂ : Family α} {w : Coroutines α} {id : CoroutineId} {outer : Option StackId}
    {chain : List (CoroutineId × Option StackId)} {es : List (Event α)}
    (h : Chained outer ⟨f.world, chain⟩) (hbegin : f.world.begin? id = .ok w)
    (hbody : Follows ((id, f.world.ambient) :: chain)
      ((({ f with world := w } : Family α).nextBody id).1.actions.filterMap Action.own?)
      (({ f with world := w } : Family α).nextBody id).2 f₂ es) :
    ∃ es, Follows chain [] f
      { f₂ with
        world := f₂.world.leave id f.world.ambient
          (({ f with world := w } : Family α).nextBody id).1.ending.isSuspension } es := by
  generalize hf₀ : ({ f with world := w } : Family α) = f₀ at hbody ⊢
  have hscripts : ∀ i, f₀.scriptsOf i = f.scriptsOf i := by subst hf₀; exact fun _ => rfl
  have hworld : (f₀.nextBody id).2.world = w := by rw [world_nextBody, ← hf₀]
  have hnot : id ∉ chain.map Prod.fst := fun hmem =>
    (begin?_ok hbegin).1 ((h.running id).mpr hmem)
  set b := (f₀.nextBody id).1 with hb
  have hcourse := ((Course.refl.tail (.enters hbegin)).trans (hworld ▸ hbody.course)).tail
    (.leaves b.ending.bodyEnd)
  rw [b.ending.suspends_bodyEnd] at hcourse
  refine ⟨_, hcourse, fun i hi => ?_, fun i hi => ?_⟩
  · have hne : id ≠ i := fun he => hnot (he ▸ hi)
    obtain ⟨hacts, hkept⟩ := hbody.inside i (List.mem_cons_of_mem _ hi)
    refine ⟨?_, ?_⟩
    · rw [actionsOf_run, if_neg hne, hacts, List.map_cons, List.head?_cons,
        if_neg fun he => hne (Option.some.inj he), ite_self]
    · exact hkept.trans ((scriptsOf_nextBody_of_ne f₀ id hne.symm).trans (hscripts i))
  · by_cases hne : id = i
    · subst hne
      obtain ⟨hacts, hkept⟩ := hbody.inside id List.mem_cons_self
      refine ⟨1, ?_, ?_⟩
      · have hown : runsOf (f.scriptsOf id) 1 = b.own := by
          simp [runsOf, hb, nextBody_body, hscripts]
        rw [hown, actionsOf_run, if_pos rfl, hacts, List.map_cons, List.head?_cons, if_pos rfl]
        rfl
      · refine hkept.trans ?_
        rw [scriptsOf_nextBody_self, hscripts, List.drop_one]
    · have hout : i ∉ id :: chain.map Prod.fst := List.not_mem_cons_of_ne_of_not_mem (Ne.symm hne) hi
      obtain ⟨k, hacts, hkept⟩ := hbody.outside i hout
      rw [scriptsOf_nextBody_of_ne f₀ id (Ne.symm hne), hscripts] at hacts hkept
      exact ⟨k, by rw [actionsOf_run, if_neg hne, hacts], hkept⟩

/-- **Running a coroutine follows its script.** -/
theorem run_follows {outer : Option StackId} (fuel : Nat) (f : Family α) (id : CoroutineId)
    (chain : List (CoroutineId × Option StackId)) (h : Chained outer ⟨f.world, chain⟩)
    (hfuel : f.world.coroutines.size < fuel + chain.length) :
    ∃ es, Follows chain [] f (run fuel f id).2 es := by
  induction fuel generalizing f id chain with
  | zero =>
    have hle : chain.length ≤ f.world.coroutines.size := h.length_le
    omega
  | succ fuel ih =>
    rw [run]
    cases hbegin : f.world.begin? id with
    | error c =>
      refine ⟨_, .tail .refl (.refuses hbegin), fun i _ => ⟨?_, rfl⟩, fun i _ => ⟨0, ?_, rfl⟩⟩
      · simp [actionsOf_singleton, Event.own?]
      · simp [actionsOf_singleton, Event.own?, runsOf]
    | ok w =>
      have hentered := h.step (.enters hbegin)
      have hworld := world_nextBody ({ f with world := w } : Family α) id
      have hsize : w.coroutines.size = f.world.coroutines.size :=
        (.enters hbegin : Coroutines.Step ⟨f.world, chain⟩ _ _).sameStacks.size
      obtain ⟨es, hbody⟩ := perform_follows (fun f id => ih f id _)
        (({ f with world := w } : Family α).nextBody id).1.actions
        (({ f with world := w } : Family α).nextBody id).2 (by rw [hworld]; exact hentered)
        (by rw [hworld, List.length_cons]; change w.coroutines.size < _; omega)
      exact Follows.enter h hbegin hbody

/-! ## Schedules -/

/-- The runs of a schedule, one after the other. -/
def Family.runAll (f : Family α) (schedule : List CoroutineId) : Family α :=
  schedule.foldl (fun f id => (f.run id).2) f

/-- **A schedule is a course that the scripts prescribe.** -/
lemma Family.runAll_follows {outer : Option StackId} (schedule : List CoroutineId) (f : Family α)
    (h : Chained outer ⟨f.world, []⟩) : ∃ es, Follows [] [] f (f.runAll schedule) es := by
  induction schedule generalizing f with
  | nil => exact ⟨[], .refl [] f⟩
  | cons id rest ih =>
    obtain ⟨es, hfirst⟩ := run_follows (f.world.coroutines.size + 1) f id [] h (Nat.lt_succ_self _)
    obtain ⟨es', hrest⟩ := ih (f.run id).2 (h.course hfirst.course)
    exact ⟨_, hfirst.trans hrest⟩

/-- **The history of a scripted coroutine is a function of its stack, its scripts and the number of its
runs**, whatever the others of its family do and in whatever order all are run. -/
theorem Family.runAll_history (f : Family α) (hfresh : f.world.Fresh) (schedule : List CoroutineId) :
    ∃ es, Course ⟨f.world, []⟩ es ⟨(f.runAll schedule).world, []⟩
      ∧ ∀ i, ∃ k, replay (f.world.view i) (runsOf (f.scriptsOf i) k)
        = (history i es, (f.runAll schedule).world.view i) := by
  obtain ⟨es, hfollows⟩ := f.runAll_follows schedule hfresh.chained
  refine ⟨es, hfollows.course, fun i => ?_⟩
  obtain ⟨k, hactions, -⟩ := hfollows.outside i List.not_mem_nil
  exact ⟨k, by rw [← hactions]; exact hfresh.chained.replay_course hfollows.course⟩

end Script

end Suspension
