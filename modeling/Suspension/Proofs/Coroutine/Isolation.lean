import Suspension.Proofs.Coroutine.Discipline

/-!
# Coroutines do not interfere

What a coroutine sees of itself are the answers to the operations of its body, and the state and the saved
frames that each of its runs leaves it with.  The ambient stack is always that of the innermost running
coroutine, so nothing else reaches the stack of a coroutine: **its history is a function of its own
actions**, whatever the others do before, between and within its runs.

* `Coroutines.OwnEvent`, `Coroutines.OwnAction` — what a coroutine sees of itself, and what it does.
* `Coroutines.react`, `Coroutines.replay` — the history of a coroutine that is alone.
* `Coroutines.Chained.replay_course` — its history among others is that history.
* `Coroutines.course_undisturbed` — two courses with the same own actions have the same own history.
-/

namespace Suspension

namespace Coroutines

variable {α : Type}

/-! ## A coroutine by itself -/

/-- **What a coroutine sees of itself.** -/
inductive OwnEvent (α : Type) where
  | acted (op : FrameStack.Op α) (answer : FrameStack.Answer α)
  | entered
  | left (e : BodyEnd) (state : CoroutineState) (saved : List (FrameRecord α))

/-- What a coroutine does. -/
inductive OwnAction (α : Type) where
  | acts (op : FrameStack.Op α)
  | enters
  | ends (e : BodyEnd)

/-- What is done in an event; the rest of it is the answer. -/
def OwnEvent.action : OwnEvent α → OwnAction α
  | acted op _ => .acts op
  | entered => .enters
  | left e _ _ => .ends e

/-- What a coroutine sees of an event. -/
def Event.own? (i : CoroutineId) : Event α → Option (OwnEvent α)
  | acted actor op answer => if actor = some i then some (.acted op answer) else none
  | refused _ _ => none
  | entered id => if id = i then some .entered else none
  | left id e state saved => if id = i then some (.left e state saved) else none

/-- **The history of a coroutine** on a course. -/
def history (i : CoroutineId) (es : List (Event α)) : List (OwnEvent α) := es.filterMap (Event.own? i)

/-- The actions of a coroutine on a course. -/
def actionsOf (i : CoroutineId) (es : List (Event α)) : List (OwnAction α) := (history i es).map (·.action)

/-- A coroutine with its stack. -/
structure View (α : Type) where
  state : CoroutineState
  stack? : Option (FrameStack α)

/-- A coroutine of a world, with its stack. -/
def view (w : Coroutines α) (i : CoroutineId) : View α := ⟨w.stateOf i, w.ownStack? i⟩

/-- The state of a new coroutine can be told from its stack. -/
lemma Fresh.stateOf_eq {w : Coroutines α} (h : w.Fresh) (i : CoroutineId) :
    w.stateOf i = if (w.ownStack? i).isSome then .new else .finished := by
  by_cases hi : i < w.coroutines.size
  · obtain ⟨s, hs⟩ := h.chained.exists_ownStack hi
    rw [h.new i hi, hs]
    rfl
  · have hle := Nat.le_of_not_lt hi
    rw [ownStack?_of_le hle]
    by_contra hne
    exact hi (lt_size_of_stateOf_ne hne)

lemma Fresh.view_eq {w w' : Coroutines α} {i : CoroutineId} (h : w.Fresh) (h' : w'.Fresh)
    (hstack : w.ownStack? i = w'.ownStack? i) : w.view i = w'.view i := by
  rw [view, view, h.stateOf_eq, h'.stateOf_eq, hstack]

variable [Inhabited α]

/-- **What comes of an action** when there is nothing but the coroutine and its stack. -/
def react (v : View α) : OwnAction α → OwnEvent α × View α
  | .acts op =>
    (.acted op ((v.stack?.map fun s => (s.apply op).1).getD .misuse),
      { v with stack? := v.stack?.map fun s => (s.apply op).2 })
  | .enters => (.entered, { v with state := .running })
  | .ends e =>
    let stack? := v.stack?.map fun s => if e.suspends then s.rewind else s
    (.left e (stateAfter e.suspends) ((stack?.map (·.frames)).getD []),
      ⟨stateAfter e.suspends, stack?⟩)

/-- The history of a coroutine that is alone. -/
def replay : View α → List (OwnAction α) → List (OwnEvent α) × View α
  | v, [] => ([], v)
  | v, a :: rest => ((react v a).1 :: (replay (react v a).2 rest).1, (replay (react v a).2 rest).2)

lemma replay_append (v : View α) (as bs : List (OwnAction α)) :
    replay v (as ++ bs)
      = ((replay v as).1 ++ (replay (replay v as).2 bs).1, (replay (replay v as).2 bs).2) := by
  induction as generalizing v with
  | nil => rfl
  | cons a rest ih => simp only [List.cons_append, replay, ih]

/-! ## Among others -/

namespace Chained

variable {outer : Option StackId} {m m' : Moment α} {e : Event α} {i : CoroutineId}

/-- **What a coroutine has no part in does not touch it.** -/
lemma view_step (h : Chained outer m) (hstep : Step m e m') (hown : e.own? i = none) :
    m'.world.view i = m.world.view i := by
  have henter : e ≠ .entered i := by
    rintro rfl
    simp [Event.own?] at hown
  have hleave : ∀ v r s, e ≠ .left i v r s := by
    rintro v r s rfl
    simp [Event.own?] at hown
  have hstack : m'.world.ownStack? i = m.world.ownStack? i := by
    cases hstep with
    | acts op =>
      refine h.ownStack?_step (.acts op) fun hhead => ?_
      simp [Event.own?, hhead] at hown
    | refuses _ => rfl
    | enters hbegin => exact (Step.enters hbegin).ownStack?_entered i
    | leaves b =>
      refine h.ownStack?_step (.leaves b) fun hhead => ?_
      exact hleave _ _ _ (by rw [(Step.leaves b).left_head.symm.trans hhead |> Option.some.inj])
  unfold view
  rw [hstep.stateOf_eq henter hleave, hstack]

/-- **What it has a part in, it sees as if it were alone.** -/
lemma react_step (h : Chained outer m) (hstep : Step m e m') {x : OwnEvent α}
    (hown : e.own? i = some x) : react (m.world.view i) x.action = (x, m'.world.view i) := by
  cases hstep with
  | acts op =>
    obtain ⟨hhead, rfl⟩ : m.running.head? = some i
        ∧ OwnEvent.acted op (Script.onStack m.world m.world.ambient op).1 = x := by
      simpa [Event.own?] using hown
    have hi := h.lt_size (List.mem_of_head? hhead)
    have hambient : m.world.ambient = some (m.world.stackOf i) := h.ambient_of_head hhead
    obtain ⟨hsame, -, hstate⟩ := sameStacks_onStack m.world m.world.ambient op
    obtain ⟨hanswer, hstack⟩ := stack?_onStack_self m.world op (m.world.stackOf i)
    rw [hambient] at hsame hstate ⊢
    simp only [react, OwnEvent.action, view, hstate, ownStack?_of_lt hi,
      ownStack?_of_lt (hsame.size ▸ hi), hsame.stackOf, hanswer, hstack]
  | refuses _ => cases hown
  | @enters w w' chain id hbegin =>
    obtain ⟨rfl, rfl⟩ : id = i ∧ OwnEvent.entered = x := by simpa [Event.own?] using hown
    have hentered : Step ⟨w, chain⟩ _ _ := .enters hbegin
    have hstack := hentered.ownStack?_entered id
    have hrun := (h.step (.enters hbegin)).running id
    simp only [react, OwnEvent.action, view]
    rw [hrun.mpr List.mem_cons_self, hstack]
  | @leaves w chain id before b =>
    obtain ⟨rfl, rfl⟩ : id = i ∧ OwnEvent.left b ((w.leave id before b.suspends).stateOf id)
        ((w.leave id before b.suspends).savedOf id) = x := by simpa [Event.own?] using hown
    obtain ⟨-, hstate, hstack⟩ := h.left (.leaves b)
    simp only [react, OwnEvent.action, view, savedOf]
    rw [hstate, hstack]
    rfl

/-- **The history of a coroutine among others is its history alone.** -/
lemma replay_course {es : List (Event α)} (h : Chained outer m) (hcourse : Course m es m') :
    replay (m.world.view i) (actionsOf i es) = (history i es, m'.world.view i) := by
  induction hcourse with
  | refl => rfl
  | @tail b c es e hcourse hstep ih =>
    have hb := h.course hcourse
    cases hown : e.own? i with
    | none =>
      have hview := hb.view_step hstep hown
      simpa [history, actionsOf, hown, hview] using ih
    | some x =>
      have hreact := hb.react_step hstep hown
      have hhistory : history i (es ++ [e]) = history i es ++ [x] := by simp [history, hown]
      have hactions : actionsOf i (es ++ [e]) = actionsOf i es ++ [x.action] := by
        rw [actionsOf, hhistory, List.map_append]
        rfl
      rw [hactions, hhistory, replay_append, ih]
      simp only [replay, hreact]

end Chained

/-! ## No interference -/

/-- **Coroutines do not interfere.**  Among whatever others, and whatever these do: as long as the actions of
a coroutine are the same, so are the answers to them, and the state and the saved frames after each of its
runs; and in the end it is the same coroutine with the same stack. -/
theorem course_undisturbed {w₁ w₂ : Coroutines α} {es₁ es₂ : List (Event α)} {m₁ m₂ : Moment α}
    {i : CoroutineId} (hfresh₁ : w₁.Fresh) (hfresh₂ : w₂.Fresh)
    (hstack : w₁.ownStack? i = w₂.ownStack? i) (h₁ : Course ⟨w₁, []⟩ es₁ m₁) (h₂ : Course ⟨w₂, []⟩ es₂ m₂)
    (hactions : actionsOf i es₁ = actionsOf i es₂) :
    history i es₁ = history i es₂ ∧ m₁.world.stateOf i = m₂.world.stateOf i
      ∧ m₁.world.ownStack? i = m₂.world.ownStack? i ∧ m₁.world.savedOf i = m₂.world.savedOf i := by
  have hreplay₁ := hfresh₁.chained.replay_course (i := i) h₁
  have hreplay₂ := hfresh₂.chained.replay_course (i := i) h₂
  rw [hactions, hfresh₁.view_eq hfresh₂ hstack, hreplay₂] at hreplay₁
  obtain ⟨hhistory, hview⟩ := Prod.mk.inj hreplay₁
  obtain ⟨hstate, hown⟩ := View.mk.inj hview
  exact ⟨hhistory.symm, hstate.symm, hown.symm, by rw [savedOf, savedOf, hown]⟩

/-- The first coroutine of the pair enters an activation and suspends itself, alone or with a run of the
second one in between, which fails. -/
theorem pair_undisturbed : ∃ es₁ es₂ m₁ m₂,
    pair.Fresh ∧ Course ⟨pair, []⟩ es₁ m₁ ∧ Course ⟨pair, []⟩ es₂ m₂
      ∧ es₁.length = 3 ∧ es₂.length = 6 ∧ actionsOf 0 es₁ = actionsOf 0 es₂
      ∧ history 0 es₁ = history 0 es₂ := by
  have hfresh : pair.Fresh := ⟨by decide, by decide, rfl⟩
  have h₁ : Course ⟨pair, []⟩ _ _ :=
    .tail (.tail (.tail .refl (.enters (rfl : begin? _ 0 = .ok _))) (.acts .enter))
      (.leaves (.fails (.condition .suspend)))
  have h₂ : Course ⟨pair, []⟩ _ _ :=
    .tail (.tail (.tail (.tail (.tail (.tail .refl (.enters (rfl : begin? _ 0 = .ok _)))
      (.enters (rfl : begin? _ 1 = .ok _)))
      (.acts .enter)) (.leaves (.fails (.plain "failed")))) (.acts .enter))
      (.leaves (.fails (.condition .suspend)))
  refine ⟨_, _, _, _, hfresh, h₁, h₂, by simp, by simp, ?_,
    (course_undisturbed hfresh hfresh rfl h₁ h₂ ?_).1⟩
  -- both times the first coroutine enters, works and ends
  all_goals simp [actionsOf, history, Event.own?, OwnEvent.action, Moment.running]

end Coroutines

end Suspension
