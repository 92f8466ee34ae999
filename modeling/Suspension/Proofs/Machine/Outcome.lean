import Suspension.Proofs.Machine.Heap

/-!
# What a run of a coroutine comes to

A coroutine object is run by its class's own method, which calls `run()V` of the object that was given to the
coroutine.  How that method ends decides what becomes of the coroutine and of the call.  **It is the fault
that leaves the method that decides, with its causes**, not the exception object alone.  Where the causes of
an exception say nothing about coroutines, the exception object decides: the suspend signal suspends, and any
other exception finishes the coroutine and is thrown on as the same object.

* `Fault.carries` — whether a fault or one of its causes is a certain condition.
* `Machine.afterRun` — the machine after a run.
* `Native.run_comes_to` — what a run comes to.
-/

namespace Suspension

/-! ## Causes -/

/-- Whether a fault or one of its causes is a condition. -/
def Fault.carries (c : Condition) (f : Fault) : Bool := Fault.isOrWraps (fun _ => false) (.condition c) f

/-- A fault whose exception is the suspend signal carries the signal. -/
lemma Fault.isOrWraps_of_signal {isSignal : ObjectId → Bool} {f : Fault} {x : ObjectId}
    {cause : Option Fault} (hf : f.exception? = some (x, cause)) (hx : isSignal x = true) :
    Fault.isOrWraps isSignal (.condition .suspend) f = true := by
  refine Fault.exception?.induct
    (motive_1 := fun f => f.exception? = some (x, cause) →
      Fault.isOrWraps isSignal (.condition .suspend) f = true)
    (motive_2 := fun entries => Fault.firstException? entries = some (x, cause) →
      Fault.anyIsOrWraps isSignal (.condition .suspend) entries = true)
    ?thrown ?thrownFor ?context ?caused ?failures ?other ?nil ?without ?withCause f hf
  case thrown =>
    intro obj h
    obtain ⟨rfl, -⟩ := by simpa [Fault.exception?] using h
    simpa [Fault.isOrWraps, Fault.isLike] using hx
  case thrownFor =>
    intro obj cause h
    obtain ⟨rfl, -⟩ := by simpa [Fault.exception?] using h
    simp [Fault.isOrWraps, Fault.isLike, hx]
  case context =>
    intro label cause ih h
    simp [Fault.isOrWraps, ih (by simpa [Fault.exception?] using h)]
  case caused =>
    intro r cause ih h
    simp [Fault.isOrWraps, ih (by simpa [Fault.exception?] using h)]
  case failures =>
    intro entries ih h
    simp [Fault.isOrWraps, ih (by simpa [Fault.exception?] using h)]
  case other =>
    intro f h₁ h₂ h₃ h₄ h₅ h
    cases f <;> simp_all [Fault.exception?]
  case nil =>
    intro h
    simp [Fault.firstException?] at h
  case without =>
    intro cls method rest ih h
    simp [Fault.anyIsOrWraps, ih (by simpa [Fault.firstException?] using h)]
  case withCause =>
    intro cls method cause rest ih ihrest h
    rw [Fault.firstException?] at h
    rw [Fault.anyIsOrWraps, Bool.or_eq_true]
    rcases Option.or_eq_some_iff.mp h with h | ⟨-, h⟩
    · exact .inl (ih h)
    · exact .inr (ihrest h)

/-! ## Runs -/

/-- **The machine after a run** of a coroutine. -/
def Machine.afterRun (m : Machine) (id : CoroutineId) (before : Option StackId) (suspended : Bool) :
    Machine := { m with coroutines := m.coroutines.leave id before suspended }

/-- **No coroutine is lost** between two states. -/
def Machine.KeepsCoroutines (m m' : Machine) : Prop :=
  m.coroutines.coroutines.size ≤ m'.coroutines.coroutines.size

instance : Machine.Steady Machine.KeepsCoroutines where
  refl _ := Nat.le_refl _
  trans := Nat.le_trans
  of_eq _ _ _ _ h := h
  push_object _ _ := Nat.le_refl _
  modifyObject _ _ _ _ := Nat.le_refl _
  push_array _ _ _ := Nat.le_refl _
  modify_array _ _ _ _ := Nat.le_refl _
  withStatics _ _ _ := Nat.le_refl _
  start _ _ h := ⟨h, h⟩

instance : Exec.SteadyLoad Machine.KeepsCoroutines where
  load := Exec.keeps_loadWithin_of_push fun _ _ => Nat.le_refl _

namespace Exec

variable {call : Caller} {m m' : Machine} {id : CoroutineId} {w : Coroutines Value}
  {r : Except Stop Value}

section

variable (hbegin : m.coroutines.begin? id = .ok w)
  (hrun : (callOn call (.object (m.runnables.getD id 0)) "run" "()V" []).run { m with coroutines := w }
    = (r, m'))

include hbegin hrun

lemma run_runCoroutine_ok {v : Value} (hr : r = .ok v) :
    (runCoroutine call id).run m = (.ok (), m'.afterRun id m.coroutines.ambient false) := by
  subst hr
  have hget : (get : Exec Machine).run m = (.ok m, m) := rfl
  have hset : ∀ s : Machine, (set s : Exec Unit).run m = (.ok (), s) := fun _ => rfl
  unfold runCoroutine
  simp only [run_bind, hget, hbegin, hset, run_tryCatch, hrun]
  rfl

lemma run_runCoroutine_fault {f : Fault} (hr : r = .error (.fault f)) :
    (runCoroutine call id).run m
      = (if m'.isSuspension f then .ok () else .error (.fault f),
        m'.afterRun id m.coroutines.ambient (m'.isSuspension f)) := by
  subst hr
  have hget : ∀ s : Machine, (get : Exec Machine).run s = (.ok s, s) := fun _ => rfl
  have hset : ∀ s : Machine, (set s : Exec Unit).run m = (.ok (), s) := fun _ => rfl
  have hleave : ∀ b, (leaveCoroutine id m.coroutines.ambient b).run m'
      = (.ok (), m'.afterRun id m.coroutines.ambient b) := fun _ => rfl
  unfold runCoroutine
  simp only [run_bind, hget, hbegin, hset, run_tryCatch, hrun, hleave]
  cases m'.isSuspension f <;> rfl

/-- The coroutine is still there after the run. -/
lemma lt_size_of_begin? {fuel : Nat} (hcall : call = Exec.call fuel) :
    id < m'.coroutines.coroutines.size := by
  have hkeeps : Keeps Machine.KeepsCoroutines
      (callOn call (.object (m.runnables.getD id 0)) "run" "()V" []) := by
    rw [hcall]
    exact keeps_callOn (keeps_call fuel) _ _ _ _
  have hsize := hkeeps { m with coroutines := w }
  rw [hrun] at hsize
  obtain ⟨-, hfin, rfl⟩ := Coroutines.begin?_ok hbegin
  have hlt := Coroutines.lt_size_of_stateOf_ne hfin
  have hsame := (Coroutines.sameStacks_setState m.coroutines id .running).size
  exact Nat.lt_of_lt_of_le (hsame ▸ hlt) hsize

lemma stateOf_afterRun {fuel : Nat} (hcall : call = Exec.call fuel) (suspended : Bool) :
    (m'.afterRun id m.coroutines.ambient suspended).coroutines.stateOf id
      = if suspended then .suspended else .finished :=
  Coroutines.stateOf_leave_self _ suspended (lt_size_of_begin? hbegin hrun hcall)

end

/-! ## Coroutine objects -/

section

variable {self : Value} (hself : (Native.coroutineOf self).run m = (.ok id, m)) {s : Machine}

include hself

lemma run_runObject_ok (hco : (runCoroutine call id).run m = (.ok (), s)) :
    (Native.runObject call self).run m = (.ok .null, s) := by
  unfold Native.runObject
  simp only [run_bind, hself, run_attempt, hco]
  rfl

lemma run_runObject_fault {f : Fault} (hco : (runCoroutine call id).run m = (.error (.fault f), s)) :
    (Native.runObject call self).run m
      = if f.carries .running || f.carries .finished then
          (raiseFor call "core/IllegalStateException" f).run s
        else (.error (.fault f), s) := by
  unfold Native.runObject
  simp only [run_bind, hself, run_attempt, hco]
  exact apply_ite (fun x : Exec Value => x.run s) _ _ _

end

end Exec

namespace Native

open Exec

variable {fuel : Nat} {m m' : Machine} {self : Value} {rest : List Value} {id : CoroutineId}
  {w : Coroutines Value} {r : Except Stop Value}

/-- **What a run of a coroutine comes to.**  When `run()V` returns, the coroutine is finished.  When a fault
leaves it that carries the suspend signal, and be it as the cause of another exception, the coroutine is
suspended.  With any other fault it is finished, and the call ends with that fault; only if the fault carries
the refusal to run a coroutine, a new exception is raised for it. -/
theorem run_comes_to (hself : (coroutineOf self).run m = (.ok id, m))
    (hbegin : m.coroutines.begin? id = .ok w)
    (hrun : (callOn (call fuel) (.object (m.runnables.getD id 0)) "run" "()V" []).run
      { m with coroutines := w } = (r, m')) :
    (∀ v, r = .ok v → ∃ s, (run (call fuel) .runCoroutine (self :: rest)).run m = (.ok .null, s)
      ∧ s.coroutines.stateOf id = .finished)
    ∧ ∀ f, r = .error (.fault f) →
      (∀ x cause, f.exception? = some (x, cause) → m'.isSignal x → m'.isSuspension f)
      ∧ (m'.isSuspension f →
        ∃ s, (run (call fuel) .runCoroutine (self :: rest)).run m = (.ok .null, s)
          ∧ s.coroutines.stateOf id = .suspended)
      ∧ (¬ m'.isSuspension f → ¬ f.carries .running → ¬ f.carries .finished →
        ∃ s, (run (call fuel) .runCoroutine (self :: rest)).run m = (.error (.fault f), s)
          ∧ s.coroutines.stateOf id = .finished)
      ∧ (¬ m'.isSuspension f → f.carries .running ∨ f.carries .finished →
        ∃ s, (run (call fuel) .runCoroutine (self :: rest)).run m
            = (raiseFor (call fuel) "core/IllegalStateException" f).run s
          ∧ s.coroutines.stateOf id = .finished) := by
  have hstate := stateOf_afterRun hbegin hrun rfl
  have hrunObject : (run (call fuel) .runCoroutine (self :: rest)).run m
      = (runObject (call fuel) self).run m := rfl
  rw [hrunObject]
  refine ⟨fun v hr => ?_, fun f hr => ⟨?_, fun hsuspends => ?_, fun hsuspends hrunning hfinished => ?_,
    fun hsuspends hrefused => ?_⟩⟩
  · exact ⟨_, run_runObject_ok hself (run_runCoroutine_ok hbegin hrun hr), hstate false⟩
  · exact fun x cause hf hx => Fault.isOrWraps_of_signal hf hx
  all_goals
    have hco := run_runCoroutine_fault hbegin hrun hr
  · rw [hsuspends, if_pos rfl] at hco
    exact ⟨_, run_runObject_ok hself hco, hstate true⟩
  · rw [Bool.not_eq_true _ |>.mp hsuspends, if_neg Bool.false_ne_true] at hco
    refine ⟨_, (run_runObject_fault hself hco).trans (if_neg ?_), hstate false⟩
    rw [Bool.or_eq_true]
    exact fun h => h.elim hrunning hfinished
  · rw [Bool.not_eq_true _ |>.mp hsuspends, if_neg Bool.false_ne_true] at hco
    refine ⟨_, (run_runObject_fault hself hco).trans (if_pos ?_), hstate false⟩
    rwa [Bool.or_eq_true]

/-! ### An exception that is thrown on -/

/-- A class, ready to run. -/
def readied (c : Class) : LoadedClass := { link {} c none [] with state := .done }

/-- A machine with a new coroutine, object 2, that runs object 1; its `run()V` throws object 3. -/
def throwing : Machine where
  classes := #[readied { name := ClassName.coroutine },
    readied { name := "core/RuntimeException" },
    { readied { name := "t/R" } with
      methods := [("run()V", {
        owner := 2
        ownerName := "t/R"
        method := { name := "run", desc := "()V", maxLocals := 1, maxStack := 1 }
        body := {
          code := #[⟨.load .ref, .slot 0⟩, .member .getField "t/R" "e" "Lcore/RuntimeException;",
            .plain .throw] } })] }]
  objects := #[{ cls := 2, fields := [("e", .object 3)] }, { cls := 0, payload := .coroutine 0 },
    { cls := 1 }]
  coroutines := { frameStacks := #[{ frames := {}, owner := some 0 }], coroutines := #[{ stack := 0 }] }
  runnables := #[1]

/-- The machine when the coroutine has been entered. -/
def entered : Machine :=
  { throwing with
    coroutines := { throwing.coroutines.setState 0 .running with ambient := some 0 } }

/-- Whether an action ends with a fault of some sort. -/
def endsWith {α : Type} (p : Fault → Machine → Bool) : Except Stop α × Machine → Bool
  | (.error (.fault f), m) => p f m
  | _ => false

lemma exists_of_endsWith {α : Type} {p : Fault → Machine → Bool} {r : Except Stop α × Machine}
    (h : endsWith p r = true) : ∃ f m, r = (.error (.fault f), m) ∧ p f m = true := by
  unfold endsWith at h
  split at h
  · exact ⟨_, _, rfl, h⟩
  · cases h

/-- **The same exception is thrown on**, and the coroutine is finished. -/
theorem throwing_comes_to : ∃ f s,
    (run (call 10) .runCoroutine [.object 2]).run throwing = (.error (.fault f), s)
      ∧ f.exception?.map (·.1) = some 3 ∧ s.coroutines.stateOf 0 = .finished := by
  have hends : endsWith (fun f m => f.exception?.map (·.1) = some 3 ∧ ¬ m.isSuspension f
      ∧ ¬ f.carries .running ∧ ¬ f.carries .finished)
      ((callOn (call 10) (.object 1) "run" "()V" []).run entered) = true := by
    decide +kernel
  obtain ⟨f, m', hrun, hf⟩ := exists_of_endsWith hends
  obtain ⟨hthrown, hsuspends, hrunning, hfinished⟩ := of_decide_eq_true hf
  have hself : (coroutineOf (.object 2)).run throwing = (.ok 0, throwing) := rfl
  have hbegin : throwing.coroutines.begin? 0
      = .ok { throwing.coroutines.setState 0 .running with ambient := some 0 } := rfl
  obtain ⟨s, hs, hstate⟩ :=
    ((run_comes_to hself hbegin hrun).2 f rfl).2.2.1 hsuspends hrunning hfinished
  exact ⟨f, s, hs, hthrown, hstate⟩

end Native

end Suspension
