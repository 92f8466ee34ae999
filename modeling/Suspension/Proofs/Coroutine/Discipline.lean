import Mathlib.Data.List.Nodup
import Mathlib.Data.List.Perm.Subperm
import Suspension.Coroutine.Script

/-!
# The discipline of nested coroutines

The body of a coroutine works on the ambient stack and runs other coroutines, which run others in turn.
Nothing is said here about how a body comes to its decisions: at every moment the innermost body may do
anything, or end in any way.  **The runs that are under way form a chain**, and the states of the
coroutines and the ambient stack can be told from it.

* `Coroutines.Moment`, `Coroutines.Step`, `Coroutines.Course` — nested runs, and what happens in them.
* `Coroutines.Completes` — a whole run, from its first moment to its last.
* `Coroutines.Fresh` — new coroutines, each with a stack of its own.
* `Coroutines.Chained` — the invariant: the chain tells the states and the ambient stack.
* `Coroutines.course_disciplined` — what holds at every moment, of every step and of every whole run.
-/

namespace Suspension

namespace Coroutines

/-! ## Moments and events -/

/-- **How a body ends**: it returns, it fails with a fault, or it breaks off in a panic. -/
inductive BodyEnd where
  | returns
  | fails (f : Fault)
  | breaks

/-- Whether a body's end is the suspend signal, or wraps it. -/
def BodyEnd.suspends : BodyEnd → Bool
  | fails f => Fault.isOrWraps (fun _ => false) (.condition .suspend) f
  | returns | breaks => false

/-- **A moment**: the coroutines, and the runs that are under way, the innermost first, each with the stack
that was ambient before it. -/
structure Moment (α : Type) where
  world : Coroutines α
  chain : List (CoroutineId × Option StackId) := []

/-- What is seen of a step. -/
inductive Event (α : Type) where
  /-- the innermost body, if there is one, has operated on the ambient stack -/
  | acted (actor : Option CoroutineId) (op : FrameStack.Op α) (answer : FrameStack.Answer α)
  /-- a coroutine was to be run, but cannot be -/
  | refused (id : CoroutineId) (cause : Condition)
  | entered (id : CoroutineId)
  /-- the innermost body has ended, and leaves its coroutine in a state, with saved frames -/
  | left (id : CoroutineId) (e : BodyEnd) (state : CoroutineState) (saved : List (FrameRecord α))

variable {α : Type}

/-- The coroutine that a step was to run. -/
def Event.calls? : Event α → Option CoroutineId
  | refused id _ | entered id => some id
  | acted _ _ _ | left _ _ _ _ => none

/-- The coroutines whose runs are under way, the innermost first. -/
def Moment.running (m : Moment α) : List CoroutineId := m.chain.map Prod.fst

/-- The stack of a coroutine. -/
def ownStack? (w : Coroutines α) (id : CoroutineId) : Option (FrameStack α) :=
  (w.coroutines[id]?).bind fun c => w.stack? c.stack

/-- What is saved in the stack of a coroutine. -/
def savedOf (w : Coroutines α) (id : CoroutineId) : List (FrameRecord α) :=
  ((w.ownStack? id).map (·.frames)).getD []

/-- The coroutine that a stack belongs to. -/
def ownerOf (w : Coroutines α) (s : StackId) : Option CoroutineId := (w.frameStacks[s]?).bind (·.owner)

lemma active?_eq (w : Coroutines α) : w.active? = w.ambient.bind w.ownerOf := rfl

/-! ## States and stacks -/

section

variable {w : Coroutines α} {id j : CoroutineId} {s t : StackId}

/-- A coroutine that does not exist counts as finished. -/
lemma lt_size_of_stateOf_ne (h : w.stateOf id ≠ .finished) : id < w.coroutines.size := by
  by_contra hlt
  exact h (by simp [stateOf, Array.getElem?_eq_none (Nat.le_of_not_lt hlt)])

lemma stateOf_setState_self (v : CoroutineState) (h : id < w.coroutines.size) :
    (w.setState id v).stateOf id = v := by
  simp [stateOf, setState, Array.getElem?_modify, Array.getElem?_eq_getElem h]

lemma stateOf_setState_of_ne (v : CoroutineState) (h : j ≠ id) :
    (w.setState id v).stateOf j = w.stateOf j := by
  simp [stateOf, setState, Array.getElem?_modify, h.symm]

lemma ownStack?_of_lt (h : id < w.coroutines.size) : w.ownStack? id = w.stack? (w.stackOf id) := by
  simp [ownStack?, stackOf, Array.getElem?_eq_getElem h]

lemma ownStack?_of_le (h : w.coroutines.size ≤ id) : w.ownStack? id = none := by
  simp [ownStack?, Array.getElem?_eq_none h]

lemma stack?_setStack_self (f : FrameStack α) : (w.setStack s f).stack? s = (w.stack? s).map fun _ => f := by
  simp [stack?, setStack, Array.getElem?_modify, Function.comp_def]

lemma stack?_setStack_of_ne (f : FrameStack α) (h : t ≠ s) : (w.setStack s f).stack? t = w.stack? t := by
  simp [stack?, setStack, Array.getElem?_modify, h.symm]

end

/-! ### The same coroutines with the same stacks -/

/-- **The same coroutines with the same stacks**: no coroutine is given another stack, and no stack another
owner. -/
structure SameStacks (w w' : Coroutines α) : Prop where
  size : w'.coroutines.size = w.coroutines.size
  stackOf : ∀ id, w'.stackOf id = w.stackOf id
  ownerOf : ∀ s, w'.ownerOf s = w.ownerOf s

lemma SameStacks.refl (w : Coroutines α) : SameStacks w w := ⟨rfl, fun _ => rfl, fun _ => rfl⟩

lemma SameStacks.trans {u v w : Coroutines α} (h : SameStacks u v) (h' : SameStacks v w) :
    SameStacks u w :=
  ⟨h'.size.trans h.size, fun id => (h'.stackOf id).trans (h.stackOf id),
    fun s => (h'.ownerOf s).trans (h.ownerOf s)⟩

/-- The ambient stack is another matter. -/
lemma SameStacks.withAmbient {w w' : Coroutines α} (h : SameStacks w w') (a : Option StackId) :
    SameStacks w { w' with ambient := a } := ⟨h.size, h.stackOf, h.ownerOf⟩

lemma sameStacks_setState (w : Coroutines α) (id : CoroutineId) (v : CoroutineState) :
    SameStacks w (w.setState id v) := by
  refine ⟨by simp [setState], fun j => ?_, fun _ => rfl⟩
  simp only [Coroutines.stackOf, setState, Array.getElem?_modify]
  split
  · cases w.coroutines[j]? <;> rfl
  · rfl

lemma sameStacks_setStack (w : Coroutines α) (s : StackId) (f : FrameStack α) :
    SameStacks w (w.setStack s f) := by
  refine ⟨rfl, fun _ => rfl, fun t => ?_⟩
  simp only [Coroutines.ownerOf, setStack, Array.getElem?_modify]
  split
  · cases w.frameStacks[t]? <;> rfl
  · rfl

/-- A coroutine keeps its stack as it is when that stack is not touched. -/
lemma SameStacks.ownStack? {w w' : Coroutines α} (h : SameStacks w w') {id : CoroutineId}
    (hstack : id < w.coroutines.size → w'.stack? (w.stackOf id) = w.stack? (w.stackOf id)) :
    w'.ownStack? id = w.ownStack? id := by
  by_cases hid : id < w.coroutines.size
  · rw [ownStack?_of_lt hid, ownStack?_of_lt (h.size ▸ hid), h.stackOf, hstack hid]
  · have hle := Nat.le_of_not_lt hid
    rw [ownStack?_of_le hle, ownStack?_of_le (h.size ▸ hle)]

/-! ## Runs -/

/-- **Starting or resuming** succeeds for a coroutine that is new or suspended. -/
lemma begin?_ok {w w' : Coroutines α} {id : CoroutineId} (h : w.begin? id = .ok w') :
    w.stateOf id ≠ .running ∧ w.stateOf id ≠ .finished
      ∧ w' = { w.setState id .running with ambient := some (w.stackOf id) } := by
  unfold begin? at h
  cases hstate : w.stateOf id <;> simp_all

/-- It is refused for one that is running or finished. -/
lemma begin?_error {w : Coroutines α} {id : CoroutineId} {c : Condition} (h : w.begin? id = .error c) :
    (w.stateOf id = .running ∧ c = .running) ∨ (w.stateOf id = .finished ∧ c = .finished) := by
  unfold begin? at h
  cases hstate : w.stateOf id <;> simp_all

/-- The coroutines with the stack of one of them rewound. -/
def rewound (w : Coroutines α) (id : CoroutineId) : Coroutines α :=
  match w.stack? (w.stackOf id) with
  | some s => w.setStack (w.stackOf id) s.rewind
  | none => w

/-- What a run leaves its coroutine in. -/
def stateAfter (suspended : Bool) : CoroutineState := if suspended then .suspended else .finished

section

variable (w : Coroutines α) (id : CoroutineId) (before : Option StackId) (suspended : Bool)

lemma leave_eq : w.leave id before suspended
    = { (if suspended then w.rewound id else w).setState id (stateAfter suspended) with
        ambient := before } := by
  cases suspended <;> rfl

lemma sameStacks_rewound : SameStacks w (w.rewound id) := by
  unfold rewound
  split
  · exact sameStacks_setStack w _ _
  · exact .refl w

lemma sameStacks_leave : SameStacks w (w.leave id before suspended) := by
  rw [leave_eq]
  refine .withAmbient (.trans ?_ (sameStacks_setState _ id _)) _
  split
  · exact sameStacks_rewound w id
  · exact .refl w

@[simp] lemma ambient_leave : (w.leave id before suspended).ambient = before := by
  rw [leave_eq]

variable {w id}

lemma stateOf_rewound (j : CoroutineId) : (w.rewound id).stateOf j = w.stateOf j := by
  unfold rewound
  split <;> rfl

lemma stateOf_leave_self (h : id < w.coroutines.size) :
    (w.leave id before suspended).stateOf id = stateAfter suspended := by
  have hsize : id < (if suspended then w.rewound id else w).coroutines.size := by
    split
    · rwa [(sameStacks_rewound w id).size]
    · exact h
  rw [leave_eq]
  exact stateOf_setState_self _ hsize

lemma stateOf_leave_of_ne {j : CoroutineId} (h : j ≠ id) :
    (w.leave id before suspended).stateOf j = w.stateOf j := by
  rw [leave_eq]
  refine (stateOf_setState_of_ne _ h).trans ?_
  split
  · exact stateOf_rewound j
  · rfl

lemma stack?_leave_self :
    (w.leave id before suspended).stack? (w.stackOf id)
      = (w.stack? (w.stackOf id)).map fun s => if suspended then s.rewind else s := by
  rw [leave_eq]
  change (if suspended then w.rewound id else w).stack? (w.stackOf id) = _
  cases suspended with
  | false => simp
  | true =>
    simp only [if_true, rewound]
    split
    · simp [stack?_setStack_self, *]
    · simp [*]

lemma stack?_leave_of_ne {t : StackId} (h : t ≠ w.stackOf id) :
    (w.leave id before suspended).stack? t = w.stack? t := by
  rw [leave_eq]
  change (if suspended then w.rewound id else w).stack? t = _
  split
  · unfold rewound
    split
    · exact stack?_setStack_of_ne _ h
    · rfl
  · rfl

end

/-! ## The invariant -/

/-- **A family of new coroutines**, each with a stack of its own; the ambient stack, if there is one,
belongs to none of them. -/
structure Fresh (w : Coroutines α) : Prop where
  new : ∀ id, id < w.coroutines.size → w.stateOf id = .new
  owning : ∀ id, id < w.coroutines.size → w.ownerOf (w.stackOf id) = some id
  inactive : w.active? = none

/-- No coroutine at all. -/
lemma fresh_empty : ({} : Coroutines α).Fresh := ⟨by simp, by simp, rfl⟩

lemma size_add? {w w' : Coroutines α} {size : Int} {name : Text} {id : CoroutineId}
    (hadd : w.add? size name = some (id, w')) : w'.coroutines.size = w.coroutines.size + 1 := by
  obtain ⟨frames, -, hadd⟩ := Option.bind_eq_some_iff.mp hadd
  cases hadd
  exact Array.size_push _

/-- One more coroutine, with room for any number of records. -/
lemma Fresh.add {w w' : Coroutines α} {size : Int} {name : Text} {id : CoroutineId} (h : w.Fresh)
    (hadd : w.add? size name = some (id, w')) (hambient : ∀ s ∈ w.ambient, s < w.frameStacks.size) :
    w'.Fresh := by
  obtain ⟨frames, -, hadd⟩ := Option.bind_eq_some_iff.mp hadd
  cases hadd
  have hlast : ∀ {j}, j < (w.coroutines.push { stack := w.frameStacks.size, name }).size →
      j ≠ w.coroutines.size → j < w.coroutines.size := by
    intro j hj hne
    rw [Array.size_push] at hj
    omega
  -- the stacks of before are where they were
  have howner : ∀ s < w.frameStacks.size,
      ((w.frameStacks.push { frames, owner := some w.coroutines.size })[s]?).bind (·.owner)
        = w.ownerOf s := by
    intro s hs
    rw [Array.getElem?_push, if_neg (by omega)]
    rfl
  refine ⟨fun j hj => ?_, fun j hj => ?_, ?_⟩
  · by_cases heq : j = w.coroutines.size
    · simp [stateOf, heq]
    · have hnew := h.new j (hlast hj heq)
      simpa [stateOf, Array.getElem?_push, heq] using hnew
  · by_cases heq : j = w.coroutines.size
    · simp [ownerOf, stackOf, heq]
    · have howning := h.owning j (hlast hj heq)
      have hin : w.stackOf j < w.frameStacks.size := by
        by_contra hout
        simp [ownerOf, Array.getElem?_eq_none (Nat.le_of_not_lt hout)] at howning
      have hstack : stackOf { w with
          frameStacks := w.frameStacks.push { frames, owner := some w.coroutines.size }
          coroutines := w.coroutines.push { stack := w.frameStacks.size, name } } j = w.stackOf j := by
        simp [stackOf, Array.getElem?_push, heq]
      rw [hstack]
      exact (howner _ hin).trans howning
  · have hinactive := h.inactive
    rw [active?_eq] at hinactive ⊢
    cases hamb : w.ambient with
    | none => rfl
    | some s =>
      rw [hamb] at hinactive
      exact (howner s (hambient s hamb)).trans hinactive

/-- The stack that is ambient while the runs of a chain are under way. -/
def top (w : Coroutines α) (outer : Option StackId) : List (CoroutineId × Option StackId) → Option StackId
  | [] => outer
  | (id, _) :: _ => some (w.stackOf id)

/-- Every run of a chain has begun on the ambient stack of the run around it. -/
def Nested (w : Coroutines α) (outer : Option StackId) : List (CoroutineId × Option StackId) → Prop
  | [] => True
  | (_, before) :: rest => before = w.top outer rest ∧ w.Nested outer rest

/-- **The chain tells the states and the ambient stack**: the running coroutines are those of the chain,
each once, and the stack of the innermost is the ambient one. -/
structure Chained (outer : Option StackId) (m : Moment α) : Prop where
  owning : ∀ id, id < m.world.coroutines.size → m.world.ownerOf (m.world.stackOf id) = some id
  detached : outer.bind m.world.ownerOf = none
  ambient : m.world.ambient = m.world.top outer m.chain
  nested : m.world.Nested outer m.chain
  running : ∀ id, m.world.stateOf id = .running ↔ id ∈ m.running
  nodup : m.running.Nodup

lemma Fresh.chained {w : Coroutines α} (h : w.Fresh) : Chained w.ambient ⟨w, []⟩ where
  owning := h.owning
  detached := h.inactive
  ambient := rfl
  nested := trivial
  running id := by
    refine iff_of_false (fun hrun => ?_) List.not_mem_nil
    have hlt := lt_size_of_stateOf_ne (show w.stateOf id ≠ .finished by simp_all)
    exact absurd (h.new id hlt) (by simp_all)
  nodup := .nil

section

variable {w w' : Coroutines α} {outer : Option StackId} (h : SameStacks w w')

include h

lemma SameStacks.top (chain : List (CoroutineId × Option StackId)) :
    w'.top outer chain = w.top outer chain := by
  cases chain with
  | nil => rfl
  | cons head rest => simp only [Coroutines.top, h.stackOf]

lemma SameStacks.nested {chain : List (CoroutineId × Option StackId)} (hn : w.Nested outer chain) :
    w'.Nested outer chain := by
  induction chain with
  | nil => trivial
  | cons head rest ih => exact ⟨hn.1.trans (h.top rest).symm, ih hn.2⟩

lemma SameStacks.owning
    (ho : ∀ id, id < w.coroutines.size → w.ownerOf (w.stackOf id) = some id) (id : CoroutineId)
    (hid : id < w'.coroutines.size) : w'.ownerOf (w'.stackOf id) = some id := by
  rw [h.stackOf, h.ownerOf]
  exact ho id (h.size ▸ hid)

lemma SameStacks.detached (hd : outer.bind w.ownerOf = none) : outer.bind w'.ownerOf = none := by
  rwa [show w'.ownerOf = w.ownerOf from funext h.ownerOf]

end

namespace Chained

variable {outer : Option StackId} {m m' : Moment α} {e : Event α} {id j : CoroutineId}

lemma lt_size (h : Chained outer m) (hid : id ∈ m.running) : id < m.world.coroutines.size :=
  lt_size_of_stateOf_ne (by simp [(h.running id).mpr hid])

/-- Runs nest no deeper than there are coroutines. -/
lemma length_le (h : Chained outer m) : m.chain.length ≤ m.world.coroutines.size := by
  have hsub : m.running ⊆ List.range m.world.coroutines.size := fun id hid =>
    List.mem_range.mpr (h.lt_size hid)
  have hle := (h.nodup.subperm hsub).length_le
  rwa [Moment.running, List.length_map, List.length_range] at hle

/-- Coroutines do not share stacks. -/
lemma stackOf_ne (h : Chained outer m) (hid : id < m.world.coroutines.size)
    (hj : j < m.world.coroutines.size) (hne : id ≠ j) : m.world.stackOf id ≠ m.world.stackOf j := by
  intro heq
  have howner := h.owning id hid
  rw [heq, h.owning j hj, Option.some.injEq] at howner
  exact hne howner.symm

/-- Every coroutine has a stack. -/
lemma exists_ownStack (h : Chained outer m) (hid : id < m.world.coroutines.size) :
    ∃ s, m.world.ownStack? id = some s := by
  have howner := h.owning id hid
  rw [ownStack?_of_lt hid, stack?]
  unfold ownerOf at howner
  cases hstack : m.world.frameStacks[m.world.stackOf id]? with
  | none => simp [hstack] at howner
  | some s => exact ⟨s.frames, rfl⟩

/-- **The innermost running coroutine is the active one.** -/
lemma active (h : Chained outer m) : m.world.active? = m.running.head? := by
  rw [active?_eq, h.ambient]
  obtain ⟨w, chain⟩ := m
  cases chain with
  | nil => exact h.detached
  | cons head rest =>
    have hlt := h.lt_size (List.mem_cons_self : head.1 ∈ _)
    exact h.owning head.1 hlt

/-- The ambient stack is its stack. -/
lemma ambient_of_head (h : Chained outer m) (hhead : m.running.head? = some id) :
    m.world.ambient = some (m.world.stackOf id) := by
  rw [h.ambient]
  obtain ⟨w, chain⟩ := m
  cases chain with
  | nil => cases hhead
  | cons head rest =>
    cases hhead
    rfl

/-- It is the stack of no other coroutine. -/
lemma ambient_ne (h : Chained outer m) (hj : j < m.world.coroutines.size)
    (hhead : m.running.head? ≠ some j) : m.world.ambient ≠ some (m.world.stackOf j) := by
  intro hambient
  have hactive := h.active
  rw [active?_eq, hambient] at hactive
  exact hhead (hactive.symm.trans (h.owning j hj))

end Chained

variable [Inhabited α]

/-! ### Operations on a stack -/

section

variable (w : Coroutines α) (a : Option StackId) (op : FrameStack.Op α)

/-- An operation on a stack touches that stack and nothing else. -/
lemma sameStacks_onStack : SameStacks w (Script.onStack w a op).2
    ∧ (Script.onStack w a op).2.ambient = w.ambient
    ∧ ∀ id, (Script.onStack w a op).2.stateOf id = w.stateOf id := by
  unfold Script.onStack Coroutines.onStack
  cases a with
  | none => exact ⟨.refl w, rfl, fun _ => rfl⟩
  | some s =>
    cases hstack : w.stack? s with
    | none => simpa [hstack] using SameStacks.refl w
    | some f => simpa [hstack] using ⟨sameStacks_setStack w s _, rfl, fun _ => rfl⟩

lemma stack?_onStack_of_ne {t : StackId} (h : a ≠ some t) :
    (Script.onStack w a op).2.stack? t = w.stack? t := by
  unfold Script.onStack Coroutines.onStack
  cases a with
  | none => rfl
  | some s =>
    cases hstack : w.stack? s with
    | none => simp [hstack]
    | some f =>
      have hne : t ≠ s := fun he => h (by rw [he])
      simpa [hstack] using stack?_setStack_of_ne _ hne

lemma stack?_onStack_self (s : StackId) :
    (Script.onStack w (some s) op).1 = ((w.stack? s).map fun f => (f.apply op).1).getD .misuse
      ∧ (Script.onStack w (some s) op).2.stack? s = (w.stack? s).map fun f => (f.apply op).2 := by
  unfold Script.onStack Coroutines.onStack
  cases hstack : w.stack? s with
  | none => simp [hstack]
  | some f => simp [hstack, stack?_setStack_self]

end

/-- **What may happen at a moment**: an operation on the ambient stack, a run, or the end of the innermost
body. -/
inductive Step : Moment α → Event α → Moment α → Prop where
  | acts {m : Moment α} (op : FrameStack.Op α) :
      Step m (.acted m.running.head? op (Script.onStack m.world m.world.ambient op).1)
        { m with world := (Script.onStack m.world m.world.ambient op).2 }
  | refuses {m : Moment α} {id : CoroutineId} {c : Condition} (h : m.world.begin? id = .error c) :
      Step m (.refused id c) m
  | enters {w w' : Coroutines α} {chain : List (CoroutineId × Option StackId)} {id : CoroutineId}
      (h : w.begin? id = .ok w') : Step ⟨w, chain⟩ (.entered id) ⟨w', (id, w.ambient) :: chain⟩
  | leaves {w : Coroutines α} {chain : List (CoroutineId × Option StackId)} {id : CoroutineId}
      {before : Option StackId} (e : BodyEnd) :
      Step ⟨w, (id, before) :: chain⟩
        (.left id e ((w.leave id before e.suspends).stateOf id)
          ((w.leave id before e.suspends).savedOf id))
        ⟨w.leave id before e.suspends, chain⟩

/-- **A course of events** between two moments. -/
inductive Course : Moment α → List (Event α) → Moment α → Prop where
  | refl {m : Moment α} : Course m [] m
  | tail {a b c : Moment α} {es : List (Event α)} {e : Event α} (h : Course a es b)
      (hstep : Step b e c) : Course a (es ++ [e]) c

/-- A course on which the runs of a chain do not end. -/
inductive Within (chain : List (CoroutineId × Option StackId)) :
    Moment α → List (Event α) → Moment α → Prop where
  | refl {m : Moment α} (hchain : chain <:+ m.chain) : Within chain m [] m
  | tail {a b c : Moment α} {es : List (Event α)} {e : Event α} (h : Within chain a es b)
      (hstep : Step b e c) (hchain : chain <:+ c.chain) : Within chain a (es ++ [e]) c

/-- **A whole run**, and how its body ends. -/
inductive Completes : Moment α → CoroutineId → BodyEnd → Moment α → Prop where
  | intro {a b c d : Moment α} {id : CoroutineId} {es : List (Event α)} {e : BodyEnd}
      {state : CoroutineState} {saved : List (FrameRecord α)} (henter : Step a (.entered id) b)
      (hwithin : Within b.chain b es c) (hchain : c.chain = b.chain)
      (hleave : Step c (.left id e state saved) d) : Completes a id e d

/-! ## What a step does -/

namespace Chained

variable {outer : Option StackId} {m m' : Moment α} {e : Event α} {id j : CoroutineId}

/-- **A step keeps the invariant.** -/
lemma step (h : Chained outer m) (hstep : Step m e m') : Chained outer m' := by
  cases hstep with
  | acts op =>
    obtain ⟨hsame, hambient, hstate⟩ := sameStacks_onStack m.world m.world.ambient op
    exact ⟨hsame.owning h.owning, hsame.detached h.detached,
      (hambient.trans h.ambient).trans (hsame.top _).symm, hsame.nested h.nested,
      fun id => by rw [hstate]; exact h.running id, h.nodup⟩
  | refuses _ => exact h
  | @enters w w' chain id hbegin =>
    obtain ⟨hrun, hfin, rfl⟩ := begin?_ok hbegin
    have hsame := (sameStacks_setState w id .running).withAmbient (some (w.stackOf id))
    have hnot : id ∉ chain.map Prod.fst := fun hmem => hrun ((h.running id).mpr hmem)
    refine ⟨hsame.owning h.owning, hsame.detached h.detached, ?_, ⟨?_, hsame.nested h.nested⟩, ?_,
      List.nodup_cons.mpr ⟨hnot, h.nodup⟩⟩
    · exact congrArg some (hsame.stackOf id).symm
    · exact h.ambient.trans (hsame.top chain).symm
    · intro j
      change (w.setState id .running).stateOf j = .running ↔ j ∈ id :: chain.map Prod.fst
      rw [List.mem_cons]
      by_cases hj : j = id
      · subst hj
        exact iff_of_true (stateOf_setState_self _ (lt_size_of_stateOf_ne hfin)) (.inl rfl)
      · rw [stateOf_setState_of_ne _ hj, or_iff_right hj]
        exact h.running j
  | @leaves w chain id before e =>
    have hsame := sameStacks_leave w id before e.suspends
    have hnodup := List.nodup_cons.mp h.nodup
    refine ⟨hsame.owning h.owning, hsame.detached h.detached, ?_, hsame.nested h.nested.2, ?_,
      hnodup.2⟩
    · exact (ambient_leave w id before _).trans (h.nested.1.trans (hsame.top chain).symm)
    · intro j
      by_cases hj : j = id
      · subst hj
        refine iff_of_false ?_ hnodup.1
        rw [stateOf_leave_self _ _ (h.lt_size List.mem_cons_self)]
        cases e.suspends <;> decide
      · rw [stateOf_leave_of_ne _ _ hj]
        exact (h.running j).trans (List.mem_cons.trans (or_iff_right hj))

/-- **A course keeps the invariant.** -/
lemma course {es : List (Event α)} (h : Chained outer m) (hcourse : Course m es m') : Chained outer m' := by
  induction hcourse with
  | refl => exact h
  | tail _ hstep ih => exact ih.step hstep

/-- **Only the innermost body touches its coroutine's stack.** -/
lemma ownStack?_step (h : Chained outer m) (hstep : Step m e m') (hhead : m.running.head? ≠ some j) :
    m'.world.ownStack? j = m.world.ownStack? j := by
  cases hstep with
  | acts op =>
    refine (sameStacks_onStack m.world m.world.ambient op).1.ownStack? fun hj => ?_
    exact stack?_onStack_of_ne _ _ _ (h.ambient_ne hj hhead)
  | refuses _ => rfl
  | @enters w w' chain id hbegin =>
    obtain ⟨-, -, rfl⟩ := begin?_ok hbegin
    exact ((sameStacks_setState w id .running).withAmbient _).ownStack? fun _ => rfl
  | @leaves w chain id before e =>
    have hid := h.lt_size (List.mem_cons_self : id ∈ _)
    have hne : j ≠ id := fun he => hhead (by rw [he]; rfl)
    exact (sameStacks_leave w id before e.suspends).ownStack? fun hj =>
      stack?_leave_of_ne _ _ (h.stackOf_ne hj hid hne)

end Chained

/-- No step gives a coroutine another stack. -/
lemma Step.sameStacks {m m' : Moment α} {e : Event α} (hstep : Step m e m') :
    SameStacks m.world m'.world := by
  cases hstep with
  | acts op => exact (sameStacks_onStack m.world m.world.ambient op).1
  | refuses _ => exact .refl _
  | @enters w w' chain id hbegin =>
    obtain ⟨-, -, rfl⟩ := begin?_ok hbegin
    exact (sameStacks_setState w id .running).withAmbient _
  | @leaves w chain id before e => exact sameStacks_leave w id before e.suspends

lemma Course.sameStacks {m m' : Moment α} {es : List (Event α)} (hcourse : Course m es m') :
    SameStacks m.world m'.world := by
  induction hcourse with
  | refl => exact .refl _
  | tail _ hstep ih => exact ih.trans hstep.sameStacks

lemma Course.trans {a b c : Moment α} {es es' : List (Event α)} (h : Course a es b)
    (h' : Course b es' c) : Course a (es ++ es') c := by
  induction h' with
  | refl => rwa [List.append_nil]
  | tail _ hstep ih => rw [← List.append_assoc]; exact ih.tail hstep

/-- **A step changes the state of a coroutine only by entering it or by leaving it.** -/
lemma Step.stateOf_eq {m m' : Moment α} {e : Event α} {j : CoroutineId} (hstep : Step m e m')
    (henter : e ≠ .entered j) (hleave : ∀ b v r, e ≠ .left j b v r) :
    m'.world.stateOf j = m.world.stateOf j := by
  cases hstep with
  | acts op => exact (sameStacks_onStack m.world m.world.ambient op).2.2 j
  | refuses _ => rfl
  | enters hbegin =>
    obtain ⟨-, -, rfl⟩ := begin?_ok hbegin
    exact stateOf_setState_of_ne _ fun hj => henter (by rw [hj])
  | leaves e => exact stateOf_leave_of_ne _ _ fun hj => hleave _ _ _ (by rw [hj])

/-! ### Leaving -/

/-- **What the end of a body does**: its coroutine is suspended, with its stack rewound and its records
kept, or finished. -/
lemma Chained.left {outer : Option StackId} {m m' : Moment α} {id : CoroutineId} {e : BodyEnd}
    {state : CoroutineState} {saved : List (FrameRecord α)} (h : Chained outer m)
    (hstep : Step m (.left id e state saved) m') :
    state = stateAfter e.suspends ∧ m'.world.stateOf id = stateAfter e.suspends
      ∧ m'.world.ownStack? id
        = (m.world.ownStack? id).map fun s => if e.suspends then { s with depth := 0 } else s := by
  cases hstep with
  | @leaves w chain _ before =>
    have hid := h.lt_size (List.mem_cons_self : id ∈ _)
    have hstate := stateOf_leave_self before e.suspends hid
    have hsame := sameStacks_leave w id before e.suspends
    refine ⟨hstate, hstate, ?_⟩
    rw [ownStack?_of_lt hid, ownStack?_of_lt (hsame.size ▸ hid), hsame.stackOf]
    exact stack?_leave_self before e.suspends

/-- A coroutine that is left is the innermost one. -/
lemma Step.left_head {m m' : Moment α} {id : CoroutineId} {e : BodyEnd} {state : CoroutineState}
    {saved : List (FrameRecord α)} (hstep : Step m (.left id e state saved) m') :
    m.running.head? = some id := by
  cases hstep
  rfl

/-! ### Whole runs -/

lemma Step.ownStack?_entered {m m' : Moment α} {id : CoroutineId} (hstep : Step m (.entered id) m')
    (j : CoroutineId) : m'.world.ownStack? j = m.world.ownStack? j := by
  cases hstep with
  | @enters w w' chain _ hbegin =>
    obtain ⟨-, -, rfl⟩ := begin?_ok hbegin
    exact ((sameStacks_setState w id .running).withAmbient _).ownStack? fun _ => rfl

lemma Within.course {chain : List (CoroutineId × Option StackId)} {a b : Moment α} {es : List (Event α)}
    (h : Within chain a es b) : Course a es b := by
  induction h with
  | refl _ => exact .refl
  | tail _ hstep _ ih => exact ih.tail hstep

lemma Within.suffix {chain : List (CoroutineId × Option StackId)} {a b : Moment α} {es : List (Event α)}
    (h : Within chain a es b) : chain <:+ b.chain := by
  cases h with
  | refl hchain => exact hchain
  | tail _ _ hchain => exact hchain

/-- **Below a run nothing changes**: as long as it does not end, the coroutines below it keep their
stacks. -/
lemma Within.ownStack? {head : CoroutineId × Option StackId} {chain : List (CoroutineId × Option StackId)}
    {outer : Option StackId} {a b : Moment α} {es : List (Event α)} {j : CoroutineId}
    (h : Within (head :: chain) a es b) (hchained : Chained outer a) (hj : j ∈ chain.map Prod.fst) :
    b.world.ownStack? j = a.world.ownStack? j := by
  induction h with
  | refl _ => rfl
  | @tail b c es e hwithin hstep _ ih =>
    have hb := hchained.course hwithin.course
    refine (hb.ownStack?_step hstep fun hhead => ?_).trans ih
    -- `j` would be on the chain twice, as its head and below
    obtain ⟨inner, hinner⟩ := hwithin.suffix
    have hnodup := hb.nodup
    rw [Moment.running, ← hinner] at hnodup hhead
    cases inner with
    | nil =>
      obtain rfl : head.1 = j := by simpa using hhead
      exact (List.nodup_cons.mp hnodup).1 hj
    | cons first inner =>
      obtain rfl : first.1 = j := by simpa using hhead
      have hmem : first.1 ∈ (inner ++ head :: chain).map Prod.fst := by
        rw [List.map_append]
        exact List.mem_append_right _ (List.mem_cons_of_mem _ hj)
      exact (List.nodup_cons.mp hnodup).1 hmem

/-- **Finished for good.** -/
lemma Chained.finished {outer : Option StackId} {m m' : Moment α} {es : List (Event α)} {id : CoroutineId}
    (h : Chained outer m) (hcourse : Course m es m') (hfin : m.world.stateOf id = .finished) :
    m'.world.stateOf id = .finished ∧ Event.entered id ∉ es := by
  induction hcourse with
  | refl => exact ⟨hfin, List.not_mem_nil⟩
  | @tail b c es e hcourse hstep ih =>
    have henter : e ≠ .entered id := by
      rintro rfl
      cases hstep with
      | enters hbegin => exact (begin?_ok hbegin).2.1 ih.1
    have hleave : ∀ v r s, e ≠ .left id v r s := by
      rintro v r s rfl
      have hrun := ((h.course hcourse).running id).mpr (List.mem_of_head? hstep.left_head)
      rw [ih.1] at hrun
      cases hrun
    refine ⟨(hstep.stateOf_eq henter hleave).trans ih.1, fun hmem => ?_⟩
    rcases List.mem_append.mp hmem with hmem | hmem
    · exact ih.2 hmem
    · exact henter (List.mem_singleton.mp hmem).symm

/-! ## The discipline -/

/-- **The discipline of nested coroutines**, at a moment. -/
structure Disciplined (m : Moment α) : Prop where
  /-- the running coroutines are those whose runs are under way, each once -/
  running : ∀ id, m.world.stateOf id = .running ↔ id ∈ m.running
  nodup : m.running.Nodup
  /-- the innermost of them is active -/
  active : m.world.active? = m.running.head?
  /-- a coroutine that is running or finished refuses to be run, and nothing changes -/
  refused : ∀ id c,
    (m.world.stateOf id = .running ∧ c = .running) ∨ (m.world.stateOf id = .finished ∧ c = .finished) →
    ∀ e m', e.calls? = some id → (Step m e m' ↔ e = .refused id c ∧ m' = m)
  /-- any other is entered -/
  entered : ∀ id, m.world.stateOf id = .new ∨ m.world.stateOf id = .suspended →
    ∀ e, e.calls? = some id → ((∃ m', Step m e m') ↔ e = .entered id)
  /-- a finished coroutine stays so and is not entered again, whatever happens -/
  finished : ∀ id es m', m.world.stateOf id = .finished → Course m es m' →
    m'.world.stateOf id = .finished ∧ Event.entered id ∉ es
  /-- the end of a body decides about its coroutine, whose stack is rewound if it is suspended, its
  records being kept; the others stay as they are -/
  left : ∀ id e state saved m', Step m (.left id e state saved) m' →
    state = (if e.suspends then .suspended else .finished) ∧ m'.world.stateOf id = state
      ∧ m'.world.ownStack? id
        = (m.world.ownStack? id).map (fun s => if e.suspends then { s with depth := 0 } else s)
      ∧ ∀ j ≠ id, m'.world.stateOf j = m.world.stateOf j ∧ m'.world.ownStack? j = m.world.ownStack? j
  /-- a whole run puts the ambient stack back, and goes past the coroutines around it -/
  completed : ∀ id e m', Completes m id e m' →
    m'.world.ambient = m.world.ambient ∧ m'.running = m.running
      ∧ m'.world.stateOf id = (if e.suspends then .suspended else .finished)
      ∧ (e.suspends → ∃ s, m'.world.ownStack? id = some s ∧ s.depth = 0)
      ∧ ∀ j ∈ m.running, m'.world.stateOf j = .running ∧ m'.world.ownStack? j = m.world.ownStack? j

/-- What a whole run comes to. -/
lemma Chained.completed {outer : Option StackId} {m m' : Moment α} {id : CoroutineId} {e : BodyEnd}
    (h : Chained outer m) (hcompletes : Completes m id e m') :
    m'.world.ambient = m.world.ambient ∧ m'.running = m.running
      ∧ m'.world.stateOf id = stateAfter e.suspends
      ∧ (e.suspends → ∃ s, m'.world.ownStack? id = some s ∧ s.depth = 0)
      ∧ ∀ j ∈ m.running, m'.world.stateOf j = .running ∧ m'.world.ownStack? j = m.world.ownStack? j := by
  obtain @⟨b, c, _, _, es, _, _, _, henter, hwithin, hchain, hleave⟩ := hcompletes
  have hb := h.step henter
  have hc := hb.course hwithin.course
  have hm' := hc.step hleave
  obtain ⟨-, hstate, hstack⟩ := hc.left hleave
  have hhead := hleave.left_head
  have hentered : ∀ j, b.world.ownStack? j = m.world.ownStack? j := henter.ownStack?_entered
  cases henter with
  | @enters w w' chain _ hbegin =>
    -- the run begins and ends on the same chain, so what is put back is what was found
    have hback : m'.world.ambient = w.ambient ∧ m'.chain = chain := by
      cases hleave with
      | leaves _ =>
        injection hchain with hfirst hrest
        exact ⟨by rw [ambient_leave]; exact congrArg Prod.snd hfirst, hrest⟩
    have hrunning : m'.running = chain.map Prod.fst := congrArg (List.map Prod.fst) hback.2
    refine ⟨hback.1, hrunning, hstate, fun hsuspends => ?_, fun j hj => ⟨?_, ?_⟩⟩
    · obtain ⟨s, hs⟩ := hc.exists_ownStack (hc.lt_size (List.mem_of_head? hhead))
      rw [hs, Option.map_some, if_pos hsuspends] at hstack
      exact ⟨_, hstack, rfl⟩
    · rw [hm'.running, hrunning]
      exact hj
    · have hne : id ≠ j := fun he => (List.nodup_cons.mp hb.nodup).1 (he ▸ hj)
      calc m'.world.ownStack? j = c.world.ownStack? j :=
            hc.ownStack?_step hleave fun he => hne (Option.some.inj (hhead.symm.trans he))
        _ = w'.ownStack? j := hwithin.ownStack? hb hj
        _ = w.ownStack? j := hentered j

/-- **Nested coroutines keep to the discipline**, from the beginning of a family and whatever their bodies
do. -/
theorem course_disciplined {w : Coroutines α} {es : List (Event α)} {m : Moment α} (hfresh : w.Fresh)
    (hcourse : Course ⟨w, []⟩ es m) : Disciplined m := by
  have h := hfresh.chained.course hcourse
  refine ⟨h.running, h.nodup, h.active, ?_, ?_, fun id es' m' hfin hlater => h.finished hlater hfin, ?_,
    fun id e m' => h.completed⟩
  · intro id c hstate e m' hcalls
    refine ⟨fun hstep => ?_, ?_⟩
    · cases hstep with
      | acts _ => cases hcalls
      | leaves _ => cases hcalls
      | refuses hbegin =>
        cases hcalls
        rcases begin?_error hbegin with ⟨hrun, rfl⟩ | ⟨hfin, rfl⟩ <;>
          rcases hstate with ⟨hstate, rfl⟩ | ⟨hstate, rfl⟩ <;> simp_all
      | enters hbegin =>
        cases hcalls
        obtain ⟨hrun, hfin, -⟩ := begin?_ok hbegin
        simp_all
    · rintro ⟨rfl, rfl⟩
      refine .refuses ?_
      rcases hstate with ⟨hstate, rfl⟩ | ⟨hstate, rfl⟩ <;> simp [begin?, hstate]
  · intro id hstate e hcalls
    refine ⟨fun ⟨m', hstep⟩ => ?_, ?_⟩
    · cases hstep with
      | acts _ => cases hcalls
      | leaves _ => cases hcalls
      | refuses hbegin =>
        cases hcalls
        rcases begin?_error hbegin with ⟨hrun, -⟩ | ⟨hfin, -⟩ <;> rcases hstate with hstate | hstate <;>
          simp_all
      | enters _ =>
        cases hcalls
        rfl
    · rintro rfl
      have hbegin : m.world.begin? id
          = .ok { m.world.setState id .running with ambient := some (m.world.stackOf id) } := by
        rcases hstate with hstate | hstate <;> simp [begin?, hstate]
      exact ⟨_, .enters hbegin⟩
  · intro id e state saved m' hstep
    obtain ⟨hvalue, hstate, hstack⟩ := h.left hstep
    refine ⟨hvalue, hstate.trans hvalue.symm, hstack, fun j hj => ⟨?_, ?_⟩⟩
    · refine hstep.stateOf_eq (by simp) fun v r s heq => ?_
      injection heq with hid
      exact hj hid.symm
    · refine h.ownStack?_step hstep fun hhead => hj ?_
      rw [hstep.left_head] at hhead
      exact (Option.some.inj hhead).symm

/-- Two coroutines, with room for one record each. -/
def pair : Coroutines Nat where
  frameStacks := #[{ frames := { room := 1 }, owner := some 0 }, { frames := { room := 1 }, owner := some 1 }]
  coroutines := #[{ stack := 0 }, { stack := 1 }]

/-- The first of them works on its stack and runs the second, which suspends itself with a wrapped signal;
then the first is to be run again, while it is running. -/
theorem pair_disciplined : ∃ m, pair.Fresh
    ∧ Course ⟨pair, []⟩
        [.entered 0, .acted (some 0) .enter (.entry 0), .entered 1, .acted (some 1) .enter (.entry 0),
          .left 1 (.fails (.context "wrapped" (.condition .suspend))) .suspended [],
          .refused 0 .running] m
    ∧ m.running = [0] ∧ Disciplined m := by
  have hfresh : pair.Fresh := ⟨by decide, by decide, rfl⟩
  have hcourse : Course ⟨pair, []⟩ _ _ :=
    .tail (.tail (.tail (.tail (.tail (.tail .refl (.enters (rfl : begin? _ 0 = .ok _))) (.acts .enter))
      (.enters (rfl : begin? _ 1 = .ok _))) (.acts .enter))
      (.leaves (.fails (.context "wrapped" (.condition .suspend))))) (.refuses (rfl : begin? _ 0 = .error _))
  exact ⟨_, hfresh, hcourse, rfl, course_disciplined hfresh hcourse⟩

end Coroutines

end Suspension
