import Mathlib.Logic.Function.Basic
import Suspension.Proofs.FrameStack.Records

/-!
# Nested activations

Activations of transformed methods are nested, and the frame stack has one record for each of them.  An
activation saves its entry before every call that may suspend.  When the suspend signal has left them
all, the stack is rewound and the calls are made again, from the outermost inwards; **each of them is to
find the record that it wrote**, and an activation entered by a new call is to find nothing.

That is so as long as every call that is made again gets as far as entering its record.  A call that
fails in front of that, for want of room on the host's stack or because reflection refuses its
arguments, leaves its record to whoever comes next.

* `Nest`, `Nest.Step` — nested activations, and what they do to their frame stack.
* `Nest.Settled` — the invariant: every record belongs to the activation at its depth.
* `Nest.run_fair` — no activation is told the entry of another one, unless a call was refused;
  `Nest.run_not_fair` — what happens when one was.
-/

namespace Suspension

/-! ## Runs -/

/-- A call that is under way: its number, and the entry that it has saved last, 0 before the first. -/
structure Call where
  number : Nat
  entry : Int := 0

/-- **Nested activations beside their frame stack**, outermost first: those that are live, and those that
wait to be entered again after a suspension.  For every record it is known which call wrote it, and the
calls are counted. -/
structure Nest where
  stack : FrameStack Value
  live : List Call := []
  waiting : List Call := []
  writers : Nat → Option Nat := fun _ => none
  calls : Nat := 0

namespace Nest

/-- What is seen of a step. -/
inductive Event where
  /-- an activation is entered, by a new call or by one that is made again; it is told an entry, which
  some call wrote -/
  | entered (call : Call) (again : Bool) (entry : Int) (writer : Option Nat)
  /-- a call that is made again fails before its activation is entered -/
  | refused
  | silent

/-- **Nobody is told the entry of another call**: a new call is told 0, a call that is made again is told
its own entry, and only such a call is told anything, by itself. -/
def Event.Fair : Event → Prop
  | .entered call again entry writer =>
    (again = false → entry = 0) ∧ (again = true → entry = call.entry)
      ∧ (entry ≠ 0 → again = true ∧ writer = some call.number)
  | .refused | .silent => True

/-- The operations on the slots of a record. -/
def isAccess : FrameStack.Op Value → Bool
  | .enter | .push _ _ _ | .pop | .rewind => false
  | _ => true

/-- **What nested activations do.**  While calls wait to be made again nothing else can happen, for a
resumed activation restores its frame and makes its call. -/
inductive Step : Nest → Event → Nest → Prop where
  /-- the innermost activation has saved its entry, and calls another method -/
  | call {s : FrameStack Value} {live : List Call} {writers : Nat → Option Nat} {n : Nat}
      (hsaved : ∀ c ∈ live.getLast?, c.entry ≠ 0) :
      Step ⟨s, live, [], writers, n⟩ (.entered ⟨n, 0⟩ false s.enter.1 (writers s.depth))
        ⟨s.enter.2, live ++ [⟨n, 0⟩], [], writers, n + 1⟩
  | save {s s' : FrameStack Value} {live : List Call} {c : Call} {writers : Nat → Option Nat} {n : Nat}
      {entry objects prims : Int} (hentry : 0 < entry)
      (hpush : s.push entry objects prims = (true, s')) :
      Step ⟨s, live ++ [c], [], writers, n⟩ .silent
        ⟨s', live ++ [⟨c.number, entry⟩], [],
          Function.update writers (s.depth - 1) (some c.number), n⟩
  /-- a slot of the record is stored or fetched -/
  | access {nest : Nest} {op : FrameStack.Op Value} (hop : isAccess op = true) :
      Step nest .silent { nest with stack := (nest.stack.apply op).2 }
  /-- the innermost activation returns, or an exception leaves it -/
  | leave {s : FrameStack Value} {live : List Call} {c : Call} {writers : Nat → Option Nat} {n : Nat} :
      Step ⟨s, live ++ [c], [], writers, n⟩ .silent ⟨s.pop, live, [], writers, n⟩
  /-- the suspend signal leaves all activations, and the stack is rewound -/
  | suspend {s : FrameStack Value} {live : List Call} {writers : Nat → Option Nat} {n : Nat}
      (hsaved : ∀ c ∈ live, c.entry ≠ 0) :
      Step ⟨s, live, [], writers, n⟩ .silent ⟨s.rewind, [], live, writers, n⟩
  /-- the outermost call that waits is made again -/
  | again {s : FrameStack Value} {live rest : List Call} {c : Call} {writers : Nat → Option Nat}
      {n : Nat} :
      Step ⟨s, live, c :: rest, writers, n⟩ (.entered c true s.enter.1 (writers s.depth))
        ⟨s.enter.2, live ++ [c], rest, writers, n⟩
  /-- it fails before its activation is entered, and its caller goes on with the exception -/
  | refuse {s : FrameStack Value} {live rest : List Call} {c d : Call} {writers : Nat → Option Nat}
      {n : Nat} :
      Step ⟨s, live ++ [d], c :: rest, writers, n⟩ .refused ⟨s, live ++ [d], [], writers, n⟩

/-- A run, with what is seen of its steps. -/
inductive Run : Nest → List Event → Nest → Prop where
  | refl {nest : Nest} : Run nest [] nest
  | tail {a b c : Nest} {es : List Event} {e : Event} (hrun : Run a es b) (hstep : Step b e c) :
      Run a (es ++ [e]) c

/-! ## The invariant -/

/-- **Every record belongs to the activation at its depth**, be it live or waiting, and nothing is saved
above them. -/
structure Settled (nest : Nest) : Prop where
  depth : nest.stack.depth = nest.live.length
  room : 0 < nest.stack.room ∧ nest.stack.depth ≤ nest.stack.room
  entry : ∀ i c, (nest.live ++ nest.waiting)[i]? = some c →
    (nest.stack.recordAt i).entry = c.entry
  writer : ∀ i c, (nest.live ++ nest.waiting)[i]? = some c → c.entry ≠ 0 →
    nest.writers i = some c.number
  above : ∀ i, (nest.live ++ nest.waiting).length ≤ i → (nest.stack.recordAt i).entry = 0
  saved : ∀ c ∈ nest.waiting, c.entry ≠ 0

end Nest

/-! ### Records of other depths -/

namespace FrameStack

variable {s s' : FrameStack Value}

lemma getD_put_of_ne (records : Array (FrameRecord Value)) {i j : Nat} (r : FrameRecord Value)
    (h : j ≠ i) : (put records i r).getD j .empty = records.getD j .empty := by
  simp only [put, Array.set!_eq_setIfInBounds, Array.getD_eq_getD_getElem?]
  rw [Array.getElem?_setIfInBounds_ne (Ne.symm h), Array.getElem?_append]
  split
  · rfl
  · rw [show records[j]? = none from Array.getElem?_eq_none (by omega), Array.getElem?_replicate]
    split <;> rfl

lemma recordAt_setCurrent_of_ne {j : Nat} (r : FrameRecord Value) (h : j ≠ s.depth - 1) :
    (s.setCurrent r).recordAt j = s.recordAt j := getD_put_of_ne _ _ h

lemma recordAt_pop_of_ne {j : Nat} (h : j ≠ s.depth - 1) : s.pop.recordAt j = s.recordAt j := by
  unfold pop
  split
  · rfl
  · exact recordAt_setCurrent_of_ne _ h

@[simp] lemma room_pop (s : FrameStack Value) : s.pop.room = s.room := by
  unfold pop
  split <;> rfl

/-- **Entering makes room**, and hands out the entry of the record. -/
lemma enter_of_room (h : 0 < s.room) (hd : s.depth ≤ s.room) :
    s.enter.1 = (s.recordAt s.depth).entry ∧ 0 < s.enter.2.room ∧ s.depth + 1 ≤ s.enter.2.room := by
  simp only [enter, grow, record?]
  split
  · next hlt => exact ⟨by simp [recordAt], h, hlt⟩
  · have hlt : s.depth < 2 * s.room := by omega
    exact ⟨by simp [hlt, recordAt], by simp only; omega, by simp only; omega⟩

/-- The current record keeps its entry when one of its slots is stored. -/
lemma entry_setCurrent {r : FrameRecord Value} (hr : r.entry = s.topRecord.entry) (i : Nat) :
    ((s.setCurrent r).recordAt i).entry = (s.recordAt i).entry := by
  by_cases hi : i = s.depth - 1
  · subst hi
    have := s.topRecord_setCurrent r
    rw [topRecord, depth_setCurrent] at this
    rw [this, hr]
    rfl
  · rw [recordAt_setCurrent_of_ne r hi]

/-- **Slots are stored and fetched without a change to the entries**, the depth and the room. -/
structure SameEntries (s s' : FrameStack Value) : Prop where
  depth : s'.depth = s.depth
  room : s'.room = s.room
  entry : ∀ i, (s'.recordAt i).entry = (s.recordAt i).entry

lemma SameEntries.refl (s : FrameStack Value) : SameEntries s s := ⟨rfl, rfl, fun _ => rfl⟩

lemma sameEntries_stored {s'? : Option (FrameStack Value)}
    (h : ∀ s', s'? = some s' → SameEntries s s') : SameEntries s (stored s s'?).2 := by
  cases s'? with
  | none => exact .refl s
  | some s' => exact h s' rfl

lemma sameEntries_setObject {slot : Int} {v : Value} (h : s.setObject? slot v = some s') :
    SameEntries s s' := by
  obtain ⟨r, hr, h⟩ := Option.bind_eq_some_iff.mp h
  obtain ⟨i, -, h⟩ := Option.bind_eq_some_iff.mp h
  obtain ⟨rfl, -⟩ := current?_eq_some hr
  cases h
  exact ⟨rfl, rfl, entry_setCurrent rfl⟩

lemma sameEntries_setPrim {slot : Int} {bits : UInt64} (h : s.setPrim? slot bits = some s') :
    SameEntries s s' := by
  obtain ⟨r, hr, h⟩ := Option.bind_eq_some_iff.mp h
  obtain ⟨i, -, h⟩ := Option.bind_eq_some_iff.mp h
  obtain ⟨rfl, -⟩ := current?_eq_some hr
  cases h
  exact ⟨rfl, rfl, entry_setCurrent rfl⟩

lemma sameEntries_access {op : Op Value} (h : Nest.isAccess op = true) :
    SameEntries s (s.apply op).2 := by
  cases op with
  | enter | push | pop | rewind => cases h
  | setObject i v => exact sameEntries_stored fun s' => sameEntries_setObject
  | setInt i v | setLong i v | setFloat i v | setDouble i v =>
      exact sameEntries_stored fun s' => sameEntries_setPrim
  | depth | frames | object i | int i | long i | float i | double i => exact .refl s

end FrameStack

namespace Nest

/-! ### Steps -/

lemma Settled.start {size : Int} {s : FrameStack Value} (h : FrameStack.ofSize? size = some s) :
    Settled { stack := s } := by
  have hs : s.depth = 0 ∧ 0 < s.room ∧ s.records = #[] := by
    unfold FrameStack.ofSize? at h
    split at h
    · cases h
      exact ⟨rfl, by decide, rfl⟩
    · split at h
      · cases h
        exact ⟨rfl, by simp only; omega, rfl⟩
      · cases h
  obtain ⟨hd, hroom, hrec⟩ := hs
  refine ⟨hd, ⟨hroom, by simp [hd]⟩, by simp, by simp, fun i _ => ?_, by simp⟩
  simp [FrameStack.recordAt, hrec, FrameRecord.empty]

/-- A record above a list of calls. -/
lemma getElem?_append_singleton {l : List Call} {c x : Call} {i : Nat}
    (h : (l ++ [c])[i]? = some x) : l[i]? = some x ∧ i < l.length ∨ i = l.length ∧ x = c := by
  by_cases hlt : i < l.length
  · rw [List.getElem?_append_left hlt] at h
    exact Or.inl ⟨h, hlt⟩
  · rw [List.getElem?_append_right (by omega)] at h
    obtain ⟨h₁, h₂⟩ := List.getElem?_eq_some_iff.mp h
    simp only [List.length_singleton] at h₁
    exact Or.inr ⟨by omega, by simpa using h₂.symm⟩

variable {s s' : FrameStack Value} {live rest : List Call} {c : Call} {writers : Nat → Option Nat}
  {n : Nat}

/-- **A new call** finds nothing. -/
lemma Settled.call (h : Settled ⟨s, live, [], writers, n⟩) :
    Settled ⟨s.enter.2, live ++ [⟨n, 0⟩], [], writers, n + 1⟩ ∧ s.enter.1 = 0 := by
  obtain ⟨hd, ⟨hroom, hle⟩, hentry, hwriter, habove, -⟩ := h
  simp only [List.append_nil] at hd hroom hle hentry hwriter habove
  obtain ⟨htold, hroom', hle'⟩ := FrameStack.enter_of_room hroom hle
  refine ⟨⟨by simp [s.depth_enter, hd], ⟨hroom', by rw [s.depth_enter]; exact hle'⟩, ?_, ?_, ?_,
    by simp⟩, ?_⟩
  · intro i c hc
    simp only [List.append_nil] at hc
    rw [s.recordAt_enter]
    rcases getElem?_append_singleton hc with ⟨hc, -⟩ | ⟨rfl, rfl⟩
    · exact hentry i c hc
    · exact habove _ (Nat.le_refl _)
  · intro i c hc hne
    simp only [List.append_nil] at hc
    rcases getElem?_append_singleton hc with ⟨hc, -⟩ | ⟨rfl, rfl⟩
    · exact hwriter i c hc hne
    · exact absurd rfl hne
  · intro i hi
    simp only [List.append_nil, List.length_append, List.length_singleton] at hi
    rw [s.recordAt_enter]
    exact habove i (by omega)
  · rw [htold, hd]
    exact habove _ (Nat.le_refl _)

/-- **Saving** changes the record of the innermost activation, which then is its own. -/
lemma Settled.save {entry objects prims : Int} (h : Settled ⟨s, live ++ [c], [], writers, n⟩)
    (hpush : s.push entry objects prims = (true, s')) :
    Settled ⟨s', live ++ [⟨c.number, entry⟩], [],
      Function.update writers (s.depth - 1) (some c.number), n⟩ := by
  obtain ⟨hd, hroom, hentry, hwriter, habove, -⟩ := h
  simp only [List.append_nil, List.length_append, List.length_singleton] at hd hroom hentry hwriter habove
  obtain ⟨-, rfl⟩ := FrameStack.push_eq_true hpush
  have hlast : s.depth - 1 = live.length := by omega
  have hne : ∀ i, i ≠ live.length → ∀ r : FrameRecord Value,
      (s.setCurrent r).recordAt i = s.recordAt i :=
    fun i hi r => FrameStack.recordAt_setCurrent_of_ne r (by omega)
  have hbelow : ∀ {i : Nat} {x : Call}, live[i]? = some x → i < live.length →
      (live ++ [c])[i]? = some x := by
    intro i x hx hlt
    rw [List.getElem?_append_left hlt]
    exact hx
  refine ⟨by simp [hd], hroom, ?_, ?_, ?_, by simp⟩
  · intro i x hx
    simp only [List.append_nil] at hx
    rcases getElem?_append_singleton hx with ⟨hx, hlt⟩ | ⟨rfl, rfl⟩
    · rw [hne i (by omega)]
      exact hentry i x (hbelow hx hlt)
    · have htop := s.topRecord_setCurrent ⟨entry, Array.replicate objects.toNat default,
        Array.replicate prims.toNat 0⟩
      rw [FrameStack.topRecord, FrameStack.depth_setCurrent, hlast] at htop
      rw [htop]
  · intro i x hx hnz
    simp only [List.append_nil] at hx
    show Function.update writers (s.depth - 1) (some c.number) i = some x.number
    rw [hlast]
    rcases getElem?_append_singleton hx with ⟨hx, hlt⟩ | ⟨rfl, rfl⟩
    · rw [Function.update_of_ne (by omega)]
      exact hwriter i x (hbelow hx hlt) hnz
    · exact Function.update_self _ _ _
  · intro i hi
    simp only [List.append_nil, List.length_append, List.length_singleton] at hi
    rw [hne i (by omega)]
    exact habove i (by omega)

lemma Settled.access {nest : Nest} (h : Settled nest) {op : FrameStack.Op Value}
    (hop : isAccess op = true) : Settled { nest with stack := (nest.stack.apply op).2 } := by
  obtain ⟨hd, hr, hentry⟩ := FrameStack.sameEntries_access (s := nest.stack) hop
  refine ⟨hd.trans h.depth, by rw [hr, hd]; exact h.room, fun i c hc => ?_, h.writer,
    fun i hi => ?_, h.saved⟩
  · exact (hentry i).trans (h.entry i c hc)
  · exact (hentry i).trans (h.above i hi)

/-- **Leaving** empties the record of the innermost activation. -/
lemma Settled.leave (h : Settled ⟨s, live ++ [c], [], writers, n⟩) :
    Settled ⟨s.pop, live, [], writers, n⟩ := by
  obtain ⟨hd, hroom, hentry, hwriter, habove, -⟩ := h
  simp only [List.append_nil, List.length_append, List.length_singleton] at hd hroom hentry hwriter habove
  have hpos : 0 < s.depth := by omega
  have hlast : s.depth - 1 = live.length := by omega
  refine ⟨?_, ⟨by simpa using hroom.1, ?_⟩, ?_, ?_, ?_, by simp⟩
  · rw [FrameStack.depth_pop hpos, hlast]
  · rw [FrameStack.depth_pop hpos, FrameStack.room_pop]
    omega
  · intro i x hx
    simp only [List.append_nil] at hx
    have hlt := (List.getElem?_eq_some_iff.mp hx).1
    rw [FrameStack.recordAt_pop_of_ne (by omega)]
    exact hentry i x (by rw [List.getElem?_append_left hlt]; exact hx)
  · intro i x hx
    simp only [List.append_nil] at hx
    have hlt := (List.getElem?_eq_some_iff.mp hx).1
    exact hwriter i x (by rw [List.getElem?_append_left hlt]; exact hx)
  · intro i hi
    simp only [List.append_nil] at hi
    by_cases heq : i = live.length
    · rw [heq, ← hlast, FrameStack.recordAt_pop hpos]
      rfl
    · rw [FrameStack.recordAt_pop_of_ne (by omega)]
      exact habove i (by omega)

lemma Settled.suspend (h : Settled ⟨s, live, [], writers, n⟩) (hsaved : ∀ c ∈ live, c.entry ≠ 0) :
    Settled ⟨s.rewind, [], live, writers, n⟩ := by
  obtain ⟨-, hroom, hentry, hwriter, habove, -⟩ := h
  simp only [List.append_nil] at hentry hwriter habove
  exact ⟨rfl, ⟨hroom.1, Nat.zero_le _⟩, hentry, hwriter, habove, hsaved⟩

/-- **A call that is made again** finds its own record. -/
lemma Settled.again (h : Settled ⟨s, live, c :: rest, writers, n⟩) :
    Settled ⟨s.enter.2, live ++ [c], rest, writers, n⟩ ∧ s.enter.1 = c.entry
      ∧ writers s.depth = some c.number := by
  obtain ⟨hd, ⟨hroom, hle⟩, hentry, hwriter, habove, hsaved⟩ := h
  simp only at hd hroom hle hentry hwriter habove hsaved
  obtain ⟨htold, hroom', hle'⟩ := FrameStack.enter_of_room hroom hle
  have hall : live ++ [c] ++ rest = live ++ c :: rest := by simp
  have hown : (live ++ c :: rest)[s.depth]? = some c := by simp [hd]
  have hnz := hsaved c List.mem_cons_self
  refine ⟨⟨by simp [s.depth_enter, hd], ⟨hroom', by rw [s.depth_enter]; exact hle'⟩, ?_, ?_, ?_,
    fun x hx => hsaved x (List.mem_cons_of_mem c hx)⟩, htold.trans (hentry _ c hown),
    hwriter _ c hown hnz⟩
  · intro i x hx
    rw [hall] at hx
    rw [s.recordAt_enter]
    exact hentry i x hx
  · intro i x hx
    rw [hall] at hx
    exact hwriter i x hx
  · intro i hi
    rw [hall] at hi
    rw [s.recordAt_enter]
    exact habove i hi

/-- **One step, unless a call is refused**: every record still belongs to the activation at its depth, and
whoever is entered is told what is its own. -/
lemma Settled.step {a b : Nest} {e : Event} (h : Settled a) (hstep : Step a e b)
    (he : e ≠ .refused) : Settled b ∧ e.Fair := by
  cases hstep with
  | call _ =>
      obtain ⟨hb, hzero⟩ := h.call
      exact ⟨hb, fun _ => hzero, by simp, fun hne => absurd hzero hne⟩
  | save _ hpush => exact ⟨h.save hpush, trivial⟩
  | access hop => exact ⟨h.access hop, trivial⟩
  | leave => exact ⟨h.leave, trivial⟩
  | suspend hsaved => exact ⟨h.suspend hsaved, trivial⟩
  | again =>
      obtain ⟨hb, hmine, hwriter⟩ := h.again
      exact ⟨hb, by simp, fun _ => hmine, fun _ => ⟨rfl, hwriter⟩⟩
  | refuse => exact absurd rfl he

/-- **A whole run, unless a call is refused.** -/
lemma Settled.run {a b : Nest} {es : List Event} (h : Settled a) (hrun : Run a es b)
    (hes : Event.refused ∉ es) : Settled b ∧ ∀ e ∈ es, e.Fair := by
  induction hrun with
  | refl => exact ⟨h, by simp⟩
  | tail hrun hstep ih =>
      next b c es e =>
      have hmem : Event.refused ∉ es := fun hm => hes (List.mem_append_left _ hm)
      obtain ⟨hb, hfair⟩ := ih hmem
      obtain ⟨hc, he⟩ := hb.step hstep fun heq => hes (by simp [heq])
      refine ⟨hc, fun x hx => ?_⟩
      rcases List.mem_append.mp hx with hx | hx
      · exact hfair x hx
      · rw [List.mem_singleton.mp hx]
        exact he

/-- **No activation is told the entry of another one**, as long as every call that is made again gets as
far as entering its record. -/
theorem run_fair {size : Int} {s : FrameStack Value} (hs : FrameStack.ofSize? size = some s)
    {nest : Nest} {es : List Event} (hrun : Run { stack := s } es nest)
    (hes : Event.refused ∉ es) : ∀ e ∈ es, e.Fair :=
  ((Settled.start hs).run hrun hes).2

/-- An activation that has no slots saves an entry. -/
lemma Step.saveEntry {s : FrameStack Value} {live : List Call} {c : Call} {writers : Nat → Option Nat}
    {n : Nat} (entry : Int) (hentry : 0 < entry) (hpush : (s.push entry 0 0).1 = true) :
    Step ⟨s, live ++ [c], [], writers, n⟩ .silent ⟨(s.push entry 0 0).2,
      live ++ [⟨c.number, entry⟩], [], Function.update writers (s.depth - 1) (some c.number), n⟩ :=
  .save hentry (Prod.ext hpush rfl)

/-- The theorem at a call that is suspended and made again: it is told the entry that it saved. -/
theorem resumed_fair :
    ∃ nest, Run { stack := {} } [.entered ⟨0, 0⟩ false 0 none, .silent, .silent,
        .entered ⟨0, 1⟩ true 1 (some 0)] nest
      ∧ ∀ e ∈ ([.entered ⟨0, 0⟩ false 0 none, .silent, .silent,
          .entered ⟨0, 1⟩ true 1 (some 0)] : List Event), e.Fair := by
  have hcall : Step { stack := {} } (.entered ⟨0, 0⟩ false 0 none) _ := .call (by simp)
  have hrun := (((Run.refl.tail hcall).tail (.saveEntry 1 (by decide) rfl)).tail
    (.suspend (by simp))).tail .again
  have hstart : FrameStack.ofSize? 0 = some ({} : FrameStack Value) := rfl
  exact ⟨_, hrun, run_fair hstart hrun (by simp)⟩

/-- **A call that is refused leaves its record behind.**  An activation suspends in a call; the call is
made again and refused; the activation saves another entry, calls another method, and that one is told
the entry of the call that was refused. -/
theorem run_not_fair :
    ¬ ∀ (es : List Event) (nest : Nest), Run { stack := {} } es nest → ∀ e ∈ es, e.Fair := by
  intro h
  have hcall : Step { stack := {} } (.entered ⟨0, 0⟩ false 0 none) _ := .call (by simp)
  -- the outer activation saves entry 1 and calls; the inner one saves entry 1 and suspends
  have hsaved := (Run.refl.tail hcall).tail (.saveEntry 1 (by decide) rfl)
  have hinner := (hsaved.tail (.call (by simp))).tail (.saveEntry 1 (by decide) rfl)
  -- the outer one is entered again, and its call is refused; it saves entry 2 and calls
  have hrefused := ((hinner.tail (.suspend (by simp))).tail .again).tail .refuse
  have hlast := (hrefused.tail (.saveEntry 2 (by decide) rfl)).tail (.call (by simp))
  have hfair := h _ _ hlast _ (List.mem_append_right _ (List.mem_singleton.mpr rfl))
  exact absurd (hfair.1 rfl) (by decide)

end Nest

end Suspension
