import Mathlib.Data.Nat.Find
import Mathlib.Logic.Function.Basic
import Mathlib.Tactic.Common
import Suspension.FrameStack

/-!
# A frame stack is an unbounded array of records

A frame stack makes room for its records by doubling, and records above the current depth stay where they
are until an activation takes them over again.  None of this can be told from its answers: a stack of any
initial size answers like a **ledger**, an array of records without end, together with a depth.

* `Ledger`, `Ledger.apply` — the ledger and its operations.
* `FrameStack.Shows` — a stack shows a ledger; `FrameStack.Shows.apply` — one operation.
* `Content`, `Ledger.Leaves` — the values that slots hold, and operations that leave a slot alone.
* `Ledger.apply_get` — what is fetched from a slot is what was stored there last.
* `FrameStack.answers_eq` — all operations, on stacks of any two sizes.

Only what does not fit into storage at all makes a difference: there is no stack of such a size, and a push
of so many slots fails.
-/

namespace Suspension

/-! ## Ledgers -/

/-- **An unbounded array of records**, of which finitely many have an entry, and a depth. -/
structure Ledger (α : Type) where
  record : Nat → FrameRecord α := fun _ => .empty
  depth : Nat := 0
  bounded : ∃ n, ∀ i, n ≤ i → (record i).entry = 0 := by exact ⟨0, fun _ _ => rfl⟩

namespace Ledger

variable {α : Type}

open FrameStack (Op Answer)

/-- The ledger with the record at one place exchanged. -/
def set (m : Ledger α) (i : Nat) (r : FrameRecord α) : Ledger α where
  record := Function.update m.record i r
  depth := m.depth
  bounded := by
    obtain ⟨n, hn⟩ := m.bounded
    refine ⟨max n (i + 1), fun j hj => ?_⟩
    rw [Function.update_of_ne (by omega)]
    exact hn j (by omega)

/-- The place of the current record. -/
def current? (m : Ledger α) : Option Nat :=
  match m.depth with
  | 0 => none
  | i + 1 => some i

/-- **An activation is entered**: the entry that its record holds. -/
def enter (m : Ledger α) : Answer α × Ledger α :=
  (.entry (m.record m.depth).entry, { m with depth := m.depth + 1 })

/-- **A pop** empties the current record and leaves it. -/
def pop (m : Ledger α) : Ledger α :=
  match m.current? with
  | none => m
  | some i => { m.set i .empty with depth := i }

/-- **A store** changes one slot of the current record. -/
def store (m : Ledger α) (size : FrameRecord α → Nat) (slot : Int)
    (put : Nat → FrameRecord α → FrameRecord α) : Answer α × Ledger α :=
  match m.current? with
  | none => (.misuse, m)
  | some i =>
    if 0 ≤ slot ∧ slot < size (m.record i) then (.done, m.set i (put slot.toNat (m.record i)))
    else (.misuse, m)

/-- A reference stored in a slot. -/
def storeObject (m : Ledger α) (slot : Int) (v : α) : Answer α × Ledger α :=
  m.store (·.objects.size) slot fun i r => { r with objects := r.objects.set! i v }

/-- Bits stored in a slot. -/
def storePrim (m : Ledger α) (slot : Int) (bits : UInt64) : Answer α × Ledger α :=
  m.store (·.prims.size) slot fun i r => { r with prims := r.prims.set! i bits }

/-- **A load** looks at one slot of the current record. -/
def load {β : Type} (m : Ledger α) (slots : FrameRecord α → Array β) (slot : Int)
    (answer : β → Answer α) : Answer α :=
  match m.current? with
  | none => .misuse
  | some i => if slot < 0 then .misuse else ((slots (m.record i))[slot.toNat]?.map answer).getD .misuse

/-- The first record without an entry. -/
noncomputable def saved (m : Ledger α) : Nat := by
  classical
  exact Nat.find (p := fun n => (m.record n).entry = 0) (m.bounded.imp fun n hn => hn n (Nat.le_refl n))

/-- **The saved activations**: all records in front of the first without an entry. -/
noncomputable def frames (m : Ledger α) : List (FrameRecord α) := (List.range m.saved).map m.record

variable {m : Ledger α} {d i : Nat}

lemma current?_eq_some : m.current? = some i ↔ m.depth = i + 1 := by
  unfold current?
  split
  · next h => simp [h]
  · next j h => simp [h, eq_comm]

lemma record_set_self (m : Ledger α) (i : Nat) (r : FrameRecord α) : (m.set i r).record i = r :=
  Function.update_self ..

lemma record_set_of_ne (r : FrameRecord α) (h : d ≠ i) : (m.set i r).record d = m.record d :=
  Function.update_of_ne h ..

/-- **The records in front of the first without an entry** have one. -/
lemma saved_spec (m : Ledger α) :
    (m.record m.saved).entry = 0 ∧ ∀ i < m.saved, (m.record i).entry ≠ 0 := by
  classical
  have hex : ∃ n, (m.record n).entry = 0 := m.bounded.imp fun n hn => hn n (Nat.le_refl n)
  exact ⟨Nat.find_spec hex, fun i hi => Nat.find_min hex hi⟩

/-- What a store comes to: nothing is stored, or one slot of the current record is exchanged. -/
lemma store_cases (m : Ledger α) (size : FrameRecord α → Nat) (slot : Int)
    (put : Nat → FrameRecord α → FrameRecord α) :
    m.store size slot put = (.misuse, m) ∨
      ∃ i k : Nat, m.depth = i + 1 ∧ slot = k ∧ k < size (m.record i)
        ∧ m.store size slot put = (.done, m.set i (put k (m.record i))) := by
  unfold store
  split
  · exact Or.inl rfl
  · next i hi =>
      rw [current?_eq_some] at hi
      split
      · next hslot =>
          exact Or.inr ⟨i, slot.toNat, hi, by omega, by omega, rfl⟩
      · exact Or.inl rfl

/-- A load that finds something. -/
lemma load_of_some {β : Type} {slots : FrameRecord α → Array β} {answer : β → Answer α} {k : Nat} {x : β}
    (hd : m.depth = d + 1) (hx : (slots (m.record d))[k]? = some x) :
    m.load slots k answer = answer x := by
  have hk : ¬ (k : Int) < 0 := by omega
  simp [load, current?_eq_some.mpr hd, hk, hx]

/-! ## Operations -/

variable [Inhabited α]

/-- **A push** sets the entry and zeroes the slots that it asks for, up to the number that storage does not
hold. -/
def push (m : Ledger α) (entry objects prims : Int) : Answer α × Ledger α :=
  match m.current? with
  | none => (.misuse, m)
  | some i =>
    if FrameStack.fits FrameStack.objectWidth objects = false then
      (.misuse, m.set i { m.record i with entry })
    else if FrameStack.fits FrameStack.primWidth prims = false then
      (.misuse, m.set i { m.record i with entry, objects := Array.replicate objects.toNat default })
    else
      (.done, m.set i ⟨entry, Array.replicate objects.toNat default, Array.replicate prims.toNat 0⟩)

/-- **One operation** on a ledger. -/
noncomputable def apply (m : Ledger α) : Op α → Answer α × Ledger α
  | .enter => m.enter
  | .push e o p => m.push e o p
  | .pop => (.done, m.pop)
  | .rewind => (.done, { m with depth := 0 })
  | .depth => (.depth m.depth, m)
  | .frames => (.frames m.frames, m)
  | .setObject i v => m.storeObject i v
  | .setInt i v => m.storePrim i (PrimSlot.ofInt v)
  | .setLong i v => m.storePrim i (PrimSlot.ofLong v)
  | .setFloat i b => m.storePrim i (PrimSlot.ofFloat b)
  | .setDouble i b => m.storePrim i b
  | .object i => (m.load (·.objects) i .object, m)
  | .int i => (m.load (·.prims) i fun b => .int (PrimSlot.toInt b), m)
  | .long i => (m.load (·.prims) i fun b => .long (PrimSlot.toLong b), m)
  | .float i => (m.load (·.prims) i fun b => .float (PrimSlot.toFloat b), m)
  | .double i => (m.load (·.prims) i .double, m)

/-- The ledger behind some operations. -/
noncomputable def after (m : Ledger α) (ops : List (Op α)) : Ledger α :=
  ops.foldl (fun m op => (m.apply op).2) m

/-- The answers to some operations. -/
noncomputable def answers (m : Ledger α) : List (Op α) → List (Answer α)
  | [] => []
  | op :: ops => (m.apply op).1 :: answers (m.apply op).2 ops

end Ledger

/-! ## Slots keep what is stored in them -/

/-- **What a slot can hold**, with its type. -/
inductive Content (α : Type) where
  | object (v : α)
  | int (v : Int32)
  | long (v : Int64)
  | float (bits : UInt32)
  | double (bits : UInt64)

namespace Content

variable {α : Type}

open FrameStack (Op Answer)

/-- The operation that stores a content. -/
def put (slot : Int) : Content α → Op α
  | object v => .setObject slot v
  | int v => .setInt slot v
  | long v => .setLong slot v
  | float b => .setFloat slot b
  | double b => .setDouble slot b

/-- The operation that fetches a content of the same type. -/
def get (slot : Int) : Content α → Op α
  | object _ => .object slot
  | int _ => .int slot
  | long _ => .long slot
  | float _ => .float slot
  | double _ => .double slot

/-- The answer that is the content. -/
def answer : Content α → Answer α
  | object v => .object v
  | int v => .int v
  | long v => .long v
  | float b => .float b
  | double b => .double b

/-- Whether the content is kept among the objects. -/
def isObject : Content α → Bool
  | object _ => true
  | _ => false

/-- **A slot of a record holds a content.** -/
def Within (r : FrameRecord α) (k : Nat) : Content α → Prop
  | object v => r.objects[k]? = some v
  | int v => r.prims[k]? = some (PrimSlot.ofInt v)
  | long v => r.prims[k]? = some (PrimSlot.ofLong v)
  | float b => r.prims[k]? = some (PrimSlot.ofFloat b)
  | double b => r.prims[k]? = some b

end Content

namespace Ledger

variable {α : Type} {m : Ledger α} {c : Content α} {d k : Nat}

open FrameStack (Op Answer)

/-- **An operation leaves a slot alone**: it neither pushes nor pops its record, nor stores to it. -/
def Leaves (m : Ledger α) (d : Nat) (object : Bool) (k : Nat) (op : Op α) : Prop :=
  m.depth = d + 1 → match op with
    | .push _ _ _ | .pop => False
    | .setObject i _ => object = true → i ≠ k
    | .setInt i _ | .setLong i _ | .setFloat i _ | .setDouble i _ => object = false → i ≠ k
    | _ => True

/-- Another record is exchanged. -/
lemma within_set (hc : c.Within (m.record d) k) {i : Nat} {r : FrameRecord α}
    (hr : d = i → c.Within r k) : c.Within ((m.set i r).record d) k := by
  by_cases hi : d = i
  · subst hi
    rw [record_set_self]
    exact hr rfl
  · rw [record_set_of_ne r hi]
    exact hc

variable [Inhabited α]

/-- All operations of a run leave a slot alone. -/
def AllLeave (m : Ledger α) (d : Nat) (object : Bool) (k : Nat) : List (Op α) → Prop
  | [] => True
  | op :: ops => m.Leaves d object k op ∧ AllLeave (m.apply op).2 d object k ops

/-- **One operation** that leaves a slot alone leaves its content there. -/
lemma within_apply (hc : c.Within (m.record d) k) {op : Op α} (hop : m.Leaves d c.isObject k op) :
    c.Within ((m.apply op).2.record d) k := by
  -- a store to another slot of the record
  have hobject : ∀ (slot : Int) (v : α), (m.depth = d + 1 → c.isObject = true → slot ≠ k) →
      c.Within ((m.storeObject slot v).2.record d) k := by
    intro slot v hne
    rcases m.store_cases (·.objects.size) slot fun i r => { r with objects := r.objects.set! i v }
      with h | ⟨i, j, hd, rfl, -, h⟩
    · rw [storeObject, h]
      exact hc
    · rw [storeObject, h]
      refine within_set hc ?_
      rintro rfl
      cases c with
      | object w =>
          have hjk : j ≠ k := by exact_mod_cast hne hd rfl
          simpa [Content.Within, Array.getElem?_setIfInBounds_ne hjk] using hc
      | _ => exact hc
  have hprim : ∀ (slot : Int) (b : UInt64), (m.depth = d + 1 → c.isObject = false → slot ≠ k) →
      c.Within ((m.storePrim slot b).2.record d) k := by
    intro slot b hne
    rcases m.store_cases (·.prims.size) slot fun i r => { r with prims := r.prims.set! i b }
      with h | ⟨i, j, hd, rfl, -, h⟩
    · rw [storePrim, h]
      exact hc
    · rw [storePrim, h]
      refine within_set hc ?_
      rintro rfl
      cases c with
      | object w => exact hc
      | _ =>
          have hjk : j ≠ k := by exact_mod_cast hne hd rfl
          simpa [Content.Within, Array.getElem?_setIfInBounds_ne hjk] using hc
  have hpushed : ∀ {i : Nat}, m.current? = some i → d ≠ i →
      ∀ r, c.Within ((m.set i r).record d) k :=
    fun _ hne r => within_set hc fun h => absurd h hne
  cases op with
  | push e o p =>
      cases hi : m.current? with
      | none => simpa [apply, push, hi] using hc
      | some i =>
          have hne : d ≠ i := by
            rintro rfl
            exact hop (current?_eq_some.mp hi)
          simp only [apply, push, hi]
          split
          · exact hpushed hi hne _
          · split
            · exact hpushed hi hne _
            · exact hpushed hi hne _
  | pop =>
      cases hi : m.current? with
      | none => simpa [apply, pop, hi] using hc
      | some i =>
          have hne : d ≠ i := by
            rintro rfl
            exact hop (current?_eq_some.mp hi)
          simp only [apply, pop, hi]
          exact hpushed hi hne _
  | setObject i v => exact hobject i v hop
  | setInt i v | setLong i v | setFloat i v | setDouble i v => exact hprim i _ hop
  | _ => exact hc

/-- **A run** that leaves a slot alone leaves its content there. -/
lemma within_after {ops : List (Op α)} (hc : c.Within (m.record d) k)
    (hops : m.AllLeave d c.isObject k ops) : c.Within ((m.after ops).record d) k := by
  induction ops generalizing m with
  | nil => exact hc
  | cons op ops ih => exact ih (within_apply hc hops.1) hops.2

/-- **What is stored is there.** -/
lemma within_put (hd : m.depth = d + 1) (hdone : (m.apply (c.put k)).1 = .done) :
    c.Within ((m.apply (c.put k)).2.record d) k := by
  have hobject : ∀ v : α, (m.storeObject k v).1 = .done →
      ((m.storeObject k v).2.record d).objects[k]? = some v := by
    intro v hdone
    rcases m.store_cases (·.objects.size) k fun i r => { r with objects := r.objects.set! i v }
      with h | ⟨i, j, hi, hj, hlt, h⟩
    · rw [storeObject, h] at hdone
      cases hdone
    · obtain rfl : i = d := by omega
      obtain rfl : k = j := by omega
      rw [storeObject, h, record_set_self]
      simp [hlt]
  have hprim : ∀ b : UInt64, (m.storePrim k b).1 = .done →
      ((m.storePrim k b).2.record d).prims[k]? = some b := by
    intro b hdone
    rcases m.store_cases (·.prims.size) k fun i r => { r with prims := r.prims.set! i b }
      with h | ⟨i, j, hi, hj, hlt, h⟩
    · rw [storePrim, h] at hdone
      cases hdone
    · obtain rfl : i = d := by omega
      obtain rfl : k = j := by omega
      rw [storePrim, h, record_set_self]
      simp [hlt]
  cases c with
  | object v => exact hobject v hdone
  | int v | long v | float v | double v => exact hprim _ hdone

/-- **What is there is fetched**, bit by bit as it was stored. -/
lemma apply_get_of_within (hd : m.depth = d + 1) (hc : c.Within (m.record d) k) :
    (m.apply (c.get k)).1 = c.answer := by
  cases c with
  | object v => exact load_of_some hd hc
  | int v =>
      refine (load_of_some hd hc).trans ?_
      simp [PrimSlot.toInt, PrimSlot.ofInt, Content.answer]
  | long v =>
      refine (load_of_some hd hc).trans ?_
      simp [PrimSlot.toLong, PrimSlot.ofLong, Content.answer]
  | float b =>
      refine (load_of_some hd hc).trans ?_
      simp [PrimSlot.toFloat, PrimSlot.ofFloat, Content.answer]
  | double b => exact load_of_some hd hc

/-- **A slot holds the last value stored in it**: what has been stored is fetched again when the depth is
the same, whatever other activations have done, and whether or not the stack was rewound in between. -/
theorem apply_get {ops : List (Op α)} (hd : m.depth = d + 1) (hdone : (m.apply (c.put k)).1 = .done)
    (hops : (m.apply (c.put k)).2.AllLeave d c.isObject k ops)
    (hd' : ((m.apply (c.put k)).2.after ops).depth = d + 1) :
    (((m.apply (c.put k)).2.after ops).apply (c.get k)).1 = c.answer :=
  apply_get_of_within hd' (within_after (within_put hd hdone) hops)

end Ledger

/-! ## Stacks show ledgers -/

namespace FrameStack

variable {α : Type} {s : FrameStack α} {m : Ledger α}

/-- **A stack shows a ledger**: it has the same depth and the same records, those that have never been
written included, and room for the activations that have been entered. -/
structure Shows (s : FrameStack α) (m : Ledger α) : Prop where
  depth : s.depth = m.depth
  room : s.depth ≤ s.room
  pos : 0 < s.room
  record : ∀ i, s.records.getD i .empty = m.record i

/-- A record is exchanged, and no other one changes. -/
lemma getD_put (records : Array (FrameRecord α)) (i j : Nat) (r : FrameRecord α) :
    (put records i r).getD j .empty = if j = i then r else records.getD j .empty := by
  have hlt : i < (records ++ Array.replicate (i + 1 - records.size) FrameRecord.empty).size := by
    simp only [Array.size_append, Array.size_replicate]
    omega
  rw [put, Array.getD_eq_getD_getElem?, Array.getD_eq_getD_getElem?, Array.set!_eq_setIfInBounds]
  by_cases hji : j = i
  · subst hji
    rw [Array.getElem?_setIfInBounds_self_of_lt hlt, if_pos rfl]
    rfl
  · rw [Array.getElem?_setIfInBounds_ne (Ne.symm hji), if_neg hji, Array.getElem?_append,
      Array.getElem?_replicate]
    by_cases hj : j < records.size
    · rw [if_pos hj]
    · rw [if_neg hj, Array.getElem?_eq_none (Nat.le_of_not_lt hj)]
      split <;> rfl

/-- The records up to the first without an entry, if there is an empty one behind all. -/
lemma takeWhile_eq {l : List (FrameRecord α)} {f : Nat → FrameRecord α} {n : Nat}
    (hf : ∀ i, l.getD i .empty = f i) (hn : (f n).entry = 0) (hlt : ∀ i < n, (f i).entry ≠ 0) :
    l.takeWhile (·.entry != 0) = (List.range n).map f := by
  induction l generalizing f n with
  | nil =>
      have hzero : n = 0 := by
        by_contra hne
        refine hlt 0 (by omega) ?_
        rw [← hf 0]
        rfl
      simp [hzero]
  | cons r l ih =>
      have hr : r = f 0 := hf 0
      cases n with
      | zero => simp [hr, hn]
      | succ n =>
          have hentry : (r.entry != 0) = true := by simpa [hr] using hlt 0 (by omega)
          have hrest := ih (f := f ∘ Nat.succ) (fun i => hf (i + 1)) hn fun i hi => hlt (i + 1) (by omega)
          rw [List.takeWhile_cons, if_pos hentry, hrest, List.range_succ_eq_map, List.map_cons,
            List.map_map, hr]

namespace Shows

lemma current (h : s.Shows m) : s.current? = m.current?.map m.record := by
  have hroom := h.room
  have hdepth := h.depth
  unfold current? Ledger.current?
  cases hd : m.depth with
  | zero => simp only [hdepth, hd, Option.map_none]
  | succ n =>
      have hlt : n < s.room := by omega
      simp only [hdepth, hd, record?, if_pos hlt, h.record n, Option.map_some]

lemma setCurrent (h : s.Shows m) {i : Nat} (hi : m.current? = some i) (r : FrameRecord α) :
    (s.setCurrent r).Shows (m.set i r) where
  depth := h.depth
  room := h.room
  pos := h.pos
  record := by
    intro j
    have hdepth := Ledger.current?_eq_some.mp hi
    have hplace : s.depth - 1 = i := by
      rw [h.depth]
      omega
    change (put s.records (s.depth - 1) r).getD j .empty = _
    rw [hplace, getD_put]
    split
    · next hj => rw [hj, Ledger.record_set_self]
    · next hj => rw [Ledger.record_set_of_ne r hj, h.record j]

lemma frames (h : s.Shows m) : s.frames = m.frames := by
  obtain ⟨hzero, hlt⟩ := m.saved_spec
  refine takeWhile_eq (fun i => ?_) hzero hlt
  rw [← h.record i, Array.getD_eq_getD_getElem?, List.getD_eq_getElem?_getD, Array.getElem?_toList]

/-- **Entering** makes room where there is none. -/
lemma enter (h : s.Shows m) : s.enter.1 = (m.record m.depth).entry
    ∧ s.enter.2.Shows { m with depth := m.depth + 1 } := by
  have hroom := h.room
  have hpos := h.pos
  have hgrow : s.grow.depth = s.depth ∧ s.grow.records = s.records ∧ s.depth < s.grow.room := by
    unfold grow
    split
    · next hlt => exact ⟨rfl, rfl, hlt⟩
    · exact ⟨rfl, rfl, by dsimp only; omega⟩
  obtain ⟨hdepth, hrecords, hlt⟩ := hgrow
  constructor
  · simp only [FrameStack.enter, record?, hdepth, hrecords, if_pos hlt, h.record]
    rw [h.depth]
    rfl
  · refine ⟨?_, ?_, by simp only [FrameStack.enter]; omega, fun i => ?_⟩
    · simp only [FrameStack.enter, hdepth, h.depth]
    · simp only [FrameStack.enter, hdepth]
      omega
    · simp only [FrameStack.enter, hrecords]
      exact h.record i

lemma pop (h : s.Shows m) : s.pop.Shows m.pop := by
  unfold FrameStack.pop Ledger.pop
  cases hi : m.current? with
  | none =>
      have hzero : s.depth = 0 := by
        rw [h.depth]
        by_contra hne
        obtain ⟨i, hd⟩ := Nat.exists_eq_succ_of_ne_zero hne
        rw [Ledger.current?_eq_some.mpr hd] at hi
        cases hi
      simpa [hzero] using h
  | some i =>
      have hdepth := Ledger.current?_eq_some.mp hi
      have hroom := h.room
      have hshows := h.setCurrent hi .empty
      have hs := h.depth
      rw [if_neg (by rw [h.depth, hdepth]; simp)]
      exact ⟨by simp only; omega, by simp only; change s.depth - 1 ≤ s.room; omega, h.pos, hshows.record⟩

/-- **A store**, of whatever type. -/
lemma stored (h : s.Shows m) (size : FrameRecord α → Nat) {slot : Int}
    {put : Nat → FrameRecord α → FrameRecord α} {out : Option (FrameStack α)}
    (hout : out = s.current?.bind fun r => (slot? (size r) slot).map fun i => s.setCurrent (put i r)) :
    (FrameStack.stored s out).1 = (m.store size slot put).1
      ∧ (FrameStack.stored s out).2.Shows (m.store size slot put).2 := by
  subst hout
  rw [h.current]
  unfold Ledger.store
  cases hi : m.current? with
  | none => exact ⟨rfl, h⟩
  | some i =>
      simp only [Option.map_some, Option.bind_some, slot?]
      by_cases hslot : 0 ≤ slot ∧ slot < size (m.record i)
      · simp only [hslot, decide_true, Bool.and_self, if_true, and_self]
        exact ⟨rfl, h.setCurrent hi _⟩
      · have hno : (decide (0 ≤ slot) && decide (slot < (size (m.record i) : Int))) = false := by
          simpa [Bool.and_eq_false_iff, not_and_or] using hslot
        simp only [hno, if_neg hslot]
        exact ⟨rfl, h⟩

/-- **A load**, of whatever type. -/
lemma loaded (h : s.Shows m) {β : Type} {slots : FrameRecord α → Array β} {slot : Int}
    {answer : β → Answer α} {out : Option β}
    (hout : out = s.current?.bind fun r => (slot? (slots r).size slot).bind fun i => (slots r)[i]?) :
    FrameStack.loaded answer out = m.load slots slot answer := by
  subst hout
  rw [h.current]
  unfold Ledger.load
  cases hi : m.current? with
  | none => rfl
  | some i =>
      simp only [Option.map_some, Option.bind_some, slot?]
      by_cases hneg : slot < 0
      · have hno : decide (0 ≤ slot) = false := by simpa using hneg
        simp [hno, hneg, FrameStack.loaded]
      · obtain ⟨k, rfl⟩ := Int.eq_ofNat_of_zero_le (Int.not_lt.mp hneg)
        by_cases hk : k < (slots (m.record i)).size
        · simp [hneg, hk, FrameStack.loaded]
        · simp [hk, FrameStack.loaded]

variable [Inhabited α]

lemma push (h : s.Shows m) (e o p : Int) :
    (s.apply (.push e o p)).1 = (m.push e o p).1 ∧ (s.apply (.push e o p)).2.Shows (m.push e o p).2 := by
  simp only [FrameStack.apply, FrameStack.push, Ledger.push, h.current]
  cases hi : m.current? with
  | none => exact ⟨rfl, h⟩
  | some i =>
      simp only [Option.map_some]
      cases fits objectWidth o with
      | false => exact ⟨rfl, h.setCurrent hi _⟩
      | true =>
          cases fits primWidth p with
          | false => exact ⟨rfl, h.setCurrent hi _⟩
          | true => exact ⟨rfl, h.setCurrent hi _⟩

/-- **One operation** has the same answer on both, and the stack goes on showing the ledger. -/
lemma apply (h : s.Shows m) (op : Op α) :
    (s.apply op).1 = (m.apply op).1 ∧ (s.apply op).2.Shows (m.apply op).2 := by
  have hobject : ∀ slot v, s.setObject? slot v = s.current?.bind fun r =>
      (slot? r.objects.size slot).map fun i => s.setCurrent { r with objects := r.objects.set! i v } := by
    intro slot v
    unfold setObject?
    cases s.current? with
    | none => rfl
    | some r => cases hs : slot? r.objects.size slot <;> simp [hs]
  have hprim : ∀ slot b, s.setPrim? slot b = s.current?.bind fun r =>
      (slot? r.prims.size slot).map fun i => s.setCurrent { r with prims := r.prims.set! i b } := by
    intro slot b
    unfold setPrim?
    cases s.current? with
    | none => rfl
    | some r => cases hs : slot? r.prims.size slot <;> simp [hs]
  cases op with
  | enter =>
      obtain ⟨hentry, hshows⟩ := h.enter
      exact ⟨congrArg Answer.entry hentry, hshows⟩
  | push e o p => exact h.push e o p
  | pop => exact ⟨rfl, h.pop⟩
  | rewind => exact ⟨rfl, ⟨rfl, Nat.zero_le _, h.pos, h.record⟩⟩
  | depth => exact ⟨congrArg Answer.depth h.depth, h⟩
  | frames => exact ⟨congrArg Answer.frames h.frames, h⟩
  | setObject slot v => exact h.stored (·.objects.size) (hobject slot v)
  | setInt slot v | setLong slot v | setFloat slot v | setDouble slot v =>
      exact h.stored (·.prims.size) (hprim slot _)
  | object slot => exact ⟨h.loaded rfl, h⟩
  | int slot | long slot | float slot | double slot => exact ⟨h.loaded rfl, h⟩

end Shows

/-- A new stack shows a ledger without entries. -/
lemma shows_ofSize? {n : Int} (h : ofSize? n = some s) : s.Shows {} := by
  unfold ofSize? at h
  split at h
  · cases h
    exact ⟨rfl, Nat.zero_le _, Nat.zero_lt_succ _, fun _ => rfl⟩
  · next hn =>
      split at h
      · cases h
        exact ⟨rfl, Nat.zero_le _, by dsimp only; omega, fun _ => rfl⟩
      · cases h

variable [Inhabited α]

/-- The answers to some operations. -/
def answers (s : FrameStack α) : List (Op α) → List (Answer α)
  | [] => []
  | op :: ops => (s.apply op).1 :: answers (s.apply op).2 ops

/-- **A stack answers like the ledger that it shows.** -/
lemma Shows.answers (h : s.Shows m) (ops : List (Op α)) : s.answers ops = m.answers ops := by
  induction ops generalizing s m with
  | nil => rfl
  | cons op ops ih =>
      obtain ⟨hanswer, hshows⟩ := h.apply op
      simp only [FrameStack.answers, Ledger.answers, hanswer, ih hshows]

/-- **The initial size of a stack cannot be told**, as far as there is a stack of that size.  Whatever is
done with them, two stacks answer alike, and like a ledger; and there a slot holds the value that was
stored in it last, bit by bit, as long as nobody pushes or pops its record. -/
theorem answers_eq {n₁ n₂ : Int} {s₁ s₂ : FrameStack α} (h₁ : ofSize? n₁ = some s₁)
    (h₂ : ofSize? n₂ = some s₂) :
    (∀ ops : List (Op α), s₁.answers ops = s₂.answers ops ∧ s₁.answers ops = Ledger.answers {} ops)
      ∧ ∀ (m : Ledger α) (c : Content α) (d k : Nat) (ops : List (Op α)), m.depth = d + 1 →
          (m.apply (c.put k)).1 = .done → (m.apply (c.put k)).2.AllLeave d c.isObject k ops →
          ((m.apply (c.put k)).2.after ops).depth = d + 1 →
          (((m.apply (c.put k)).2.after ops).apply (c.get k)).1 = c.answer := by
  refine ⟨fun ops => ?_, fun m c d k ops => Ledger.apply_get⟩
  have hs₁ := (shows_ofSize? h₁).answers ops
  have hs₂ := (shows_ofSize? h₂).answers ops
  exact ⟨hs₁.trans hs₂.symm, hs₁⟩

/-- A run that needs more room than a stack of size 1 has, is rewound and goes on. -/
def regrown : List (Op Nat) :=
  [.enter, .push 1 1 1, .setObject 0 7, .setFloat 0 0x7fa00000, .enter, .push 2 0 0, .enter, .rewind,
    .enter, .object 0, .float 0, .object 1, .frames]

/-- The theorem at this run, on a stack of size 1 and on one of the default size. -/
theorem regrown_answers_eq : ∃ s₁ s₂ : FrameStack Nat, ofSize? 1 = some s₁ ∧ ofSize? (-1) = some s₂
    ∧ s₁.answers regrown = s₂.answers regrown ∧ s₁.answers regrown = Ledger.answers {} regrown
    ∧ s₁.answers regrown = [.entry 0, .done, .done, .done, .entry 0, .done, .entry 0, .done, .entry 1,
        .object 7, .float 0x7fa00000, .misuse, .frames [⟨1, #[7], #[0x7fa00000]⟩, ⟨2, #[], #[]⟩]] := by
  obtain ⟨s₁, h₁⟩ : ∃ s : FrameStack Nat, ofSize? 1 = some s := ⟨_, rfl⟩
  obtain ⟨s₂, h₂⟩ : ∃ s : FrameStack Nat, ofSize? (-1) = some s := ⟨_, rfl⟩
  have hanswers := (answers_eq h₁ h₂).1 regrown
  refine ⟨s₁, s₂, h₁, h₂, hanswers.1, hanswers.2, ?_⟩
  cases h₁
  decide +kernel

/-- **Storage is limited**: there is no stack of 2^60 records, and a push of so many slots fails when it has
set the entry. -/
theorem storage_limited : (ofSize? 1152921504606846976 : Option (FrameStack Nat)) = none
    ∧ ∃ s : FrameStack Nat, ofSize? 1 = some s
      ∧ s.answers [.enter, .push 3 1152921504606846976 0, .frames]
        = [.entry 0, .misuse, .frames [⟨3, #[], #[]⟩]] :=
  ⟨by decide +kernel, _, rfl, by decide +kernel⟩

end FrameStack

end Suspension
