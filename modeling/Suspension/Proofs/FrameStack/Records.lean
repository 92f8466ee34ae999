import Mathlib.Tactic.Common
import Suspension.Machine.Native

/-!
# The record of an activation

What the operations of a frame stack do to **one record**.  Entering an activation changes none;
pushing gives the current record its entry and fresh slots; a slot that is stored changes no entry and
no size, and is fetched again as it was stored; popping empties the record.

* `FrameStack.recordAt` — the record at a depth.
* `FrameRecord.store`, `FrameRecord.fetch` — a slot of a record, `FrameRecord.fetch_store_self`.
* `FrameStack.saved_eq`, `FrameStack.fetched_eq` — the operations on slots.
-/

namespace Suspension

/-! ## Slots -/

namespace FrameRecord

/-- The bits of a number. -/
def bitsOf : Value → UInt64
  | .int x => PrimSlot.ofInt x
  | .long x => PrimSlot.ofLong x
  | .float b => PrimSlot.ofFloat b
  | .double b => b
  | _ => 0

/-- **A record with a value stored in a slot**, among its objects or among its primitives. -/
def store (r : FrameRecord Value) (k : Kind) (i : Nat) (v : Value) : FrameRecord Value :=
  match k with
  | .ref => { r with objects := r.objects.set! i v }
  | _ => { r with prims := r.prims.set! i (bitsOf v) }

/-- The number of slots for values of a kind. -/
def room (r : FrameRecord Value) : Kind → Nat
  | .ref => r.objects.size
  | _ => r.prims.size

/-- **The value that a slot is fetched as.** -/
def fetch (r : FrameRecord Value) (k : Kind) (i : Nat) : Option Value :=
  match k with
  | .ref => r.objects[i]?
  | .int => r.prims[i]?.map fun b => .int (PrimSlot.toInt b)
  | .long => r.prims[i]?.map fun b => .long (PrimSlot.toLong b)
  | .float => r.prims[i]?.map fun b => .float (PrimSlot.toFloat b)
  | .double => r.prims[i]?.map fun b => .double b

variable (r : FrameRecord Value)

@[simp] lemma entry_store (k : Kind) (i : Nat) (v : Value) : (r.store k i v).entry = r.entry := by
  cases k <;> rfl

@[simp] lemma size_objects_store (k : Kind) (i : Nat) (v : Value) :
    (r.store k i v).objects.size = r.objects.size := by
  cases k <;> simp [store]

@[simp] lemma size_prims_store (k : Kind) (i : Nat) (v : Value) :
    (r.store k i v).prims.size = r.prims.size := by
  cases k <;> simp [store]

@[simp] lemma room_store (k k' : Kind) (i : Nat) (v : Value) :
    (r.store k i v).room k' = r.room k' := by
  cases k' <;> simp [room]

lemma toInt_ofInt (x : Int32) : PrimSlot.toInt (PrimSlot.ofInt x) = x := by
  simp [PrimSlot.toInt, PrimSlot.ofInt]

lemma toFloat_ofFloat (b : UInt32) : PrimSlot.toFloat (PrimSlot.ofFloat b) = b := by
  simp [PrimSlot.toFloat, PrimSlot.ofFloat]

/-- **A stored value is fetched again as it was.** -/
lemma fetch_store_self {r : FrameRecord Value} {k : Kind} {i : Nat} {v : Value} (hv : v.kind = k)
    (hi : i < r.room k) : (r.store k i v).fetch k i = some v := by
  cases k with
  | ref =>
      simp only [room] at hi
      simp [store, fetch, hi]
  | int | long | float | double =>
      cases v <;> cases hv
      simp only [room] at hi
      simp [store, fetch, bitsOf, hi, toInt_ofInt, toFloat_ofFloat, PrimSlot.toLong, PrimSlot.ofLong]

/-- Another slot is not changed. -/
lemma fetch_store_of_ne {r : FrameRecord Value} {k k' : Kind} {i i' : Nat} {v : Value}
    (h : (k = .ref ↔ k' = .ref) → i' ≠ i) : (r.store k i v).fetch k' i' = r.fetch k' i' := by
  have hne : ∀ {α : Type} (xs : Array α) (x : α), i' ≠ i → (xs.setIfInBounds i x)[i']? = xs[i']? :=
    fun xs x hi => Array.getElem?_setIfInBounds_ne (Ne.symm hi)
  cases k <;> cases k' <;> simp [store, fetch] at h ⊢ <;> rw [hne _ _ h]

end FrameRecord

namespace FrameStack

/-- **The record at a depth**; one that has never been written is empty. -/
def recordAt (s : FrameStack Value) (i : Nat) : FrameRecord Value := s.records.getD i .empty

/-- The record of the current activation. -/
def topRecord (s : FrameStack Value) : FrameRecord Value := s.recordAt (s.depth - 1)

lemma getD_put_self (records : Array (FrameRecord Value)) (i : Nat) (r : FrameRecord Value) :
    (put records i r).getD i .empty = r := by
  have hlt : i < (put records i r).size := by
    simp only [put, Array.set!_eq_setIfInBounds, Array.size_setIfInBounds, Array.size_append,
      Array.size_replicate]
    omega
  rw [Array.getD_eq_getD_getElem?, Array.getElem?_eq_getElem hlt]
  simp [put]

variable {s s' : FrameStack Value}

@[simp] lemma depth_setCurrent (s : FrameStack Value) (r : FrameRecord Value) :
    (s.setCurrent r).depth = s.depth := rfl

@[simp] lemma room_setCurrent (s : FrameStack Value) (r : FrameRecord Value) :
    (s.setCurrent r).room = s.room := rfl

@[simp] lemma topRecord_setCurrent (s : FrameStack Value) (r : FrameRecord Value) :
    (s.setCurrent r).topRecord = r := getD_put_self _ _ _

/-- The current record is the one at the last depth. -/
lemma current?_eq_some {r : FrameRecord Value} (h : s.current? = some r) :
    r = s.topRecord ∧ 0 < s.depth := by
  unfold current? at h
  split at h
  · cases h
  · next n hn =>
      unfold record? at h
      split at h
      · cases h
        rw [topRecord, hn]
        exact ⟨rfl, by omega⟩
      · cases h

/-! ## The life of a record -/

lemma depth_enter (s : FrameStack Value) : s.enter.2.depth = s.depth + 1 := by
  unfold enter grow
  dsimp only
  split <;> rfl

lemma recordAt_enter (s : FrameStack Value) (i : Nat) : s.enter.2.recordAt i = s.recordAt i := by
  unfold enter grow
  dsimp only
  split <;> rfl

/-- The entry that is handed out is that of the record, unless there is no room for one. -/
lemma entry_enter (s : FrameStack Value) :
    s.enter.1 = 0 ∨ s.enter.1 = (s.recordAt s.depth).entry := by
  simp only [enter, grow, record?]
  split
  · simp [recordAt]
  · simp only
    split
    · simp [recordAt]
    · simp

lemma lt_of_record? {i : Nat} {r : FrameRecord Value} (h : s.record? i = some r) : i < s.room := by
  unfold record? at h
  split at h
  · assumption
  · cases h

/-- **Entering an activation that was left** hands out the entry of its record. -/
lemma enter_of_record {r : FrameRecord Value} (h : s.record? s.depth = some r) :
    s.enter.1 = r.entry ∧ s.enter.2.current? = some r ∧ s.enter.2.topRecord = r
      ∧ s.enter.2.room = s.room := by
  have hlt := lt_of_record? h
  have hgrow : s.grow = s := if_pos hlt
  rw [record?, if_pos hlt] at h
  cases h
  simp [enter, hgrow, record?, hlt, current?, topRecord, recordAt]

lemma depth_pop (h : 0 < s.depth) : s.pop.depth = s.depth - 1 := by
  unfold pop
  rw [if_neg (by simp; omega)]

lemma recordAt_pop (h : 0 < s.depth) : s.pop.recordAt (s.depth - 1) = .empty := by
  unfold pop
  rw [if_neg (by simp; omega)]
  exact getD_put_self _ _ _

/-- **What a push leaves**: the entry, and as many fresh slots as it was told. -/
lemma push_eq_true {entry objects prims : Int} (h : s.push entry objects prims = (true, s')) :
    0 < s.depth ∧ s' = s.setCurrent ⟨entry, Array.replicate objects.toNat default,
      Array.replicate prims.toNat 0⟩ := by
  unfold push at h
  split at h
  · cases h
  · next r hr =>
      dsimp only at h
      split at h
      · cases h
      · split at h
        · cases h
        · cases h
          exact ⟨(current?_eq_some hr).2, rfl⟩

lemma fits_of_lt {width count : Nat} (hwidth : width ≤ 16) (hcount : count < 2147483648) :
    fits width count = true := by
  have hle : count * width ≤ 2147483648 * 16 := Nat.mul_le_mul (Nat.le_of_lt hcount) hwidth
  simp only [fits, storage, Bool.and_eq_true, decide_eq_true_eq]
  refine ⟨by omega, decide_eq_true ?_⟩
  exact_mod_cast Nat.le_trans hle (by decide)

/-- **A push that there is room for.** -/
lemma push_of_fits {entry objects prims : Int} {r : FrameRecord Value} (hs : s.current? = some r)
    (hobjects : fits objectWidth objects = true) (hprims : fits primWidth prims = true) :
    s.push entry objects prims = (true, s.setCurrent ⟨entry, Array.replicate objects.toNat default,
      Array.replicate prims.toNat 0⟩) := by
  simp [push, hs, hobjects, hprims]

/-- A negative number of slots is refused. -/
lemma push_of_neg {entry objects prims : Int} (hprims : prims < 0) :
    ∃ s' : FrameStack Value, s.push entry objects prims = (false, s') := by
  have hfit : fits primWidth prims = false := by
    simp only [fits, Bool.and_eq_false_imp, decide_eq_true_eq]
    omega
  simp only [push, hfit]
  split
  · exact ⟨_, rfl⟩
  · split <;> exact ⟨_, rfl⟩

/-! ## Operations on slots -/

lemma slot?_eq_some {size i : Nat} {slot : Int} :
    slot? size slot = some i ↔ slot = i ∧ i < size := by
  unfold slot?
  split
  · next h =>
      simp only [Bool.and_eq_true, decide_eq_true_eq] at h
      simp only [Option.some.injEq]
      omega
  · next h =>
      simp only [Bool.and_eq_true, decide_eq_true_eq] at h
      simp only [reduceCtorEq, false_iff]
      omega

/-- **Saving a value** stores it in a slot of the current record. -/
lemma apply_saveOp {k : Kind} {slot : Int} {v : Value} {op : Op Value}
    (hop : Native.saveOp k slot v = some op) :
    s.apply op = match s.current?.bind fun r => (slot? (r.room k) slot).map (r, ·) with
      | some (r, i) => (.done, s.setCurrent (r.store k i v))
      | none => (.misuse, s) := by
  have hobj : ∀ x : Value, stored s (s.setObject? slot x)
      = match s.current?.bind fun r => (slot? r.objects.size slot).map (r, ·) with
        | some (r, i) => (.done, s.setCurrent { r with objects := r.objects.set! i x })
        | none => (.misuse, s) := by
    intro x
    unfold setObject?
    cases s.current? with
    | none => rfl
    | some r => cases h : slot? r.objects.size slot <;> simp [stored, h]
  have hprim : ∀ x : UInt64, stored s (s.setPrim? slot x)
      = match s.current?.bind fun r => (slot? r.prims.size slot).map (r, ·) with
        | some (r, i) => (.done, s.setCurrent { r with prims := r.prims.set! i x })
        | none => (.misuse, s) := by
    intro x
    unfold setPrim?
    cases s.current? with
    | none => rfl
    | some r => cases h : slot? r.prims.size slot <;> simp [stored, h]
  unfold Native.saveOp at hop
  split at hop <;> cases hop
  · exact hprim _
  · exact hprim _
  · exact hprim _
  · exact hprim _
  · exact hobj _

/-- What a save that goes well has done. -/
lemma saved_eq {k : Kind} {slot : Int} {v : Value} {op : Op Value} {ans : Answer Value}
    (hop : Native.saveOp k slot v = some op) (h : s.apply op = (ans, s')) (hans : ans ≠ .misuse) :
    0 < s.depth ∧ ans = .done ∧ ∃ i, s' = s.setCurrent (s.topRecord.store k i v) := by
  rw [apply_saveOp hop] at h
  split at h
  · next r i hr =>
      cases h
      obtain ⟨r', hr', hi⟩ := Option.bind_eq_some_iff.mp hr
      obtain ⟨j, -, hj⟩ := Option.map_eq_some_iff.mp hi
      cases hj
      obtain ⟨rfl, hd⟩ := current?_eq_some hr'
      exact ⟨hd, rfl, i, rfl⟩
  · cases h
    exact absurd rfl hans

/-- Fetching changes nothing. -/
lemma apply_restoreOp_snd (s : FrameStack Value) (k : Kind) (slot : Int) :
    (s.apply (Native.restoreOp k slot)).2 = s := by
  cases k <;> rfl

/-- **Fetching a value** that is in a slot. -/
lemma apply_restoreOp {k : Kind} {i : Nat} {r : FrameRecord Value} {v : Value}
    (hr : s.current? = some r) (hv : r.fetch k i = some v) :
    (s.apply (Native.restoreOp k i)).1 ≠ .misuse
      ∧ Native.ofAnswer (s.apply (Native.restoreOp k i)).1 = v := by
  have hslot : ∀ {α : Type} {xs : Array α} {x : α}, xs[i]? = some x → slot? xs.size i = some i :=
    fun hx => slot?_eq_some.mpr ⟨rfl, (Array.getElem?_eq_some_iff.mp hx).1⟩
  cases k with
  | ref =>
      have hv : r.objects[i]? = some v := hv
      simp [Native.restoreOp, apply, object?, hr, hslot hv, hv, loaded, Native.ofAnswer]
  | int | long | float | double =>
      obtain ⟨b, hb, rfl⟩ := Option.map_eq_some_iff.mp hv
      simp [Native.restoreOp, apply, prim?, hr, hslot hb, hb, loaded, Native.ofAnswer]

end FrameStack

end Suspension
