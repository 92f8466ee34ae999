import Suspension.Proofs.Instrument.Points

/-!
# Where a record keeps the slots of a frame

The slots of a frame are given places one after the other, references among the objects and all others
among the primitives of the record.  **No place is given twice.**

* `SlotPlan.Placing` — slots that are given places from some counts on.
* `SlotPlan.placing_ofFrame` — the slots of a frame are given places so.
* `SlotPlan.Placing.place?_range`, `SlotPlan.Placing.apart` — the places are in range and differ,
  `SlotPlan.Placing.slots_eq` — and every place is given.
* `SuspensionPoint.LaidOut` — a point that keeps what its subject has it keep.
-/

namespace Suspension

namespace SlotPlan

/-- **Slots are given places**, beginning with the numbers that are free. -/
inductive Placing : SlotCounts → List (SlotType × Keep) → SlotCounts → Prop where
  | nil {c : SlotCounts} : Placing c [] c
  | none {c c' : SlotCounts} {v : SlotType} {keep : Keep} {l : List (SlotType × Keep)}
      (hkeep : keep = .nothing ∨ keep = .deferred) (h : Placing c l c') :
      Placing c ((v, keep) :: l) c'
  | object {c c' : SlotCounts} {v : SlotType} {l : List (SlotType × Keep)}
      (hv : v.kind? = some .ref) (h : Placing ⟨c.objects + 1, c.prims⟩ l c') :
      Placing c ((v, .object c.objects) :: l) c'
  | prim {c c' : SlotCounts} {v : SlotType} {k : Kind} {l : List (SlotType × Keep)}
      (hv : v.kind? = some k) (hk : k ≠ .ref) (h : Placing ⟨c.objects, c.prims + 1⟩ l c') :
      Placing c ((v, .prim c.prims) :: l) c'

variable {c c₁ c' : SlotCounts} {l l' : List (SlotType × Keep)}

lemma Placing.append (h : Placing c l c₁) (h' : Placing c₁ l' c') : Placing c (l ++ l') c' := by
  induction h with
  | nil => exact h'
  | none hkeep _ ih => exact .none hkeep (ih h')
  | object hv _ ih => exact .object hv (ih h')
  | prim hv hk _ ih => exact .prim hv hk (ih h')

/-- One more slot is given a place. -/
lemma Placing.place (v : SlotType) (h : Placing (c.place v).2 l c') :
    Placing c ((v, (c.place v).1) :: l) c' := by
  unfold SlotCounts.place at h ⊢
  by_cases hskip : v.isSkipped = true
  · simp only [hskip, if_true] at h ⊢
    exact .none (Or.inl rfl) h
  · simp only [hskip] at h ⊢
    cases hv : v.kind? with
    | none =>
        have : v = .unusable := by cases v <;> simp_all [SlotType.kind?]
        simp [this, SlotType.isSkipped] at hskip
    | some k =>
        rw [hv] at h
        cases k with
        | ref => exact .object hv h
        | _ => exact .prim hv (by decide) h

lemma placing_placeStack (isDeferred : SlotType → Bool) (vs : List SlotType) (c : SlotCounts) :
    Placing c (placeStack isDeferred vs c).1 (placeStack isDeferred vs c).2 := by
  induction vs generalizing c with
  | nil => exact .nil
  | cons v vs ih =>
      unfold placeStack
      by_cases hd : isDeferred v = true
      · simp only [hd, if_true]
        exact .none (Or.inr rfl) (ih c)
      · simp only [hd]
        exact .place v (ih _)

lemma placing_placeLocals (skip : Nat) (vs : List SlotType) (c : SlotCounts) :
    Placing c (placeLocals skip vs c).1 (placeLocals skip vs c).2 := by
  induction vs generalizing skip c with
  | nil => exact .nil
  | cons v vs ih =>
      unfold placeLocals
      by_cases hskip : skip = 0
      · simp only [hskip, if_true]
        exact .place v (ih _ _)
      · simp only [hskip, if_false]
        exact .none (Or.inl rfl) (ih _ c)

/-- **The slots of a frame are given places**, first those of the stack, then the locals. -/
lemma placing_ofFrame (isDeferred : SlotType → Bool) (skip : Nat) (f : Frame) :
    Placing {} ((ofFrame isDeferred skip f).stack ++ (ofFrame isDeferred skip f).locals)
      (ofFrame isDeferred skip f).counts :=
  (placing_placeStack isDeferred f.stack.reverse {}).append (placing_placeLocals skip _ _)

/-- No more places are given than there are slots. -/
lemma Placing.counts_le (h : Placing c l c') :
    c'.objects + c'.prims ≤ c.objects + c.prims + l.length := by
  induction h with
  | nil => simp
  | none _ _ ih => simp only [List.length_cons]; omega
  | object _ _ ih => simp only [List.length_cons] at ih ⊢; omega
  | prim _ _ _ ih => simp only [List.length_cons] at ih ⊢; omega

/-- What is kept as an object is a reference. -/
lemma Placing.kind_of_object (h : Placing c l c') {v : SlotType} {i : Nat}
    (hm : (v, Keep.object i) ∈ l) : v.kind? = some .ref := by
  induction h with
  | nil => simp at hm
  | none hkeep _ ih =>
      rcases List.mem_cons.mp hm with heq | hm
      · cases heq
        simp at hkeep
      · exact ih hm
  | object hv _ ih =>
      rcases List.mem_cons.mp hm with heq | hm
      · cases heq
        exact hv
      · exact ih hm
  | prim _ _ _ ih =>
      rcases List.mem_cons.mp hm with heq | hm
      · cases heq
      · exact ih hm

/-! ### Places -/

lemma Placing.counts_mono (h : Placing c l c') : c.objects ≤ c'.objects ∧ c.prims ≤ c'.prims := by
  induction h with
  | nil => exact ⟨Nat.le_refl _, Nat.le_refl _⟩
  | none _ _ ih => exact ih
  | object _ _ ih =>
      simp only at ih
      omega
  | prim _ _ _ ih =>
      simp only at ih
      omega

/-- **The place of a slot** is among the numbers that were free. -/
lemma Placing.place?_range (h : Placing c l c') {x : SlotType × Keep} (hx : x ∈ l) {k : Kind} {i : Nat}
    (hp : Emit.place? x.1 x.2 = some (k, i)) : x.1.kind? = some k
      ∧ (k = .ref → c.objects ≤ i ∧ i < c'.objects) ∧ (k ≠ .ref → c.prims ≤ i ∧ i < c'.prims) := by
  induction h with
  | nil => cases hx
  | none hkeep _ ih =>
      rcases List.mem_cons.mp hx with rfl | hx
      · rcases hkeep with rfl | rfl <;> cases hp
      · exact ih hx
  | object hv hrest ih =>
      have := hrest.counts_mono
      rcases List.mem_cons.mp hx with rfl | hx
      · cases hp
        exact ⟨hv, fun _ => ⟨Nat.le_refl _, this.1⟩, fun hk => absurd rfl hk⟩
      · obtain ⟨hkind, hobjects, hprims⟩ := ih hx
        exact ⟨hkind, fun hk => ⟨Nat.le_of_succ_le (hobjects hk).1, (hobjects hk).2⟩, hprims⟩
  | prim hv hk hrest ih =>
      have := hrest.counts_mono
      rcases List.mem_cons.mp hx with rfl | hx
      · simp only [Emit.place?, hv, Option.map_some, Option.some.injEq, Prod.mk.injEq] at hp
        obtain ⟨rfl, rfl⟩ := hp
        exact ⟨hv, fun h => absurd h hk, fun _ => ⟨Nat.le_refl _, this.2⟩⟩
      · obtain ⟨hkind, hobjects, hprims⟩ := ih hx
        exact ⟨hkind, hobjects, fun hk => ⟨Nat.le_of_succ_le (hprims hk).1, (hprims hk).2⟩⟩

/-- **No place is given twice.** -/
lemma Placing.apart (h : Placing c l c') : l.Pairwise fun x y => ∀ k i k' i',
    Emit.place? x.1 x.2 = some (k, i) → Emit.place? y.1 y.2 = some (k', i') →
      (k = .ref ↔ k' = .ref) → i ≠ i' := by
  induction h with
  | nil => exact .nil
  | none hkeep _ ih =>
      refine .cons (fun y _ k i k' i' hx => ?_) ih
      rcases hkeep with rfl | rfl <;> cases hx
  | object hv hrest ih =>
      refine .cons (fun y hy k i k' i' hx hy' hk => ?_) ih
      cases hx
      have := ((hrest.place?_range hy hy').2.1 (hk.mp rfl)).1
      simp only at this
      omega
  | prim hv hne hrest ih =>
      refine .cons (fun y hy k i k' i' hx hy' hk => ?_) ih
      simp only [Emit.place?, hv, Option.map_some, Option.some.injEq, Prod.mk.injEq] at hx
      obtain ⟨rfl, rfl⟩ := hx
      have := ((hrest.place?_range hy hy').2.2 fun hk' => hne (hk.mpr hk')).1
      simp only at this
      omega

/-- The object slot that something is kept in. -/
def objectSlot? (x : SlotType × Keep) : Option Nat :=
  match x.2 with
  | .object i => some i
  | _ => Option.none

/-- The primitive slot that something is kept in. -/
def primSlot? (x : SlotType × Keep) : Option Nat :=
  match x.2 with
  | .prim i => some i
  | _ => Option.none

/-- **Every place is given once**, one after the other. -/
lemma Placing.slots_eq (h : Placing c l c') :
    l.filterMap objectSlot? = List.range' c.objects (c'.objects - c.objects)
      ∧ l.filterMap primSlot? = List.range' c.prims (c'.prims - c.prims) := by
  have hfirst : ∀ {n m : Nat}, n + 1 ≤ m → n :: List.range' (n + 1) (m - (n + 1))
      = List.range' n (m - n) := fun {n m} h => by
    rw [← List.range'_succ, show m - (n + 1) + 1 = m - n by omega]
  induction h with
  | nil => simp
  | none hkeep _ ih => rcases hkeep with rfl | rfl <;> exact ih
  | object _ hrest ih =>
      refine ⟨(List.filterMap_cons_some (f := objectSlot?) rfl).trans ?_, ih.2⟩
      rw [ih.1]
      exact hfirst hrest.counts_mono.1
  | prim _ _ hrest ih =>
      refine ⟨ih.1, (List.filterMap_cons_some (f := primSlot?) rfl).trans ?_⟩
      rw [ih.2]
      exact hfirst hrest.counts_mono.2

/-- What is kept as a primitive is none of the references. -/
lemma Placing.kind_of_prim (h : Placing c l c') {v : SlotType} {i : Nat}
    (hm : (v, Keep.prim i) ∈ l) : ∃ k, v.kind? = some k ∧ k ≠ .ref := by
  induction h with
  | nil => cases hm
  | none hkeep _ ih =>
      rcases List.mem_cons.mp hm with heq | hm
      · cases heq
        simp at hkeep
      · exact ih hm
  | object _ _ ih =>
      rcases List.mem_cons.mp hm with heq | hm
      · cases heq
      · exact ih hm
  | prim hv hk _ ih =>
      rcases List.mem_cons.mp hm with heq | hm
      · cases heq
        exact ⟨_, hv, hk⟩
      · exact ih hm

lemma skipped_of_place {v : SlotType} (h : (c.place v).1 = .nothing) : v.isSkipped = true := by
  unfold SlotCounts.place at h
  by_cases hskip : v.isSkipped = true
  · exact hskip
  · simp only [hskip] at h
    cases hv : v.kind? with
    | none => simp [hv] at h
    | some k => cases k <;> simp [hv] at h

lemma place_ne_deferred (v : SlotType) : (c.place v).1 ≠ .deferred := by
  unfold SlotCounts.place
  split
  · simp
  · split <;> simp

/-- Nothing is kept of a slot of the stack only when there is nothing to keep. -/
lemma skipped_of_placeStack {isDeferred : SlotType → Bool} {vs : List SlotType} {v : SlotType}
    (h : (v, Keep.nothing) ∈ (placeStack isDeferred vs c).1) : v.isSkipped = true := by
  induction vs generalizing c with
  | nil => cases h
  | cons w vs ih =>
      unfold placeStack at h
      rcases List.mem_cons.mp h with heq | h
      · by_cases hd : isDeferred w = true
        · simp [hd] at heq
        · simp only [hd] at heq
          obtain ⟨rfl, hkeep⟩ := Prod.mk.inj heq
          exact skipped_of_place hkeep.symm
      · exact ih h

/-- The slots that are redone later are those that are told to be. -/
lemma deferred_iff {isDeferred : SlotType → Bool} {vs : List SlotType} {x : SlotType × Keep}
    (h : x ∈ (placeStack isDeferred vs c).1) : x.2 ≠ .deferred ↔ isDeferred x.1 = false := by
  induction vs generalizing c with
  | nil => cases h
  | cons w vs ih =>
      unfold placeStack at h
      rcases List.mem_cons.mp h with rfl | h
      · by_cases hd : isDeferred w = true
        · simp [hd]
        · simp [hd, place_ne_deferred]
      · exact ih h

/-- Neither is anything kept of the locals that the caller supplies. -/
lemma getElem?_placeLocals {skip i : Nat} {vs : List SlotType} {v : SlotType} {keep : Keep}
    (h : (placeLocals skip vs c).1[i]? = some (v, keep)) :
    keep ≠ .deferred ∧ (i < skip → keep = .nothing)
      ∧ (skip ≤ i → keep = .nothing → v.isSkipped = true) := by
  induction vs generalizing skip c i with
  | nil => cases h
  | cons w vs ih =>
      unfold placeLocals at h
      cases i with
      | zero =>
          simp only [List.getElem?_cons_zero, Option.some.injEq, Prod.mk.injEq] at h
          obtain ⟨rfl, rfl⟩ := h
          by_cases hskip : skip = 0
          · simp only [hskip, if_true]
            exact ⟨place_ne_deferred w, by simp, fun _ => skipped_of_place⟩
          · simp only [hskip, if_false]
            exact ⟨by simp, by simp, by omega⟩
      | succ i =>
          obtain ⟨h₁, h₂, h₃⟩ := ih (by simpa using h)
          exact ⟨h₁, fun hi => h₂ (by omega), fun hi => h₃ (by omega)⟩

/-- The slots of the stack, in their order. -/
lemma fst_placeStack (isDeferred : SlotType → Bool) (vs : List SlotType) (c : SlotCounts) :
    (placeStack isDeferred vs c).1.map Prod.fst = vs := by
  induction vs generalizing c with
  | nil => rfl
  | cons v vs ih => simp [placeStack, ih]

lemma fst_placeLocals (skip : Nat) (vs : List SlotType) (c : SlotCounts) :
    (placeLocals skip vs c).1.map Prod.fst = vs := by
  induction vs generalizing skip c with
  | nil => rfl
  | cons v vs ih => simp [placeLocals, ih]

end SlotPlan

/-! ## The slots of a point -/

/-- **A point that is laid out for its frame**: it keeps what its subject has it keep. -/
def SuspensionPoint.LaidOut (s : Subject) (pt : SuspensionPoint) : Prop :=
  pt.plan = .ofFrame s.isDeferred s.firstLocal pt.frame

lemma SuspensionPoint.Found.laidOut {s : Subject} {pt : SuspensionPoint} (h : pt.Found s) :
    pt.LaidOut s := h.plan

lemma Subject.point_laidOut (s : Subject) (position entry : Nat) (call : Instruction) (f : Frame)
    (isYield : Bool) : (s.point position entry call f isYield).LaidOut s := rfl

namespace SuspensionPoint.LaidOut

variable {s : Subject} {pt : SuspensionPoint}

/-- The slots of a point are given places. -/
lemma placing (h : pt.LaidOut s) :
    SlotPlan.Placing {} (pt.plan.stack ++ pt.plan.locals) pt.plan.counts := by
  rw [h]
  exact SlotPlan.placing_ofFrame _ _ _

/-- The slots of a point are those of its frame. -/
lemma stack_eq (h : pt.LaidOut s) : pt.plan.stack.map Prod.fst = pt.frame.stack.reverse := by
  rw [h]
  exact SlotPlan.fst_placeStack _ _ _

lemma locals_eq (h : pt.LaidOut s) : pt.plan.locals.map Prod.fst = pt.frame.locals.toList := by
  rw [h]
  exact SlotPlan.fst_placeLocals _ _ _

lemma length_locals (h : pt.LaidOut s) : pt.plan.locals.length = pt.frame.locals.size := by
  rw [← List.length_map Prod.fst, h.locals_eq, Array.length_toList]

lemma length_stack (h : pt.LaidOut s) : pt.plan.stack.length = pt.frame.stack.length := by
  rw [← List.length_map Prod.fst, h.stack_eq, List.length_reverse]

/-- A frame needs no more slots than it has values. -/
lemma counts_le (h : pt.LaidOut s) : pt.plan.counts.objects + pt.plan.counts.prims
    ≤ pt.frame.stack.length + pt.frame.locals.size := by
  have := h.placing.counts_le
  rw [List.length_append, h.length_stack, h.length_locals] at this
  simpa using this

/-- A slot of the stack is left out exactly if it is redone later. -/
lemma deferred_iff (h : pt.LaidOut s) {x : SlotType × Keep} (hx : x ∈ pt.plan.stack) :
    x.2 ≠ .deferred ↔ s.isDeferred x.1 = false := by
  rw [h] at hx
  exact SlotPlan.deferred_iff hx

/-- A slot of the stack that nothing is kept of has nothing to keep. -/
lemma skipped (h : pt.LaidOut s) {v : SlotType} (hv : (v, Keep.nothing) ∈ pt.plan.stack) :
    v.isSkipped = true := by
  rw [h] at hv
  exact SlotPlan.skipped_of_placeStack hv

/-- What is kept of a local. -/
lemma local_keep (h : pt.LaidOut s) {i : Nat} {v : SlotType} {keep : Keep}
    (hv : pt.plan.locals[i]? = some (v, keep)) :
    keep ≠ .deferred ∧ (i < s.firstLocal → keep = .nothing)
      ∧ (s.firstLocal ≤ i → keep = .nothing → v.isSkipped = true) := by
  rw [h] at hv
  exact SlotPlan.getElem?_placeLocals hv

/-- The slots of the stack that are on it. -/
lemma operands_eq (h : pt.LaidOut s) :
    (pt.plan.stack.reverse.filter fun x => x.2 ≠ .deferred).map Prod.fst
      = pt.frame.stack.filter fun t => !s.isDeferred t := by
  rw [← List.reverse_reverse pt.frame.stack, ← h.stack_eq, ← List.map_reverse, List.filter_map]
  congr 1
  refine List.filter_congr fun x hx => ?_
  have := h.deferred_iff (List.mem_reverse.mp hx)
  cases hd : s.isDeferred x.1 <;> simp_all

end SuspensionPoint.LaidOut

end Suspension
