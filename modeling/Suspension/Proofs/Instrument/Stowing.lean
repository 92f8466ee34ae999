import Suspension.Proofs.Frame.Courses
import Suspension.Proofs.Instrument.Images
import Suspension.Proofs.Instrument.Validity

/-!
# What the code that moves frames does to frames

Saving a frame takes its slots off the stack; restoring it sets its locals and **puts every slot back with the
type that was known of it**, whatever the locals held.  The arguments of a construction that is redone are put
aside and come back as they were.

* `Emit.runs_put`, `Emit.runs_get` — one value.
* `Emit.runs_save`, `Emit.runs_restore` — a frame.
* `Plan.runs_spill`, `Plan.runs_reload` — arguments.
-/

namespace Suspension

open Suspension.Frame (Runs runs_load runs_store runs_int runs_null runs_pop runs_call runs_cast runs_mark)

namespace Emit

variable {S : List Site} {may : Nat → Prop} {q : Nat} {L : Array SlotType} {ts : List SlotType} {v t : SlotType}
  {k : Kind}
  {s : UInt32}

/-- A local holds the frame stack. -/
def HoldsStack (s : UInt32) (L : Array SlotType) : Prop := L[s.toNat]? = some (.ref ClassName.frameStack)

@[simp] lemma kind?_settle (t : SlotType) : (Analysis.settle t).kind? = t.kind? := by cases t <;> rfl

lemma free_settle (S : List Site) (t : SlotType) : Site.Free S (Analysis.settle t) := by cases t <;> trivial

/-- **A value is taken off the stack** when it is put into its slot. -/
lemma runs_put (hL : HoldsStack s L) (hk : t.kind? = some k) (ht : Site.Free S t) (i : Nat) :
    Runs S may q ⟨L, t :: ts⟩ (put s k i) ⟨L, ts⟩ := by
  refine (runs_load (k := .ref) hL rfl).append_at fun q => (runs_int (Int32.ofNat i)).append_at fun q => ?_
  refine runs_call [.int, .ref ClassName.frameStack, t] [] ts (by simp) (Running.parse_putMember k) ?_ rfl
    (by simpa [Site.Free] using ht)
  cases k <;> simp [hk] <;> decide

lemma ofDesc_accessor (hk : k ≠ .ref) (hv : v.kind? = some k) :
    SlotType.ofDesc (accessorDesc k) = Analysis.settle v := by
  cases v with
  | unusable => cases hv
  | ref | pending => exact absurd (Option.some.inj hv).symm hk
  | _ =>
      obtain rfl := (Option.some.inj hv).symm
      rfl

/-- **A value is put on the stack** when it is fetched from its slot, with the type that is known of it. -/
lemma runs_get (hL : HoldsStack s L) (hk : v.kind? = some k) (hname : v.Names (· ≠ [])) (i : Nat) :
    Runs S may q ⟨L, ts⟩ (get s v k i) ⟨L, Analysis.settle v :: ts⟩ := by
  have hcall : Runs S may q ⟨L, ts⟩ [.slot (.load .ref) s, .int (Int32.ofNat i),
      .member (.invoke .virtual) ClassName.frameStack (Text.ofString "get" ++ accessorName k)
        (Text.ofString "(I)" ++ accessorDesc k)] ⟨L, .ofDesc (accessorDesc k) :: ts⟩ := by
    refine (runs_load (k := .ref) hL rfl).append_at fun q => (runs_int (Int32.ofNat i)).append_at fun q => ?_
    have h : Runs S may q ⟨L, _⟩ [⟨.invoke .virtual, .member (Running.getMember k)⟩] _ :=
      runs_call [.int] [.ref ClassName.frameStack] ts (by simp) (Running.parse_getMember k) rfl rfl
        (by simp [Site.Free])
    rwa [Running.isVoid_accessor] at h
  by_cases href : k = .ref
  · subst href
    obtain ⟨c, hc⟩ := SlotType.settle_eq_ref hk
    have hcls := SlotType.typeName_of_settle hc
    have hobject : SlotType.ofDesc (accessorDesc .ref) = .ref ClassName.object := by decide
    rw [hc]
    rw [hobject] at hcall
    unfold get
    by_cases hcast : c = ClassName.object
    · simpa [hcls, hcast] using hcall
    · simp only [hcls, beq_self_eq_true, Bool.true_and, bne_iff_ne, ne_eq, hcast, not_false_eq_true, if_true]
      exact hcall.append_at fun q => runs_cast (by decide) (hcls ▸ hname hk)
  · rw [ofDesc_accessor href hk] at hcall
    unfold get
    simpa [href] using hcall

/-! ## Slots that are kept -/

/-- **How a slot is kept**: there is nothing to keep of it, or it has a place of its kind. -/
def Keeps (v : SlotType) (keep : Keep) : Prop :=
  keep = .nothing ∧ v.isSkipped = true ∨ ∃ k i, place? v keep = some (k, i) ∧ v.kind? = some k

lemma Keeps.ne_deferred {keep : Keep} (h : Keeps v keep) : keep ≠ .deferred := by
  rintro rfl
  rcases h with ⟨h, -⟩ | ⟨k, i, h, -⟩ <;> cases h

lemma runs_saveSlot {keep : Keep} (hL : HoldsStack s L) (h : Keeps v keep) :
    Runs S may q ⟨L, Analysis.settle v :: ts⟩ (saveSlot s v keep) ⟨L, ts⟩ := by
  rcases h with ⟨rfl, -⟩ | ⟨k, i, hplace, hk⟩
  · exact runs_pop (free_settle S v)
  · have hput : Runs S may q ⟨L, Analysis.settle v :: ts⟩ (put s k i) ⟨L, ts⟩ :=
      runs_put hL (by simpa using hk) (free_settle S v) i
    cases keep with
    | nothing | deferred => cases hplace
    | _ =>
        simp only [saveSlot, hplace]
        exact hput

lemma runs_restoreSlot {keep : Keep} (hL : HoldsStack s L) (h : Keeps v keep) (hv : v.kind? ≠ none)
    (hname : v.Names (· ≠ [])) : Runs S may q ⟨L, ts⟩ (restoreSlot s v keep) ⟨L, Analysis.settle v :: ts⟩ := by
  unfold restoreSlot
  split
  · exact absurd rfl h.ne_deferred
  split
  · next hnull =>
      obtain rfl : v = .null := by simpa [SlotType.isNull] using hnull
      exact runs_null
  next hnull =>
  rcases h with ⟨-, hskip⟩ | ⟨k, i, hplace, hk⟩
  · simp only [SlotType.isSkipped, Bool.or_eq_true, beq_iff_eq] at hskip
    rcases hskip with rfl | hskip
    · exact absurd rfl hv
    · exact absurd hskip hnull
  · rw [hplace]
    exact runs_get hL hk hname i

/-- The slots of a list that are on the stack. -/
def operands (l : List (SlotType × Keep)) : List SlotType :=
  (l.filter fun x => x.2 ≠ .deferred).map fun x => Analysis.settle x.1

lemma operands_cons (x : SlotType × Keep) (l : List (SlotType × Keep)) :
    operands (x :: l) = (if x.2 = .deferred then [] else [Analysis.settle x.1]) ++ operands l := by
  unfold operands
  by_cases h : x.2 = .deferred <;> simp [h]

lemma runs_saveStack {l : List (SlotType × Keep)} (hL : HoldsStack s L)
    (h : ∀ x ∈ l, x.2 ≠ .deferred → Keeps x.1 x.2) :
    Runs S may q ⟨L, operands l ++ ts⟩ (l.flatMap fun x => saveSlot s x.1 x.2) ⟨L, ts⟩ := by
  induction l generalizing q with
  | nil => exact .done
  | cons x l ih =>
      obtain ⟨hx, hl⟩ := List.forall_mem_cons.mp h
      rw [List.flatMap_cons, operands_cons]
      by_cases hd : x.2 = .deferred
      · simpa [hd, saveSlot] using ih hl
      · simp only [hd, if_false, List.cons_append]
        exact (runs_saveSlot hL (hx hd)).append_at fun q => ih hl

/-- **The operand stack is put back** from the bottom up. -/
lemma runs_restoreStack {l : List (SlotType × Keep)} (hL : HoldsStack s L)
    (h : ∀ x ∈ l, x.2 ≠ .deferred → Keeps x.1 x.2 ∧ x.1.kind? ≠ none ∧ x.1.Names (· ≠ [])) :
    Runs S may q ⟨L, ts⟩ (l.flatMap fun x => restoreSlot s x.1 x.2) ⟨L, operands l.reverse ++ ts⟩ := by
  induction l generalizing q ts with
  | nil => exact .done
  | cons x l ih =>
      obtain ⟨hx, hl⟩ := List.forall_mem_cons.mp h
      have happend : operands (x :: l).reverse = operands l.reverse ++ operands [x] := by simp [operands]
      rw [List.flatMap_cons, happend, List.append_assoc]
      by_cases hd : x.2 = .deferred
      · simpa [hd, restoreSlot, operands] using ih hl
      · obtain ⟨hkeeps, hv, hname⟩ := hx hd
        have hone : operands [x] = [Analysis.settle x.1] := by simp [operands, hd]
        rw [hone]
        exact (runs_restoreSlot hL hkeeps hv hname).append_at fun q => ih hl

/-! ## Locals -/

/-- A local with what is known of it, unless that is nothing. -/
def setLocal (L : Array SlotType) (n : Nat) (v : SlotType) : Array SlotType :=
  if v = .unusable then L else L.set! n (Analysis.settle v)

/-- **Locals that are set one after the other**, from a number on. -/
def setLocals : Nat → List SlotType → Array SlotType → Array SlotType
  | _, [], L => L
  | n, v :: vs, L => setLocals (n + 1) vs (setLocal L n v)

lemma size_setLocal (L : Array SlotType) (n : Nat) (v : SlotType) : (setLocal L n v).size = L.size := by
  unfold setLocal
  split <;> simp

@[simp] lemma size_setLocals (L : Array SlotType) (n : Nat) (vs : List SlotType) :
    (setLocals n vs L).size = L.size := by
  induction vs generalizing n L with
  | nil => rfl
  | cons v vs ih => rw [setLocals, ih, size_setLocal]

lemma getElem?_setLocal {n j : Nat} (hn : n < L.size) :
    (setLocal L n v)[j]? = if j = n ∧ v ≠ .unusable then some (Analysis.settle v) else L[j]? := by
  unfold setLocal
  by_cases hv : v = .unusable
  · simp [hv]
  · by_cases hj : n = j
    · simp [hv, hj, hj ▸ hn]
    · simp [hv, hj, Ne.symm hj]

/-- Other locals are left alone. -/
lemma getElem?_setLocals_of_not {vs : List SlotType} {n j : Nat} (hn : n + vs.length ≤ L.size)
    (hj : j < n ∨ n + vs.length ≤ j) : (setLocals n vs L)[j]? = L[j]? := by
  induction vs generalizing n L with
  | nil => rfl
  | cons v vs ih =>
      simp only [List.length_cons] at hn hj
      rw [setLocals, ih (by rw [size_setLocal]; omega) (by omega), getElem?_setLocal (by omega),
        if_neg (by omega)]

/-- **What the locals are set to.** -/
lemma getElem?_setLocals {vs : List SlotType} {n k : Nat} {v : SlotType} (hn : n + vs.length ≤ L.size)
    (hk : vs[k]? = some v) : (setLocals n vs L)[n + k]? = if v = .unusable then L[n + k]? else some
    (Analysis.settle v) := by
  induction vs generalizing n k L with
  | nil => cases hk
  | cons w vs ih =>
      simp only [List.length_cons] at hn
      cases k with
      | zero =>
          obtain rfl : w = v := by simpa using hk
          rw [Nat.add_zero, setLocals, getElem?_setLocals_of_not (by rw [size_setLocal]; omega)
            (Or.inl (by omega)),
            getElem?_setLocal (by omega)]
          by_cases hw : w = .unusable <;> simp [hw]
      | succ k =>
          have h := ih (L := setLocal L n w) (n := n + 1) (by rw [size_setLocal]; omega) (by simpa using hk)
          rw [Nat.add_assoc, Nat.add_comm 1] at h
          have hother : (setLocal L n w)[n + (k + 1)]? = L[n + (k + 1)]? := by
            rw [getElem?_setLocal (by omega), if_neg (by omega)]
          rw [setLocals, h, hother]

lemma toNat_index {n : Nat} (hn : n < L.size) (hsize : L.size < UInt32.size) : (UInt32.ofNat n).toNat = n :=
  UInt32.toNat_ofNat_of_lt' (Nat.lt_trans hn hsize)

/-- **Locals are saved** and stay as they are. -/
lemma runs_saveLocals {l : List (SlotType × Keep)} {n : Nat} (hL : HoldsStack s L)
    (hsize : L.size < UInt32.size)
    (h : ∀ j x, l[j]? = some x → ∀ k i, place? x.1 x.2 = some (k, i) →
      x.1.kind? = some k ∧ L[n + j]? = some (Analysis.settle x.1)) :
    Runs S may q ⟨L, ts⟩ (locals (saveLocal s) n l) ⟨L, ts⟩ := by
  induction l generalizing q n with
  | nil => exact .done
  | cons x l ih =>
      have hrest : ∀ q, Runs S may q ⟨L, ts⟩ (locals (saveLocal s) (n + 1) l) ⟨L, ts⟩ := by
        refine fun q => ih fun j y hj k i hplace => ?_
        have := h (j + 1) y (by simpa using hj) k i hplace
        rwa [Nat.add_assoc, Nat.add_comm 1]
      obtain ⟨v, keep⟩ := x
      refine Runs.append_at ?_ hrest
      unfold saveLocal
      split
      · next k i hplace =>
          obtain ⟨hk, hat⟩ := h 0 (v, keep) rfl k i hplace
          have hn : n < L.size := (Array.getElem?_eq_some_iff.mp hat).1
          rw [Running.loadOf_eq hk]
          exact (runs_load (by rw [toNat_index hn hsize]; exact hat) (by simpa using hk)).append_at
            fun q => runs_put hL (by simpa using hk) (free_settle S v) i
      · exact .done

/-- **Locals are set again** to what was known of them, whatever they are. -/
lemma runs_restoreLocals {l : List (SlotType × Keep)} {n : Nat} (hL : HoldsStack s L)
    (hsize : L.size < UInt32.size) (hn : n + l.length ≤ L.size) (hs : n + l.length ≤ s.toNat)
    (hmay : ∀ j, n ≤ j → j < n + l.length → may j) (h : ∀ x ∈ l, Keeps x.1 x.2 ∧ x.1.Names (· ≠ [])) :
    Runs S may q ⟨L, ts⟩ (locals (restoreLocal s) n l) ⟨setLocals n (l.map Prod.fst) L, ts⟩ := by
  induction l generalizing q n L with
  | nil => exact .done
  | cons x l ih =>
      obtain ⟨⟨hkeeps, hname⟩, hl⟩ := List.forall_mem_cons.mp h
      simp only [List.length_cons] at hn hs hmay
      obtain ⟨v, keep⟩ := x
      have hstack : HoldsStack s (setLocal L n v) := by
        unfold HoldsStack
        rw [getElem?_setLocal (by omega), if_neg (by omega)]
        exact hL
      refine Runs.append_at (g := ⟨setLocal L n v, ts⟩) ?_ fun q => ih hstack (by rwa [size_setLocal])
        (by rw [size_setLocal]; omega) (by omega) (fun j hj hj' => hmay j (by omega) (by omega)) hl
      have hindex := toNat_index (n := n) (L := L) (by omega) hsize
      have hstore : ∀ {k : Kind} (q : Nat), v.kind? = some k → Runs S may q ⟨L, Analysis.settle v :: ts⟩
          [.slot (.store k) (UInt32.ofNat n)] ⟨setLocal L n v, ts⟩ := by
        intro k q hk
        have hne : v ≠ .unusable := Frame.usable_of_kind? hk
        have hrun : Runs S may q ⟨L, Analysis.settle v :: ts⟩ [.slot (.store k) (UInt32.ofNat n)] _ :=
          runs_store
          (by rw [hindex]; exact hmay n (by omega) (by omega)) (by rw [hindex]; omega) (by simpa using hk)
          (free_settle S v)
        rw [hindex] at hrun
        unfold setLocal
        rwa [if_neg hne]
      unfold restoreLocal
      split
      · next hnull =>
          obtain rfl : v = .null := by simpa [SlotType.isNull] using hnull
          exact runs_null.append_at fun q => hstore q rfl
      next hnull =>
      rcases hkeeps with ⟨rfl, hskip⟩ | ⟨k, i, hplace, hk⟩
      · simp only [SlotType.isSkipped, Bool.or_eq_true, beq_iff_eq] at hskip
        obtain rfl : v = .unusable := hskip.resolve_right hnull
        exact .done
      · rw [hplace, Running.storeOf_eq hk]
        exact (runs_get hL hk hname i).append_at fun q => hstore q hk

/-! ## Frames -/

/-- **Saving a frame** empties the operand stack. -/
lemma runs_save {pt : SuspensionPoint} (hL : HoldsStack s L) (hsize : L.size < UInt32.size)
    (hstack : ∀ x ∈ pt.plan.stack, x.2 ≠ .deferred → Keeps x.1 x.2)
    (hlocals : ∀ (j : Nat) (x : SlotType × Keep), pt.plan.locals[j]? = some x → ∀ k i, place? x.1 x.2 = some
      (k, i) →
      x.1.kind? = some k ∧ L[j]? = some (Analysis.settle x.1)) :
    Runs S may q ⟨L, operands pt.plan.stack.reverse⟩ (save s pt) ⟨L, []⟩ := by
  have hhead : ∀ q ts, Runs S may q ⟨L, ts⟩ [.slot (.load .ref) s, .int (Int32.ofNat pt.entry),
      .int (Int32.ofNat pt.plan.counts.objects), .int (Int32.ofNat pt.plan.counts.prims), pushMethod] ⟨L,
        ts⟩ := by
    intro q ts
    refine (runs_load (k := .ref) hL rfl).append_at fun q => (runs_int _).append_at fun q =>
      (runs_int _).append_at fun q => (runs_int _).append_at fun q => ?_
    exact runs_call (d := ⟨["I", "I", "I"], "V"⟩) [.int, .int, .int] [.ref ClassName.frameStack] ts
      (by simp) rfl rfl rfl
      (by simp [Site.Free])
  refine ((hhead q _).append_at fun q => ?_).append_at fun q =>
    runs_saveLocals hL hsize fun j x hj k i hplace => ?_
  · have hrun : Runs S may q ⟨L, operands pt.plan.stack.reverse ++ []⟩ _ _ := runs_saveStack hL
      fun x hx => hstack x (List.mem_reverse.mp hx)
    rwa [List.append_nil] at hrun
  · rw [Nat.zero_add]
    exact hlocals j x hj k i hplace

/-- **Restoring a frame** sets its locals and fills the operand stack, whatever the locals are. -/
lemma runs_restore {pt : SuspensionPoint} {skip : Nat} (hL : HoldsStack s L) (hsize : L.size < UInt32.size)
    (hskip : skip ≤ pt.plan.locals.length) (hlength : pt.plan.locals.length ≤ L.size)
    (hs : pt.plan.locals.length ≤ s.toNat) (hmay : ∀ j, skip ≤ j → j < pt.plan.locals.length → may j)
    (hstack : ∀ x ∈ pt.plan.stack, x.2 ≠ .deferred →
      Keeps x.1 x.2 ∧ x.1.kind? ≠ none ∧ x.1.Names (· ≠ []))
    (hlocals : ∀ x ∈ pt.plan.locals.drop skip, Keeps x.1 x.2 ∧ x.1.Names (· ≠ [])) :
    Runs S may q ⟨L, []⟩ (restore s skip pt)
      ⟨setLocals skip ((pt.plan.locals.drop skip).map Prod.fst) L, operands pt.plan.stack.reverse⟩ := by
  have hlen : skip + (pt.plan.locals.drop skip).length = pt.plan.locals.length := by
    rw [List.length_drop]
    omega
  have hstackVar : HoldsStack s (setLocals skip ((pt.plan.locals.drop skip).map Prod.fst) L) := by
    unfold HoldsStack
    rw [getElem?_setLocals_of_not (by rw [List.length_map]; omega) (by rw [List.length_map]; omega)]
    exact hL
  refine (runs_restoreLocals hL hsize (by omega) (by omega)
    (fun j hj hj' => hmay j hj (by omega)) hlocals).append_at fun q => ?_
  have hrun : Runs S may q ⟨_, []⟩ _ _ := runs_restoreStack hstackVar hstack
  rwa [List.append_nil] at hrun

end Emit

/-! ## Arguments -/

namespace Plan

open Emit (setLocals setLocal)

variable {S : List Site} {may : Nat → Prop} {q n : Nat} {L : Array SlotType} {ts args us : List SlotType}
  {base : UInt32}

lemma toNat_temporary (base : UInt32) {k : Nat} (hk : base.toNat + k < L.size) (hsize : L.size < UInt32.size) :
    (base + UInt32.ofNat k).toNat = base.toNat + k := by
  unfold UInt32.size at hsize
  rw [UInt32.toNat_add, UInt32.toNat_ofNat', Nat.mod_eq_of_lt (a := k) (by omega)]
  exact Nat.mod_eq_of_lt (by omega)

lemma runs_spillFrom (hkinds : us.map SlotType.kind? = args.map SlotType.kind?)
    (husable : ∀ u ∈ us, u.kind? ≠ none ∧ Analysis.settle u = u) (hfit : base.toNat + n + us.length ≤ L.size)
    (hsize : L.size < UInt32.size) (hmay : ∀ j, base.toNat ≤ j → j < L.size → may j) :
    Runs S may q ⟨L, us ++ ts⟩ ((args.zipIdx n).map fun x => Emit.storeOf x.1 (base + UInt32.ofNat x.2))
      ⟨setLocals (base.toNat + n) us L, ts⟩ := by
  induction us generalizing args q n L with
  | nil =>
      obtain rfl : args = [] := by simpa using hkinds.symm
      exact .done
  | cons u us ih =>
      cases args with
      | nil => cases hkinds
      | cons v args =>
          obtain ⟨hkind, hkinds⟩ := List.cons.inj hkinds
          obtain ⟨⟨hu, hsettle⟩, hus⟩ := List.forall_mem_cons.mp husable
          obtain ⟨k, hk⟩ := Option.ne_none_iff_exists'.mp hu
          simp only [List.length_cons] at hfit
          have hindex := toNat_temporary base (k := n) (L := L) (by omega) hsize
          have hfirst : Runs S may q ⟨L, u :: (us ++ ts)⟩ [Emit.storeOf v (base + UInt32.ofNat n)]
              ⟨setLocal L (base.toNat + n) u, us ++ ts⟩ := by
            have hrun : Runs S may q ⟨L, u :: (us ++ ts)⟩ [.slot (.store k) (base + UInt32.ofNat n)] _ :=
              runs_store
              (hmay _ (by omega) (by omega)) (by omega) hk (hsettle ▸ Emit.free_settle S u)
            rw [hindex] at hrun
            rw [Running.storeOf_eq (hkind.symm.trans hk)]
            unfold setLocal
            rwa [if_neg (Frame.usable_of_kind? hk), hsettle]
          refine hfirst.append_at fun q => ?_
          have hrun := ih (q := q) (n := n + 1) (L := setLocal L (base.toNat + n) u) hkinds hus
            (by rw [Emit.size_setLocal]; omega) (by rwa [Emit.size_setLocal]) (by rwa [Emit.size_setLocal])
          exact hrun

/-- **Arguments are put aside.** -/
lemma runs_spill (hkinds : us.map SlotType.kind? = args.map SlotType.kind?)
    (husable : ∀ u ∈ us, u.kind? ≠ none ∧ Analysis.settle u = u) (hfit : base.toNat + us.length ≤ L.size)
    (hsize : L.size < UInt32.size) (hmay : ∀ j, base.toNat ≤ j → j < L.size → may j) :
    Runs S may q ⟨L, us ++ ts⟩ (spill base args) ⟨setLocals base.toNat us L, ts⟩ :=
  runs_spillFrom (n := 0) hkinds husable hfit hsize hmay

lemma runs_reloadFrom (hkinds : us.map SlotType.kind? = args.map SlotType.kind?)
    (husable : ∀ u ∈ us, u.kind? ≠ none) (hL : ∀ k u, us[k]? = some u → L[base.toNat + n + k]? = some u)
    (hsize : L.size < UInt32.size) :
    Runs S may q ⟨L, ts⟩ ((args.zipIdx n).map fun x => Emit.loadOf x.1 (base + UInt32.ofNat x.2)).reverse
      ⟨L, us ++ ts⟩ := by
  induction us generalizing args q n with
  | nil =>
      obtain rfl : args = [] := by simpa using hkinds.symm
      exact .done
  | cons u us ih =>
      cases args with
      | nil => cases hkinds
      | cons v args =>
          obtain ⟨hkind, hkinds⟩ := List.cons.inj hkinds
          obtain ⟨hu, hus⟩ := List.forall_mem_cons.mp husable
          obtain ⟨k, hk⟩ := Option.ne_none_iff_exists'.mp hu
          have hat : L[base.toNat + n]? = some u := hL 0 u rfl
          have hindex := toNat_temporary base (k := n) (Array.getElem?_eq_some_iff.mp hat).1 hsize
          rw [List.zipIdx_cons, List.map_cons, List.reverse_cons]
          refine (ih (n := n + 1) hkinds hus fun j w hj => ?_).append_at fun q => ?_
          · have := hL (j + 1) w (by simpa using hj)
            rwa [show base.toNat + n + (j + 1) = base.toNat + (n + 1) + j by omega] at this
          · rw [Running.loadOf_eq (hkind.symm.trans hk)]
            exact runs_load (by rw [hindex]; exact hat) hk

/-- **Arguments come back.** -/
lemma runs_reload (hkinds : us.map SlotType.kind? = args.map SlotType.kind?)
    (husable : ∀ u ∈ us, u.kind? ≠ none) (hL : ∀ k u, us[k]? = some u → L[base.toNat + k]? = some u)
    (hsize : L.size < UInt32.size) : Runs S may q ⟨L, ts⟩ (reload base args) ⟨L, us ++ ts⟩ :=
  runs_reloadFrom (n := 0) hkinds husable hL hsize

end Plan

end Suspension
