import Mathlib.Tactic.Common
import Suspension.Instrument.Protection

/-!
# Labels and their positions

**A label is where its last mark stands.**  The index of labels is built in one pass; here it is
described by positions alone, and so is the way past a run of marks.

* `Code.labelAt?_eq_some_iff` — where a label is.
* `Code.skipMarks_le_iff` — an instruction that is no mark lies behind a label exactly when it lies
  behind the label's normalised position.
* `Code.toNat_lt_nextLabel`, `Code.lt_nextLabel_iff` — the next free label is above all labels in use,
  unless it has wrapped.
-/

namespace Suspension

namespace Code

/-- The label that a position marks. -/
def markAt? (code : Code) (i : Nat) : Option Label := code[i]?.bind Instruction.markedLabel?

/-- The marks of an index are those of its list, or those it was begun with. -/
lemma lookup_indexFrom (l : List Instruction) (id : Label) (p : Nat) :
    ∀ (i : Nat) (acc : List (Label × Nat)), (indexFrom l i acc).lookup id = some p ↔
      (∃ k : Nat, p = i + k ∧ l[k]?.bind Instruction.markedLabel? = some id ∧
        ∀ k' : Nat, k < k' → l[k']?.bind Instruction.markedLabel? ≠ some id) ∨
      ((∀ k : Nat, l[k]?.bind Instruction.markedLabel? ≠ some id) ∧ acc.lookup id = some p) := by
  induction l with
  | nil => simp [indexFrom]
  | cons instr l ih =>
      intro i acc
      -- later marks decide; the first instruction counts only if there is none
      have hstep : (indexFrom (instr :: l) i acc).lookup id = some p ↔
          (∃ k : Nat, p = i + (k + 1) ∧ l[k]?.bind Instruction.markedLabel? = some id ∧
            ∀ k' : Nat, k < k' → l[k']?.bind Instruction.markedLabel? ≠ some id) ∨
          ((∀ k : Nat, l[k]?.bind Instruction.markedLabel? ≠ some id) ∧
            ((instr.markedLabel? = some id ∧ p = i)
              ∨ (instr.markedLabel? ≠ some id ∧ acc.lookup id = some p))) := by
        cases hm : instr.markedLabel? with
        | none =>
            simp only [indexFrom, hm, ih]
            simp [Nat.add_assoc, Nat.add_comm 1]
        | some id' =>
            simp only [indexFrom, hm, ih, List.lookup_cons]
            by_cases hid : id = id'
            · subst hid
              simp [Nat.add_assoc, Nat.add_comm 1, eq_comm]
            · have hid' : (id == id') = false := by simp [hid]
              simp [hid', Nat.add_assoc, Nat.add_comm 1, Ne.symm hid]
      rw [hstep]
      constructor
      · rintro (⟨k, hp, hk, hlast⟩ | ⟨hnone, ⟨hfirst, rfl⟩ | ⟨hfirst, hacc⟩⟩)
        · refine Or.inl ⟨k + 1, hp, by simpa using hk, fun k' hk' => ?_⟩
          cases k' with
          | zero => omega
          | succ k' => simpa using hlast k' (by omega)
        · refine Or.inl ⟨0, rfl, by simpa using hfirst, fun k' hk' => ?_⟩
          cases k' with
          | zero => omega
          | succ k' => simpa using hnone k'
        · refine Or.inr ⟨fun k => ?_, hacc⟩
          cases k with
          | zero => simpa using hfirst
          | succ k => simpa using hnone k
      · rintro (⟨k, hp, hk, hlast⟩ | ⟨hnone, hacc⟩)
        · cases k with
          | zero =>
              refine Or.inr ⟨fun k => ?_, Or.inl ⟨by simpa using hk, hp⟩⟩
              simpa using hlast (k + 1) (by omega)
          | succ k =>
              refine Or.inl ⟨k, hp, by simpa using hk, fun k' hk' => ?_⟩
              simpa using hlast (k' + 1) (by omega)
        · refine Or.inr ⟨fun k => by simpa using hnone (k + 1), Or.inr ⟨by simpa using hnone 0, hacc⟩⟩

/-- **Where a label is**: at the last position that marks it. -/
lemma labelAt?_eq_some_iff {code : Code} {id : Label} {i : Nat} :
    code.labelAt? id = some i ↔
      code.markAt? i = some id ∧ ∀ k, i < k → code.markAt? k ≠ some id := by
  unfold labelAt? labelIndex markAt?
  rw [lookup_indexFrom]
  simp

lemma lt_size_of_markAt? {code : Code} {id : Label} {i : Nat} (h : code.markAt? i = some id) :
    i < code.size := by
  unfold markAt? at h
  by_contra hge
  rw [Array.getElem?_eq_none (by omega)] at h
  simp at h

/-- The position of a label is one of the body. -/
lemma labelAt?_lt {code : Code} {id : Label} {i : Nat} (h : code.labelAt? id = some i) :
    i < code.size :=
  lt_size_of_markAt? (labelAt?_eq_some_iff.mp h).1

/-! ## Normalised positions -/

/-- The instruction at a position is a mark. -/
def MarkAt (code : Code) (i : Nat) : Prop := ∃ instr, code[i]? = some instr ∧ instr.isMark = true

lemma markAt_of_markAt? {code : Code} {id : Label} {i : Nat} (h : code.markAt? i = some id) :
    code.MarkAt i := by
  unfold markAt? at h
  obtain ⟨instr, hi, hm⟩ := Option.bind_eq_some_iff.mp h
  refine ⟨instr, hi, ?_⟩
  unfold Instruction.markedLabel? at hm
  split at hm
  · next hop _ => simp [Instruction.isMark, hop]
  · cases hm

/-- **Past the marks**: between a position and its normal form there are only marks. -/
lemma markAt_of_lt_skipMarks {code : Code} {i k : Nat} (hik : i ≤ k) (hk : k < code.skipMarks i) :
    code.MarkAt k := by
  obtain ⟨d, rfl⟩ := Nat.exists_eq_add_of_le hik
  unfold skipMarks at hk
  have hd : d < ((code.toList.drop i).takeWhile Instruction.isMark).length := by omega
  have hall := List.all_eq_true.mp
    (List.all_takeWhile (p := Instruction.isMark) (l := code.toList.drop i))
  have hpre := List.takeWhile_prefix Instruction.isMark (l := code.toList.drop i)
  refine ⟨_, ?_, hall _ (List.getElem_mem hd)⟩
  rw [hpre.getElem hd, ← Array.getElem?_toList, ← List.getElem?_drop]
  exact List.getElem?_eq_getElem _

/-- **An instruction that is no mark** lies behind a mark exactly when it lies behind the mark's
normalised position. -/
lemma skipMarks_le_iff {code : Code} {i j : Nat} (hj : ¬ code.MarkAt j) :
    code.skipMarks i ≤ j ↔ i ≤ j := by
  constructor
  · intro h
    exact Nat.le_trans (Nat.le_add_right _ _) h
  · intro hij
    by_contra hlt
    exact hj (markAt_of_lt_skipMarks hij (by omega))

/-! ## Labels in use -/

/-- The labels that a body or its ranges mention. -/
def labelsInUse (code : Code) (ranges : List ExceptionRange) : List Label :=
  code.toList.flatMap mentioned ++ ranges.flatMap rangeLabels

/-- **The next free label is above all labels in use**, as long as none of them is the last one. -/
lemma toNat_lt_foldl_bump (seen : List Label) (next : Label)
    (hfit : ∀ id ∈ seen, id.toNat + 1 < UInt32.size) :
    next.toNat ≤ (seen.foldl bump next).toNat ∧
      ∀ id ∈ seen, id.toNat < (seen.foldl bump next).toNat := by
  induction seen generalizing next with
  | nil => simp
  | cons id seen ih =>
      obtain ⟨hle, hall⟩ := ih (bump next id) (fun x hx => hfit x (List.mem_cons_of_mem _ hx))
      have hid : (id + 1).toNat = id.toNat + 1 := by
        have := hfit id (List.mem_cons_self)
        rw [UInt32.toNat_add]
        exact Nat.mod_eq_of_lt (by simpa using this)
      have hbump : next.toNat ≤ (bump next id).toNat ∧ id.toNat < (bump next id).toNat := by
        unfold bump
        split
        · next h =>
            rw [UInt32.le_iff_toNat_le] at h
            omega
        · next h =>
            rw [UInt32.le_iff_toNat_le] at h
            omega
      rw [List.foldl_cons]
      refine ⟨by omega, fun x hx => ?_⟩
      rcases List.mem_cons.mp hx with rfl | hx
      · omega
      · exact hall x hx

lemma toNat_lt_nextLabel {code : Code} {ranges : List ExceptionRange}
    (hfit : ∀ id ∈ labelsInUse code ranges, id.toNat + 1 < UInt32.size) :
    ∀ id ∈ labelsInUse code ranges, id.toNat < (code.nextLabel ranges).toNat :=
  (toNat_lt_foldl_bump (labelsInUse code ranges) 0 hfit).2

/-- The last of all labels. -/
def lastLabel : Label := 4294967295

lemma toNat_succ_lt_iff {id : Label} : id.toNat + 1 < UInt32.size ↔ id ≠ lastLabel := by
  have hlt := id.toNat_lt
  have hlast : lastLabel.toNat = 4294967295 := rfl
  rw [Ne, ← UInt32.toNat_inj, hlast]
  simp only [UInt32.size]
  omega

/-- **The next free label is above all labels in use exactly if the last one is free.**  No label is above
that one, and counting on behind it starts from the first label again. -/
lemma lt_nextLabel_iff {code : Code} {ranges : List ExceptionRange} :
    (∀ id ∈ labelsInUse code ranges, id < code.nextLabel ranges) ↔
      lastLabel ∉ labelsInUse code ranges := by
  constructor
  · intro hall hlast
    have habove : lastLabel.toNat < (code.nextLabel ranges).toNat := hall lastLabel hlast
    have hlt := (code.nextLabel ranges).toNat_lt
    have hsize : lastLabel.toNat = 4294967295 := rfl
    omega
  · intro hfree id hid
    refine toNat_lt_nextLabel (fun id' hid' => toNat_succ_lt_iff.mpr ?_) id hid
    rintro rfl
    exact hfree hid'

end Code

end Suspension
