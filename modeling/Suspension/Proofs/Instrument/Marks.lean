import Suspension.Proofs.Instrument.Layout

/-!
# Labels of a transformed body

A transformed body marks the labels of the method at the segments of their marks, and some fresh
labels of its own.  As long as the fresh labels do not wrap, **every label has its mark in exactly one
place**, or, for a label of the method that is marked twice, in the places of its marks.

* `Plan.LabelsFit` — the fresh labels do not wrap.
* `Plan.Marked` — the marks of a transformed body, `Plan.Lays.markAt?_eq_some_iff` — there are no others.
* `Plan.Lays.labelAt?_user`, `Plan.Lays.labelAt?_fresh` — where labels are.
* `Code.nextLabel_fresh` — when the fresh labels are none of the method's, `Code.nextLabel_not_fresh` — a
  loop whose label is taken a second time.
-/

namespace Suspension

/-! ## Code without marks -/

/-- No instruction of a list is a mark. -/
def Unmarked (l : List Instruction) : Prop := ∀ i ∈ l, i.opcode ≠ .label

namespace Unmarked

variable {l l' : List Instruction}

lemma nil : Unmarked [] := fun i hi => by simp at hi

lemma append (h : Unmarked l) (h' : Unmarked l') : Unmarked (l ++ l') := by
  intro i hi
  rcases List.mem_append.mp hi with hi | hi
  · exact h i hi
  · exact h' i hi

lemma cons {i : Instruction} (hi : i.opcode ≠ .label) (h : Unmarked l) : Unmarked (i :: l) := by
  intro j hj
  rcases List.mem_cons.mp hj with rfl | hj
  · exact hi
  · exact h j hj

lemma flatMap {α : Type} {xs : List α} {f : α → List Instruction} (h : ∀ x ∈ xs, Unmarked (f x)) :
    Unmarked (xs.flatMap f) := by
  intro i hi
  obtain ⟨x, hx, hi⟩ := List.mem_flatMap.mp hi
  exact h x hx i hi

/-- Where there are no marks no label is marked. -/
lemma markedLabel? {i : Instruction} (h : Unmarked l) (hi : i ∈ l) : i.markedLabel? = none := by
  have := h i hi
  unfold Instruction.markedLabel?
  split
  · next hop _ => exact absurd hop this
  · rfl

end Unmarked

namespace Emit

lemma opcode_loadOf (v : SlotType) (n : UInt32) : (loadOf v n).opcode ≠ .label := by
  unfold loadOf Instruction.slot
  cases v <;> simp [SlotType.kind?]

lemma opcode_storeOf (v : SlotType) (n : UInt32) : (storeOf v n).opcode ≠ .label := by
  unfold storeOf Instruction.slot
  cases v <;> simp [SlotType.kind?]

lemma unmarked_put (S : UInt32) (k : Kind) (i : Nat) : Unmarked (put S k i) := by
  simp [Unmarked, put, Instruction.slot, Instruction.int, Instruction.member]

lemma unmarked_get (S : UInt32) (v : SlotType) (k : Kind) (i : Nat) : Unmarked (get S v k i) := by
  unfold get
  refine Unmarked.append ?_ ?_
  · simp [Unmarked, Instruction.slot, Instruction.int, Instruction.member]
  · split
    · simp [Unmarked, Instruction.type]
    · exact .nil

lemma unmarked_saveSlot (S : UInt32) (v : SlotType) (keep : Keep) :
    Unmarked (saveSlot S v keep) := by
  unfold saveSlot
  split
  · exact .nil
  · simp [Unmarked, Instruction.plain]
  · split
    · exact unmarked_put S _ _
    · exact .nil

lemma unmarked_restoreSlot (S : UInt32) (v : SlotType) (keep : Keep) :
    Unmarked (restoreSlot S v keep) := by
  unfold restoreSlot
  split
  · exact .nil
  · split
    · simp [Unmarked, Instruction.plain]
    · split
      · exact unmarked_get S v _ _
      · exact .nil

lemma unmarked_saveLocal (S : UInt32) (n : Nat) (v : SlotType) (keep : Keep) :
    Unmarked (saveLocal S n v keep) := by
  unfold saveLocal
  split
  · exact (unmarked_put S _ _).cons (opcode_loadOf v _)
  · exact .nil

lemma unmarked_restoreLocal (S : UInt32) (n : Nat) (v : SlotType) (keep : Keep) :
    Unmarked (restoreLocal S n v keep) := by
  unfold restoreLocal
  split
  · simp [Unmarked, Instruction.plain, Instruction.slot]
  · split
    · exact (unmarked_get S v _ _).append (Unmarked.nil.cons (opcode_storeOf v _))
    · exact .nil

lemma unmarked_locals {f : Nat → SlotType → Keep → List Instruction}
    (hf : ∀ n v keep, Unmarked (f n v keep)) (n : Nat) (slots : List (SlotType × Keep)) :
    Unmarked (locals f n slots) := by
  induction slots generalizing n with
  | nil => exact .nil
  | cons slot slots ih =>
      obtain ⟨v, keep⟩ := slot
      exact (hf n v keep).append (ih (n + 1))

/-- **Saving a frame marks no label.** -/
lemma unmarked_save (S : UInt32) (pt : SuspensionPoint) : Unmarked (save S pt) := by
  unfold save
  refine (Unmarked.append ?_ ?_).append ?_
  · simp [Unmarked, Instruction.slot, Instruction.int, Instruction.member, pushMethod]
  · exact .flatMap fun _ _ => unmarked_saveSlot S _ _
  · exact unmarked_locals (unmarked_saveLocal S) 0 _

/-- **Restoring a frame marks no label.** -/
lemma unmarked_restore (S : UInt32) (skip : Nat) (pt : SuspensionPoint) :
    Unmarked (restore S skip pt) :=
  (unmarked_locals (unmarked_restoreLocal S) skip _).append
    (.flatMap fun _ _ => unmarked_restoreSlot S _ _)

end Emit

namespace Plan

variable {p : Plan}

/-! ## Redone constructions -/

lemma constructor?_eq_some {instr : Instruction} {m : Member} (h : constructor? instr = some m) :
    instr.opcode = .invoke .special ∧ instr.operand = .member m
      ∧ m.name = Text.ofString "<init>" := by
  unfold constructor? at h
  split at h
  · next hop ho =>
      split at h
      · next hname =>
          cases h
          exact ⟨hop, ho, by simpa using hname⟩
      · cases h
  · cases h

/-- **A construction that is redone in front of its constructor call**: under the arguments lie the
copy and the reference of `new`, of a construction that some point leaves out. -/
structure Redoes (p : Plan) (i : Nat) (instr : Instruction) (d : Deferral) (m : Member) (f : Frame)
    (cls cls' : Text) (dupAt : Nat) (rest : List SlotType) : Prop where
  constructor : constructor? instr = some m
  frame_at : p.subject.types.frames[i]? = some (some f)
  omitted : p.isOmitted d.site.newAt = true
  site : d.site ∈ p.subject.types.sites
  dup_at : d.site.dupAt = some dupAt
  create : d.create = p.code.getD d.site.newAt default
  copy : d.copy = p.code.getD dupAt default
  args : d.args.length = (Descriptor.argCount m.desc).toNat
  stack : f.stack = d.args ++ .pending d.site.newAt cls true :: .pending d.site.newAt cls' false :: rest

lemma deferral?_eq_some {i : Nat} {instr : Instruction} {d : Deferral}
    (h : p.deferral? i instr = .ok (some d)) :
    ∃ m f cls cls' dupAt rest, p.Redoes i instr d m f cls cls' dupAt rest := by
  unfold deferral? at h
  split at h
  case h_2 => cases h
  next m f hm hf =>
  simp only at h
  split at h
  case h_2 => cases h
  next newAt cls copied below hdrop =>
  split at h
  · cases h
  next homit =>
  split at h
  · cases h
  next site hsite =>
  split at h
  case h_2 => cases h
  next dupAt newAt' cls' rest hdup =>
  split at h
  case isFalse => cases h
  next hpair =>
  cases h
  have hmem := List.mem_of_find?_eq_some hsite
  have hn : site.newAt = newAt := by simpa using List.find?_some hsite
  simp only [Bool.and_eq_true, beq_iff_eq] at hpair
  obtain ⟨rfl, rfl⟩ := hpair
  have hlen : (Descriptor.argCount m.desc).toNat ≤ f.stack.length := by
    by_contra hlt
    rw [List.drop_eq_nil_of_le (by omega)] at hdrop
    cases hdrop
  refine ⟨m, f, cls, cls', dupAt, rest, hm, Option.join_eq_some_iff.mp hf, ?_, hmem, hdup, ?_, rfl,
    ?_, ?_⟩
  · simpa [hn] using homit
  · simp [hn]
  · simp [hlen]
  · conv_lhs => rw [← List.take_append_drop (Descriptor.argCount m.desc).toNat f.stack]
    rw [hdrop, hn]

/-- Its `new` and its `dup` are those of the body. -/
lemma Redoes.instructions (hp : p.Sound) {i dupAt : Nat} {instr : Instruction} {d : Deferral}
    {m : Member} {f : Frame} {cls cls' : Text} {rest : List SlotType}
    (h : p.Redoes i instr d m f cls cls' dupAt rest) :
    d.create = ⟨.new, .type d.site.cls⟩ ∧ d.copy.opcode = .dup := by
  have hnew := hp.sites.new_at d.site h.site
  obtain ⟨copy, hcopy, hop⟩ := hp.sites.dup_at d.site h.site dupAt h.dup_at
  rw [h.create, h.copy, Array.getD_eq_getD_getElem?, Array.getD_eq_getD_getElem?, hnew, hcopy]
  exact ⟨rfl, hop⟩

/-- There are temporaries for the arguments of every construction that is redone. -/
lemma args_le_temporaries {l : List Instruction} {i k : Nat} {instr : Instruction} {d : Deferral}
    (hk : l[k]? = some instr) (hd : p.deferral? (i + k) instr = .ok (some d)) :
    d.args.length ≤ p.temporaries i l := by
  induction l generalizing i k with
  | nil => simp at hk
  | cons instr' l ih =>
      unfold temporaries
      cases k with
      | zero =>
          cases hk
          rw [Nat.add_zero] at hd
          simp only [hd]
          exact Nat.le_max_left _ _
      | succ k =>
          refine Nat.le_trans (ih (by simpa using hk) ?_) (Nat.le_max_right _ _)
          rw [Nat.add_assoc, Nat.add_comm 1]
          exact hd

lemma unmarked_spill (base : UInt32) (args : List SlotType) : Unmarked (spill base args) := by
  intro i hi
  obtain ⟨⟨v, k⟩, -, rfl⟩ := List.mem_map.mp hi
  exact Emit.opcode_storeOf v _

lemma unmarked_reload (base : UInt32) (args : List SlotType) : Unmarked (reload base args) := by
  intro i hi
  obtain ⟨⟨v, k⟩, -, rfl⟩ := List.mem_map.mp (List.mem_reverse.mp hi)
  exact Emit.opcode_loadOf v _

lemma unmarked_emit (hp : p.Sound) {i : Nat} {instr : Instruction} {d : Deferral}
    (h : p.deferral? i instr = .ok (some d)) (base : UInt32) : Unmarked (d.emit base instr) := by
  obtain ⟨m, f, cls, cls', dupAt, rest, hr⟩ := deferral?_eq_some h
  obtain ⟨hcreate, hcopy⟩ := hr.instructions hp
  obtain ⟨hop, -, -⟩ := constructor?_eq_some hr.constructor
  unfold Deferral.emit
  refine (((unmarked_spill base d.args).append ?_).append (unmarked_reload base d.args)).append ?_
  · exact (Unmarked.nil.cons (by rw [hcopy]; simp)).cons (by rw [hcreate]; simp)
  · exact Unmarked.nil.cons (by rw [hop]; simp)

/-! ## Segments -/

/-- What is dropped is a `new` or a `dup`. -/
lemma Sound.dropped (hp : p.Sound) {i : Nat} (h : p.isDropped i = true) :
    ∃ instr, p.code[i]? = some instr ∧ (instr.opcode = .new ∨ instr.opcode = .dup) := by
  obtain ⟨s, hs, hi⟩ := List.any_eq_true.mp h
  simp only [Bool.and_eq_true, Bool.or_eq_true, beq_iff_eq] at hi
  rcases hi.2 with rfl | hd
  · exact ⟨_, hp.sites.new_at s hs, Or.inl rfl⟩
  · obtain ⟨instr, hinstr, hop⟩ := hp.sites.dup_at s hs i hd
    exact ⟨instr, hinstr, Or.inr hop⟩

/-- The call of a point is no mark, and neither is its position. -/
lemma Sound.point_call (hp : p.Sound) {n : Nat} {pt : SuspensionPoint}
    (h : p.points[n]? = some pt) :
    ∃ instr mode, p.code[pt.position]? = some instr ∧ instr.opcode = .invoke mode
      ∧ ∃ mode', pt.call.opcode = .invoke mode' := by
  obtain ⟨instr, m, hcode, hcallee, hcall, -⟩ := (hp.found pt (List.mem_of_getElem? h)).call
  unfold Instruction.callee? at hcallee
  split at hcallee
  case h_2 => cases hcallee
  next mode m' hop ho =>
  refine ⟨instr, mode, hcode, hop, ?_⟩
  rcases hcall with hcall | ⟨-, hcall⟩
  · exact ⟨mode, hcall ▸ hop⟩
  · exact ⟨.static, by rw [hcall]; rfl⟩

lemma Sound.not_markAt_point (hp : p.Sound) {n : Nat} {pt : SuspensionPoint}
    (h : p.points[n]? = some pt) : ¬ p.code.MarkAt pt.position := by
  rintro ⟨instr, hi, hm⟩
  obtain ⟨instr', mode, hi', hop, -⟩ := hp.point_call h
  rw [hi] at hi'
  cases hi'
  simp [Instruction.isMark, hop] at hm

/-- **What the segment of an instruction is.** -/
inductive Segment (p : Plan) (i : Nat) (instr : Instruction) : List Instruction → Prop where
  | point {pt : SuspensionPoint} {n : Nat} (hpt : p.points[n]? = some pt)
      (hpos : pt.position = i) : Segment p i instr (p.pointImage pt n)
  | dropped (hpt : p.pointAt? i = none) (hd : p.isDropped i = true) : Segment p i instr []
  | returns (hpt : p.pointAt? i = none) (hd : p.isDropped i = false)
      (hret : instr.opcode.isReturn = true) :
      Segment p i instr [.slot (.load .ref) p.stackVar, Emit.popMethod, instr]
  | plain (hpt : p.pointAt? i = none) (hd : p.isDropped i = false)
      (hret : instr.opcode.isReturn = false) (hdef : p.deferral? i instr = .ok none) :
      Segment p i instr [instr]
  | redone {d : Deferral} (hpt : p.pointAt? i = none) (hd : p.isDropped i = false)
      (hret : instr.opcode.isReturn = false) (hdef : p.deferral? i instr = .ok (some d)) :
      Segment p i instr (d.emit (p.stackVar + 1) instr)

lemma Sound.segment_cases (hp : p.Sound) {i : Nat} {instr : Instruction}
    (hi : p.code[i]? = some instr) : p.Segment i instr (p.segmentAt i) := by
  have hseg := hp.segments i instr hi
  generalize p.segmentAt i = l at hseg
  cases hpt : p.pointAt? i with
  | some x =>
      obtain ⟨pt, n⟩ := x
      obtain ⟨hn, hpos⟩ := pointAt?_eq_some hpt
      simp only [segment, hpt] at hseg
      cases hseg
      exact .point hn hpos
  | none =>
      simp only [segment, hpt, image] at hseg
      by_cases hd : p.isDropped i = true
      · rw [if_pos hd] at hseg
        cases hseg
        exact .dropped hpt hd
      · rw [if_neg hd] at hseg
        have hd : p.isDropped i = false := by simpa using hd
        by_cases hret : instr.opcode.isReturn = true
        · rw [if_pos hret] at hseg
          cases hseg
          exact .returns hpt hd hret
        · rw [if_neg hret] at hseg
          have hret : instr.opcode.isReturn = false := by simpa using hret
          split at hseg
          · cases hseg
          · next hdef =>
              cases hseg
              exact .plain hpt hd hret hdef
          · next d hdef =>
              cases hseg
              exact .redone hpt hd hret hdef

/-- The segment of a point. -/
lemma Sound.segmentAt_point (hp : p.Sound) {n : Nat} {pt : SuspensionPoint}
    (h : p.points[n]? = some pt) :
    pt.position < p.code.size ∧ p.segmentAt pt.position = p.pointImage pt n := by
  obtain ⟨instr, _, hcode, -⟩ := hp.point_call h
  have hseg := hp.segments _ _ hcode
  simp only [segment, hp.pointAt?_position h] at hseg
  exact ⟨(Array.getElem?_eq_some_iff.mp hcode).1, (Except.ok.inj hseg).symm⟩

/-- **A segment without a point marks what its instruction marks.** -/
lemma Sound.segment_marks (hp : p.Sound) {i : Nat} {instr : Instruction}
    (hi : p.code[i]? = some instr) (hpt : p.pointAt? i = none) :
    (instr.opcode = .label ∧ p.segmentAt i = [instr]) ∨
      (instr.opcode ≠ .label ∧ Unmarked (p.segmentAt i)) := by
  have hseg := hp.segment_cases hi
  generalize p.segmentAt i = l at hseg
  cases hseg with
  | point h hpos =>
      have := hp.pointAt?_position h
      rw [hpos, hpt] at this
      cases this
  | dropped _ hd =>
      obtain ⟨instr', hi', hop⟩ := hp.dropped hd
      rw [hi] at hi'
      cases hi'
      refine Or.inr ⟨?_, .nil⟩
      rcases hop with h | h <;> simp [h]
  | returns _ _ hret =>
      have hop : instr.opcode ≠ .label := by
        intro h
        simp [h, Opcode.isReturn] at hret
      refine Or.inr ⟨hop, ?_⟩
      refine ((Unmarked.nil.cons hop).cons ?_).cons ?_
      · simp [Emit.popMethod, Instruction.member]
      · simp [Instruction.slot]
  | plain _ _ _ hdef =>
      by_cases hop : instr.opcode = .label
      · exact Or.inl ⟨hop, rfl⟩
      · exact Or.inr ⟨hop, Unmarked.nil.cons hop⟩
  | redone _ _ _ hdef =>
      obtain ⟨m, f, cls, cls', dupAt, rest, hr⟩ := deferral?_eq_some hdef
      obtain ⟨hop, -, -⟩ := constructor?_eq_some hr.constructor
      exact Or.inr ⟨by simp [hop], unmarked_emit hp hdef _⟩

/-! ## Marks -/

/-- How far the label to resume at is from the beginning of a point's segment. -/
def resumeOffset (p : Plan) (pt : SuspensionPoint) : Nat :=
  1 + (Emit.save p.stackVar pt).length + (if pt.isYield then 2 else 0)

/-- How far the label behind the saved region is from the beginning of a point's segment. -/
def afterOffset (p : Plan) (pt : SuspensionPoint) : Nat :=
  p.resumeOffset pt + 1 + (Emit.restore p.stackVar p.subject.firstLocal pt).length

/-- The parts of a point's segment. -/
lemma pointImage_eq (p : Plan) (pt : SuspensionPoint) (n : Nat) :
    ∃ save restore call, Unmarked save ∧ Unmarked restore
      ∧ call = (if pt.isYield then [] else [pt.call])
      ∧ save.length + 1 = p.resumeOffset pt
      ∧ p.resumeOffset pt + 1 + restore.length = p.afterOffset pt
      ∧ p.pointImage pt n = .mark (p.beforeLabel n) :: (save ++ .mark (p.callLabel n)
          :: (restore ++ .mark (p.afterLabel n) :: call)) := by
  refine ⟨Emit.save p.stackVar pt ++ (if pt.isYield then [Emit.signal, .plain .throw] else []),
    Emit.restore p.stackVar p.subject.firstLocal pt, _, ?_, Emit.unmarked_restore _ _ _, rfl, ?_, ?_, ?_⟩
  · refine (Emit.unmarked_save _ _).append ?_
    split
    · simp [Unmarked, Emit.signal, Instruction.member, Instruction.plain]
    · exact .nil
  · simp only [resumeOffset, List.length_append]
    split <;> simp <;> omega
  · rfl
  · simp [pointImage]

/-- The length of a point's segment. -/
lemma length_pointImage (p : Plan) (pt : SuspensionPoint) (n : Nat) :
    (p.pointImage pt n).length = p.afterOffset pt + 1 + (if pt.isYield then 0 else 1) := by
  obtain ⟨save, restore, call, -, -, hcall, hs, hr, himage⟩ := p.pointImage_eq pt n
  rw [himage, hcall]
  simp only [List.length_cons, List.length_append]
  split <;> simp <;> omega

/-- **The marks of a transformed body.** -/
inductive Marked (p : Plan) : Nat → Label → Prop where
  | user {i : Nat} {id : Label} (h : p.code.markAt? i = some id) : Marked p (p.place i) id
  | before {n : Nat} {pt : SuspensionPoint} (h : p.points[n]? = some pt) :
      Marked p (p.place pt.position) (p.beforeLabel n)
  | resume {n : Nat} {pt : SuspensionPoint} (h : p.points[n]? = some pt) :
      Marked p (p.place pt.position + p.resumeOffset pt) (p.callLabel n)
  | after {n : Nat} {pt : SuspensionPoint} (h : p.points[n]? = some pt) :
      Marked p (p.place pt.position + p.afterOffset pt) (p.afterLabel n)
  | start : Marked p 5 p.startLabel
  | stop : Marked p (p.place p.code.size) p.endLabel
  | catchAll : Marked p (p.place p.code.size + 1) p.catchAllLabel
  | catchSignal : Marked p (p.place p.code.size + 4) p.catchSignalLabel

/-- The labels that a point's segment marks. -/
lemma marks_pointImage (hp : p.Sound) {n k : Nat} {pt : SuspensionPoint} {id : Label}
    (hpt : p.points[n]? = some pt)
    (h : (p.pointImage pt n)[k]?.bind Instruction.markedLabel? = some id) :
    (k = 0 ∧ id = p.beforeLabel n) ∨ (k = p.resumeOffset pt ∧ id = p.callLabel n) ∨
      (k = p.afterOffset pt ∧ id = p.afterLabel n) := by
  obtain ⟨save, restore, call, hsave, hrestore, hcall, hs, hr, himage⟩ := p.pointImage_eq pt n
  obtain ⟨_, _, -, -, mode', hop⟩ := hp.point_call hpt
  have hcallu : Unmarked call := by
    rw [hcall]
    split
    · exact .nil
    · exact Unmarked.nil.cons (by simp [hop])
  rw [himage] at h
  obtain ⟨instr, hat, hm⟩ := Option.bind_eq_some_iff.mp h
  have hnot : ∀ {l : List Instruction}, Unmarked l → ∀ {j : Nat}, l[j]? = some instr → False := by
    intro l hl j hj
    have := hl.markedLabel? (List.mem_of_getElem? hj)
    rw [this] at hm
    cases hm
  rcases k with _ | k
  · simp only [List.getElem?_cons_zero, Option.some.injEq] at hat
    subst hat
    cases hm
    exact Or.inl ⟨rfl, rfl⟩
  rw [List.getElem?_cons_succ] at hat
  by_cases h₁ : k < save.length
  · rw [List.getElem?_append_left h₁] at hat
    exact (hnot hsave hat).elim
  rw [List.getElem?_append_right (by omega)] at hat
  rcases hk : k - save.length with _ | k'
  · rw [hk] at hat
    simp only [List.getElem?_cons_zero, Option.some.injEq] at hat
    subst hat
    cases hm
    exact Or.inr (Or.inl ⟨by omega, rfl⟩)
  rw [hk, List.getElem?_cons_succ] at hat
  by_cases h₂ : k' < restore.length
  · rw [List.getElem?_append_left h₂] at hat
    exact (hnot hrestore hat).elim
  rw [List.getElem?_append_right (by omega)] at hat
  rcases hk' : k' - restore.length with _ | k''
  · rw [hk'] at hat
    simp only [List.getElem?_cons_zero, Option.some.injEq] at hat
    subst hat
    cases hm
    exact Or.inr (Or.inr ⟨by omega, rfl⟩)
  · rw [hk', List.getElem?_cons_succ] at hat
    exact (hnot hcallu hat).elim

/-- A mark at a position of a list that stands in a body. -/
lemma markAt?_of_has {code : Code} {q k : Nat} {l : List Instruction} {id : Label}
    (h : code.Has q l) (hk : l[k]? = some (.mark id)) : code.markAt? (q + k) = some id := by
  have hlt : k < l.length := (List.getElem?_eq_some_iff.mp hk).1
  unfold Code.markAt?
  rw [h k hlt, hk]
  rfl

/-- **The marks of a transformed body are there.** -/
lemma Lays.markAt? {nm : Method} (hl : p.Lays nm) (hp : p.Sound) {q : Nat} {id : Label}
    (h : p.Marked q id) : nm.code.markAt? q = some id := by
  have hpoint : ∀ {n : Nat} {pt : SuspensionPoint}, p.points[n]? = some pt →
      nm.code.Has (p.place pt.position) (p.pointImage pt n) := by
    intro n pt hpt
    obtain ⟨hlt, hseg⟩ := hp.segmentAt_point hpt
    exact hseg ▸ hl.segment pt.position hlt
  cases h with
  | user hm =>
      next i =>
      have hmark := Code.markAt_of_markAt? hm
      obtain ⟨instr, hi, hlabel⟩ := hmark
      have hop : instr.opcode = .label := by simpa [Instruction.isMark] using hlabel
      have hlt : i < p.code.size := (Array.getElem?_eq_some_iff.mp hi).1
      have hpt : p.pointAt? i = none := by
        cases hpt : p.pointAt? i with
        | none => rfl
        | some x =>
            obtain ⟨pt, n⟩ := x
            obtain ⟨hn, hpos⟩ := pointAt?_eq_some hpt
            obtain ⟨instr', mode, hi', hop', -⟩ := hp.point_call hn
            rw [hpos, hi] at hi'
            cases hi'
            rw [hop] at hop'
            cases hop'
      rcases hp.segment_marks hi hpt with ⟨-, hseg⟩ | ⟨hne, -⟩
      · have := hl.segment i hlt 0 (by simp [hseg])
        rw [hseg, Nat.add_zero] at this
        unfold Code.markAt? at hm ⊢
        rw [this]
        rw [hi] at hm
        exact hm
      · exact absurd hop hne
  | before hpt => exact markAt?_of_has (hpoint hpt) (k := 0) rfl
  | resume hpt =>
      obtain ⟨save, restore, call, -, -, -, hs, -, himage⟩ := p.pointImage_eq _ _
      refine markAt?_of_has (hpoint hpt) ?_
      rw [himage, ← hs, List.getElem?_cons_succ, List.getElem?_append_right (by omega)]
      simp
  | after hpt =>
      obtain ⟨save, restore, call, -, -, -, hs, hr, himage⟩ := p.pointImage_eq _ _
      refine markAt?_of_has (hpoint hpt) ?_
      rw [himage, ← hr, ← hs, Nat.add_right_comm, List.getElem?_cons_succ,
        List.getElem?_append_right (by omega)]
      have : save.length + 1 + restore.length - save.length = restore.length + 1 := by omega
      rw [this, List.getElem?_cons_succ, List.getElem?_append_right (by omega)]
      simp
  | start => simpa using markAt?_of_has hl.prologue (k := 5) rfl
  | stop => exact markAt?_of_has hl.epilogue (k := 0) rfl
  | catchAll => exact markAt?_of_has hl.epilogue (k := 1) rfl
  | catchSignal => exact markAt?_of_has hl.epilogue (k := 4) rfl

/-- **There are no other marks in a transformed body.** -/
lemma Lays.marked {nm : Method} (hl : p.Lays nm) (hp : p.Sound) {q : Nat} {id : Label}
    (h : nm.code.markAt? q = some id) : p.Marked q id := by
  have hq := Code.lt_size_of_markAt? h
  unfold Code.markAt? at h
  rcases hl.locate hq with hpro | ⟨i, k, hi, hk, rfl⟩ | ⟨k, hk, rfl⟩
  · have hat := hl.prologue q (by simpa using hpro)
    rw [Nat.zero_add] at hat
    rw [hat] at h
    have : q = 0 ∨ q = 1 ∨ q = 2 ∨ q = 3 ∨ q = 4 ∨ q = 5 := by omega
    rcases this with rfl | rfl | rfl | rfl | rfl | rfl
    all_goals first
      | (cases h; exact .start)
      | cases h
  · have hcode : p.code[i]? = some p.code[i] := Array.getElem?_eq_getElem hi
    rw [hl.segment i hi k hk] at h
    cases hpt : p.pointAt? i with
    | some x =>
        obtain ⟨pt, n⟩ := x
        obtain ⟨hn, rfl⟩ := pointAt?_eq_some hpt
        rw [(hp.segmentAt_point hn).2] at h
        rcases marks_pointImage hp hn h with ⟨rfl, rfl⟩ | ⟨rfl, rfl⟩ | ⟨rfl, rfl⟩
        · exact .before hn
        · exact .resume hn
        · exact .after hn
    | none =>
        rcases hp.segment_marks hcode hpt with ⟨hop, hseg⟩ | ⟨-, hun⟩
        · rw [hseg] at h hk
          obtain rfl : k = 0 := by simpa using hk
          refine .user ?_
          unfold Code.markAt?
          rw [hcode]
          exact h
        · obtain ⟨instr, hat, hm⟩ := Option.bind_eq_some_iff.mp h
          rw [hun.markedLabel? (List.mem_of_getElem? hat)] at hm
          cases hm
  · have hat := hl.epilogue k (by simpa using hk)
    rw [hat] at h
    have : k = 0 ∨ k = 1 ∨ k = 2 ∨ k = 3 ∨ k = 4 ∨ k = 5 := by omega
    rcases this with rfl | rfl | rfl | rfl | rfl | rfl
    · cases h; exact .stop
    · cases h; exact .catchAll
    · cases h
    · cases h
    · cases h; exact .catchSignal
    · cases h

/-! ## Fresh labels -/

/-- The number of fresh labels of a plan. -/
def freshCount (p : Plan) : Nat := 3 * p.points.length + 4

/-- **The fresh labels do not wrap.** -/
structure LabelsFit (p : Plan) : Prop where
  inUse : ∀ id ∈ Code.labelsInUse p.code p.subject.method.ranges, id.toNat + 1 < UInt32.size
  fresh : p.firstLabel.toNat + p.freshCount ≤ UInt32.size

/-- There are no more points than instructions. -/
lemma Sound.length_points_le (hp : p.Sound) : p.points.length ≤ p.code.size := by
  have hnodup : (p.points.map (·.position)).Nodup := by
    refine (List.pairwise_map.mpr hp.positions).imp ?_
    intro i j hij
    omega
  have hsub : p.points.map (·.position) ⊆ List.range p.code.size := by
    intro i hi
    obtain ⟨pt, hpt, rfl⟩ := List.mem_map.mp hi
    obtain ⟨n, hn⟩ := List.mem_iff_getElem?.mp hpt
    exact List.mem_range.mpr (hp.segmentAt_point hn).1
  simpa using hnodup.length_le_of_subset hsub

/-- Labels fit when there is room for three more of them to each instruction. -/
lemma Sound.labelsFit (hp : p.Sound)
    (hinUse : ∀ id ∈ Code.labelsInUse p.code p.subject.method.ranges, id.toNat + 1 < UInt32.size)
    (hroom : p.firstLabel.toNat + 3 * p.code.size + 4 ≤ UInt32.size) : p.LabelsFit := by
  refine ⟨hinUse, ?_⟩
  have := hp.length_points_le
  unfold freshCount
  omega

lemma LabelsFit.toNat_fresh (hf : p.LabelsFit) {k : Nat} (hk : k < p.freshCount) :
    (p.fresh k).toNat = p.firstLabel.toNat + k := by
  have hfit := hf.fresh
  unfold UInt32.size at hfit
  unfold Plan.fresh
  rw [UInt32.toNat_add, UInt32.toNat_ofNat']
  rw [Nat.mod_eq_of_lt (a := k) (by omega)]
  exact Nat.mod_eq_of_lt (by omega)

lemma LabelsFit.fresh_inj (hf : p.LabelsFit) {k k' : Nat} (hk : k < p.freshCount)
    (hk' : k' < p.freshCount) (h : p.fresh k = p.fresh k') : k = k' := by
  have := congrArg UInt32.toNat h
  rw [hf.toNat_fresh hk, hf.toNat_fresh hk'] at this
  omega

/-- A label in use is none of the fresh ones. -/
lemma LabelsFit.ne_fresh (hf : p.LabelsFit) {id : Label} {k : Nat}
    (hid : id ∈ Code.labelsInUse p.code p.subject.method.ranges) (hk : k < p.freshCount) :
    id ≠ p.fresh k := by
  rintro rfl
  have hlt := Code.toNat_lt_nextLabel hf.inUse _ hid
  have htoNat := hf.toNat_fresh hk
  have hfirst : p.firstLabel = p.code.nextLabel p.subject.method.ranges := rfl
  rw [hfirst] at htoNat
  omega

/-- **Which labels the fresh ones avoid**: those that lie at least as far behind the first fresh label
as there are fresh labels, counting around. -/
lemma fresh_ne_iff (p : Plan) {id : Label} :
    (∀ k < p.freshCount, p.fresh k ≠ id) ↔ p.freshCount ≤ (id - p.firstLabel).toNat := by
  constructor
  · intro hall
    by_contra hlt
    refine hall (id - p.firstLabel).toNat (by omega) ?_
    rw [fresh, UInt32.ofNat_toNat, UInt32.add_comm, UInt32.sub_add_cancel]
  · rintro hle k hk rfl
    rw [fresh, UInt32.add_comm, UInt32.add_sub_cancel, UInt32.toNat_ofNat'] at hle
    have := Nat.mod_le k (2 ^ 32)
    omega

/-- **The fresh labels are above all labels in use exactly if they fit.** -/
lemma lt_fresh_iff (p : Plan) :
    (∀ id ∈ Code.labelsInUse p.code p.subject.method.ranges, ∀ k < p.freshCount, id < p.fresh k) ↔
      Code.labelsInUse p.code p.subject.method.ranges = [] ∨ p.LabelsFit := by
  constructor
  · intro hall
    refine (List.eq_nil_or_concat' _).imp_right ?_
    rintro ⟨ids, last, hids⟩
    have hlast : last ∈ Code.labelsInUse p.code p.subject.method.ranges := by simp [hids]
    have hfirst : p.fresh 0 = p.firstLabel := by simp [fresh]
    have hfree := Code.lt_nextLabel_iff.mp fun id hid =>
      hfirst ▸ hall id hid 0 (by simp [freshCount])
    refine ⟨fun id hid => Code.toNat_succ_lt_iff.mpr fun heq => hfree (heq ▸ hid), ?_⟩
    -- the label that counting on wraps to is not above any other
    by_contra hwrap
    have hsize := p.firstLabel.toNat_lt
    have hlt := hall last hlast (UInt32.size - p.firstLabel.toNat) (by unfold UInt32.size at *; omega)
    rw [UInt32.lt_iff_toNat_lt, fresh, UInt32.toNat_add, UInt32.toNat_ofNat'] at hlt
    unfold UInt32.size at hlt
    omega
  · rintro (hnone | hf) id hid k hk
    · rw [hnone] at hid
      cases hid
    · have hlt := Code.toNat_lt_nextLabel hf.inUse id hid
      rw [UInt32.lt_iff_toNat_lt, hf.toNat_fresh hk]
      exact Nat.lt_of_lt_of_le hlt (Nat.le_add_right _ _)

/-- A label that is marked is in use. -/
lemma mem_labelsInUse_of_markAt? {i : Nat} {id : Label} (h : p.code.markAt? i = some id) :
    id ∈ Code.labelsInUse p.code p.subject.method.ranges := by
  unfold Code.markAt? at h
  obtain ⟨instr, hi, hm⟩ := Option.bind_eq_some_iff.mp h
  refine List.mem_append_left _ (List.mem_flatMap.mpr ⟨instr, ?_, ?_⟩)
  · exact Array.mem_toList_iff.mpr (Array.mem_of_getElem? hi)
  · unfold Instruction.markedLabel? at hm
    split at hm
    · next ho =>
        cases hm
        simp [Code.mentioned, ho]
    · cases hm

/-- **Where a fresh label is.** -/
def freshPlace (p : Plan) (k : Nat) : Nat :=
  let n := p.points.length
  if k < 2 * n then
    p.place (p.points.getD (k / 2) default).position
      + (if k % 2 = 0 then 0 else p.afterOffset (p.points.getD (k / 2) default))
  else if k = 2 * n then 5
  else if k = 2 * n + 1 then p.place p.code.size
  else if k = 2 * n + 2 then p.place p.code.size + 1
  else if k = 2 * n + 3 then p.place p.code.size + 4
  else
    p.place (p.points.getD (k - (2 * n + 4)) default).position
      + p.resumeOffset (p.points.getD (k - (2 * n + 4)) default)

/-- Every mark is one of the method or of a fresh label. -/
lemma Marked.number {q : Nat} {id : Label} (h : p.Marked q id) :
    (∃ i, p.code.markAt? i = some id ∧ q = p.place i) ∨
      ∃ k, k < p.freshCount ∧ id = p.fresh k ∧ q = p.freshPlace k := by
  have hget : ∀ {n : Nat} {pt : SuspensionPoint}, p.points[n]? = some pt →
      n < p.points.length ∧ p.points.getD n default = pt := by
    intro n pt h
    exact ⟨(List.getElem?_eq_some_iff.mp h).1, by simp [h]⟩
  unfold freshCount
  cases h with
  | user h => exact Or.inl ⟨_, h, rfl⟩
  | before h =>
      next n pt =>
      obtain ⟨hlt, hpt⟩ := hget h
      refine Or.inr ⟨2 * n, by omega, rfl, ?_⟩
      have h₁ : 2 * n / 2 = n := by omega
      have h₂ : 2 * n % 2 = 0 := by omega
      have h₃ : 2 * n < 2 * p.points.length := by omega
      simp only [freshPlace, h₁, h₂, h₃, hpt, if_true, Nat.add_zero]
  | resume h =>
      next n pt =>
      obtain ⟨hlt, hpt⟩ := hget h
      refine Or.inr ⟨2 * p.points.length + 4 + n, by omega, rfl, ?_⟩
      unfold freshPlace
      simp only
      rw [if_neg (by omega), if_neg (by omega), if_neg (by omega), if_neg (by omega),
        if_neg (by omega), Nat.add_sub_cancel_left, hpt]
  | after h =>
      next n pt =>
      obtain ⟨hlt, hpt⟩ := hget h
      refine Or.inr ⟨2 * n + 1, by omega, rfl, ?_⟩
      have h₁ : (2 * n + 1) / 2 = n := by omega
      unfold freshPlace
      simp only
      rw [if_pos (by omega), if_neg (by omega), h₁, hpt]
  | start =>
      refine Or.inr ⟨2 * p.points.length, by omega, rfl, ?_⟩
      unfold freshPlace
      simp
  | stop =>
      refine Or.inr ⟨2 * p.points.length + 1, by omega, rfl, ?_⟩
      unfold freshPlace
      simp only
      rw [if_neg (by omega), if_neg (by omega), if_pos trivial]
  | catchAll =>
      refine Or.inr ⟨2 * p.points.length + 2, by omega, rfl, ?_⟩
      unfold freshPlace
      simp only
      rw [if_neg (by omega), if_neg (by omega), if_neg (by omega), if_pos trivial]
  | catchSignal =>
      refine Or.inr ⟨2 * p.points.length + 3, by omega, rfl, ?_⟩
      unfold freshPlace
      simp only
      rw [if_neg (by omega), if_neg (by omega), if_neg (by omega), if_neg (by omega), if_pos trivial]

/-- **Every fresh label has its mark.** -/
lemma marked_fresh (p : Plan) {k : Nat} (hk : k < p.freshCount) :
    p.Marked (p.freshPlace k) (p.fresh k) := by
  have hget : ∀ {n : Nat} (h : n < p.points.length),
      p.points[n]? = some (p.points.getD n default) := by
    intro n h
    simp [h]
  unfold freshCount at hk
  unfold freshPlace
  simp only
  by_cases h₁ : k < 2 * p.points.length
  · rw [if_pos h₁]
    have hpt := hget (show k / 2 < p.points.length by omega)
    by_cases h₂ : k % 2 = 0
    · rw [if_pos h₂, Nat.add_zero]
      have := Marked.before hpt
      rwa [beforeLabel, show 2 * (k / 2) = k by omega] at this
    · rw [if_neg h₂]
      have := Marked.after hpt
      rwa [afterLabel, show 2 * (k / 2) + 1 = k by omega] at this
  · rw [if_neg h₁]
    by_cases h₃ : k < 2 * p.points.length + 4
    · have hcase : k = 2 * p.points.length ∨ k = 2 * p.points.length + 1 ∨
          k = 2 * p.points.length + 2 ∨ k = 2 * p.points.length + 3 := by omega
      rcases hcase with rfl | rfl | rfl | rfl
      · simpa [startLabel] using Marked.start (p := p)
      · simpa [endLabel] using Marked.stop (p := p)
      · simpa [catchAllLabel] using Marked.catchAll (p := p)
      · simpa [catchSignalLabel] using Marked.catchSignal (p := p)
    · rw [if_neg (by omega), if_neg (by omega), if_neg (by omega), if_neg (by omega)]
      have := Marked.resume (hget (show k - (2 * p.points.length + 4) < p.points.length by omega))
      rwa [callLabel, Nat.add_sub_cancel' (by omega)] at this

/-- **A fresh label is where its mark is.** -/
lemma Lays.labelAt?_fresh {nm : Method} (hl : p.Lays nm) (hp : p.Sound) (hf : p.LabelsFit) {q k : Nat}
    (hk : k < p.freshCount) (h : p.Marked q (p.fresh k)) :
    nm.code.labelAt? (p.fresh k) = some q := by
  -- a mark of this label can only be the mark of this number
  have hplace : ∀ {q' : Nat}, p.Marked q' (p.fresh k) → q' = p.freshPlace k := by
    intro q' h'
    rcases h'.number with ⟨i, hi, -⟩ | ⟨k', hk', heq, hq'⟩
    · exact absurd rfl (hf.ne_fresh (mem_labelsInUse_of_markAt? hi) hk)
    · rw [hq', hf.fresh_inj hk hk' heq]
  refine Code.labelAt?_eq_some_iff.mpr ⟨hl.markAt? hp h, fun q' hq' hm => ?_⟩
  have := hplace (hl.marked hp hm)
  have := hplace h
  omega

/-- **A label of the method is at the segment of its mark.** -/
lemma Lays.labelAt?_user {nm : Method} (hl : p.Lays nm) (hp : p.Sound) (hf : p.LabelsFit) {i : Nat}
    {id : Label} (h : p.code.labelAt? id = some i) : nm.code.labelAt? id = some (p.place i) := by
  obtain ⟨hm, hlast⟩ := Code.labelAt?_eq_some_iff.mp h
  refine Code.labelAt?_eq_some_iff.mpr ⟨hl.markAt? hp (.user hm), fun q hq hmq => ?_⟩
  rcases (hl.marked hp hmq).number with ⟨j, hj, rfl⟩ | ⟨k, hk, rfl, -⟩
  · refine hlast j ?_ hj
    by_contra hle
    have := p.place_mono (show j ≤ i by omega)
    omega
  · exact absurd rfl (hf.ne_fresh (mem_labelsInUse_of_markAt? hm) hk)

/-- **The marks of a transformed body**: those of the method, each at the segment of its mark, and those of
the fresh labels. -/
lemma Lays.markAt?_eq_some_iff {nm : Method} (hl : p.Lays nm) (hp : p.Sound) {q : Nat} {id : Label} :
    nm.code.markAt? q = some id ↔
      (∃ i, p.code.markAt? i = some id ∧ q = p.place i) ∨
        ∃ k, k < p.freshCount ∧ id = p.fresh k ∧ q = p.freshPlace k := by
  constructor
  · exact fun hm => (hl.marked hp hm).number
  · rintro (⟨i, hi, rfl⟩ | ⟨k, hk, rfl, rfl⟩)
    · exact hl.markAt? hp (.user hi)
    · exact hl.markAt? hp (p.marked_fresh hk)

end Plan

/-! ## How fresh the labels are -/

/-- **Fresh labels are fresh as long as labels do not run out.**  The next label of a body is above all
labels in use exactly if the last label is not one of them.  A transformed body marks the labels of the
method and the fresh ones; the fresh ones are above all labels in use exactly if they do not wrap, and they
differ from all of them exactly if none is met by counting on from the first fresh label. -/
theorem Code.nextLabel_fresh (code : Code) (ranges : List ExceptionRange) :
    ((∀ id ∈ labelsInUse code ranges, id < code.nextLabel ranges) ↔
      lastLabel ∉ labelsInUse code ranges) ∧
    ∀ (src : ClassSource) (policy : Policy) (owner : Text) (m nm : Method) (h h' : Hierarchy),
      m.code = code → m.ranges = ranges →
      (Method.transform src policy owner m).run h = (.ok (some nm), h') →
      ∃ p : Plan, p.Makes src owner m h nm ∧ p.firstLabel = code.nextLabel ranges ∧
        (∀ q id, nm.code.markAt? q = some id ↔
          (∃ i, code.markAt? i = some id ∧ q = p.place i) ∨
            ∃ k, k < p.freshCount ∧ id = p.fresh k ∧ q = p.freshPlace k) ∧
        ((∀ id ∈ labelsInUse code ranges, ∀ k < p.freshCount, id < p.fresh k) ↔
          labelsInUse code ranges = [] ∨ p.LabelsFit) ∧
        ((∀ id ∈ labelsInUse code ranges, ∀ k < p.freshCount, p.fresh k ≠ id) ↔
          ∀ id ∈ labelsInUse code ranges, p.freshCount ≤ (id - p.firstLabel).toNat) := by
  refine ⟨lt_nextLabel_iff, ?_⟩
  rintro src policy owner m nm h h' rfl rfl ht
  obtain ⟨p, hp⟩ := Method.transform_makes ht
  have hm : p.subject.method = m := hp.method_eq
  have hcode : p.code = m.code := congrArg Method.code hm
  have hfirst : p.firstLabel = m.code.nextLabel m.ranges := congrArg Method.nextLabel hm
  refine ⟨p, hp, hfirst, fun q id => ?_, ?_, forall₂_congr fun _ _ => p.fresh_ne_iff⟩
  · rw [← hcode]
    exact (Plan.generate_lays hp.generate).markAt?_eq_some_iff hp.sound
  · have := p.lt_fresh_iff
    rwa [hcode, hm] at this

/-- A loop around a call that may suspend, in a method that marks the last of all labels. -/
def topLabelled : Method where
  name := "f"
  desc := "()V"
  flags := Flag.staticBit
  maxStack := 1
  code := #[.mark 1, .member (.invoke .static) "A" "g" "()V", .int 0, .jump (.ifInt .eq) 1,
    .mark Code.lastLabel, .plain .returnVoid]

/-- The transformed body of the loop, as far as the label of the loop goes. -/
lemma topLabelled_transformed : ∃ nm h',
    (Method.transform {} {} "A" topLabelled).run {} = (.ok (some nm), h') ∧
      nm.code.markAt? 6 = some 1 ∧ nm.code.labelAt? 1 = some 14 := by
  have hsome : (((Method.transform {} {} "A" topLabelled).run {}).1.toOption.join.any fun nm =>
      nm.code.markAt? 6 == some 1 && nm.code.labelAt? 1 == some 14) = true := by
    decide +kernel
  obtain ⟨nm, h', ht, hboth⟩ := Conclusion.exists_some hsome
  exact ⟨nm, h', ht, by simpa using hboth⟩

/-- The theorem at the loop. -/
theorem topLabelled_fresh_iff : ∃ nm h' p,
    (Method.transform {} {} "A" topLabelled).run {} = (.ok (some nm), h') ∧
      Plan.Makes {} "A" topLabelled {} p nm ∧ p.firstLabel = 0 ∧
      ((∀ id ∈ Code.labelsInUse topLabelled.code topLabelled.ranges, ∀ k < p.freshCount,
          p.fresh k ≠ id) ↔
        ∀ id ∈ Code.labelsInUse topLabelled.code topLabelled.ranges,
          p.freshCount ≤ (id - p.firstLabel).toNat) := by
  obtain ⟨nm, h', ht, -⟩ := topLabelled_transformed
  obtain ⟨p, hp, hfirst, -, -, hne⟩ := (Code.nextLabel_fresh topLabelled.code topLabelled.ranges).2
    {} {} "A" topLabelled nm {} h' rfl rfl ht
  exact ⟨nm, h', p, ht, hp, hfirst.trans (by decide +kernel), hne⟩

/-- **Not all fresh labels are fresh.**  In a valid method that marks the last label, the next label is the
first one.  The transformed body of the loop marks the label of the loop a second time, behind the call,
and there its jump goes. -/
theorem Code.nextLabel_not_fresh :
    topLabelled.validate = .ok () ∧
      ¬ (∀ id ∈ labelsInUse topLabelled.code topLabelled.ranges,
        id < topLabelled.code.nextLabel topLabelled.ranges) ∧
      topLabelled.code.labelAt? 1 = some 0 ∧
      ∃ nm h', (Method.transform {} {} "A" topLabelled).run {} = (.ok (some nm), h') ∧
        nm.code.markAt? 6 = some 1 ∧ nm.code.labelAt? 1 = some 14 := by
  refine ⟨by decide +kernel, fun hall => ?_, by decide +kernel, topLabelled_transformed⟩
  have hnext : topLabelled.code.nextLabel topLabelled.ranges = 0 := by decide +kernel
  have hlt := hall 1 (by decide +kernel)
  rw [hnext] at hlt
  exact absurd hlt (by decide)

end Suspension
