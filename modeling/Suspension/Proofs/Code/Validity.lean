import Suspension.Proofs.Code.Labels
import Suspension.Validation

/-!
# Well-formed methods

The checks on a method report the first violation they find.  Here they are turned into statements
about the method itself: **a method with code passes the checks exactly when it is well formed**.

* `Instruction.Fits` — the operand of an instruction is what its opcode needs.
* `Method.WellFormed` — labels, operands and the declared bounds of a method.
* `Method.validate_eq_ok_iff` — the checks decide it.
-/

namespace Suspension

/-! ## Operands -/

/-- A member that an opcode can refer to: a call has a method descriptor, a field access the descriptor
of a field. -/
def Member.Fits (op : Opcode) (m : Member) : Prop :=
  m.owner ≠ [] ∧ m.name ≠ [] ∧
    if op.isInvoke then ∃ d, Descriptor.parseMethod m.desc = .ok d
    else Descriptor.isField m.desc = true

/-- **An instruction has the operand that its opcode needs**, and a local that is there. -/
def Instruction.Fits (maxLocals : UInt32) (instr : Instruction) : Prop :=
  match instr.opcode.operandKind? with
  | none => False
  | some .slot => ∃ n, instr.operand = .slot n ∧ n < maxLocals
  | some .increment => ∃ n delta, instr.operand = .increment n delta ∧ n < maxLocals
  | some .member => ∃ m, instr.operand = .member m ∧ m.Fits instr.opcode
  | some .type => ∃ t, instr.operand = .type t ∧ t ≠ []
  | some .table => ∃ low labels other, instr.operand = .table low labels other
  | some .label => ∃ id, instr.operand = .label id
  | some _ => True

namespace Validation

variable {maxLocals : UInt32} {instr : Instruction}

lemma checkMember_eq_ok_iff {i : Nat} {op : Opcode} {m : Member} :
    checkMember i op m = .ok () ↔ m.Fits op := by
  unfold checkMember Member.Fits
  by_cases hnames : (m.owner.isEmpty || m.name.isEmpty) = true
  · have : ¬ (m.owner ≠ [] ∧ m.name ≠ []) := by
      simp only [Bool.or_eq_true, List.isEmpty_iff] at hnames
      tauto
    rw [if_pos hnames]
    simp only [reduceCtorEq, false_iff]
    tauto
  · have hne : m.owner ≠ [] ∧ m.name ≠ [] := by
      simp only [Bool.or_eq_true, List.isEmpty_iff] at hnames
      tauto
    rw [if_neg hnames]
    by_cases hinvoke : op.isInvoke = true
    · simp only [hinvoke, if_true, hne, ne_eq, not_false_eq_true, true_and]
      split <;> simp_all
    · simp only [hinvoke, Bool.false_eq_true, if_false, hne, ne_eq, not_false_eq_true, true_and]
      split <;> simp_all

/-- **The operand check of one instruction**, wherever the instruction stands. -/
lemma checkOperand_eq_ok_iff {i : Nat} :
    checkOperand maxLocals i instr = .ok () ↔ instr.Fits maxLocals := by
  unfold checkOperand Instruction.Fits
  split
  · simp_all
  · split
    · next n ho => split <;> simp_all
    · simp_all
  · split
    · next n delta ho => split <;> simp_all
    · simp_all
  · split
    · next m ho => simp_all [checkMember_eq_ok_iff]
    · simp_all
  · split
    · next t ho => split <;> simp_all
    · simp_all
  · split <;> simp_all
  · split <;> simp_all
  · simp_all

lemma checkOperands_eq_ok_iff {l : List Instruction} {i : Nat} :
    checkOperands maxLocals l i = .ok () ↔ ∀ instr ∈ l, instr.Fits maxLocals := by
  induction l generalizing i with
  | nil => simp [checkOperands]
  | cons instr l ih =>
      have hfirst := @checkOperand_eq_ok_iff maxLocals instr i
      unfold checkOperands
      split
      · next e he => simp_all
      · next he => simp_all

/-! ## Labels -/

/-- **The check of marks**: all are numbered, and none is there twice or among those seen before. -/
lemma checkMarks_eq_ok_iff {l : List Instruction} {i : Nat} {seen : List (Label × Nat)} :
    checkMarks l i seen = .ok () ↔
      (∀ instr ∈ l, instr.isMark = true → ∃ id, instr.markedLabel? = some id) ∧
      ∀ (k : Nat) (id : Label), l[k]?.bind Instruction.markedLabel? = some id →
        seen.lookup id = none ∧
          ∀ k' : Nat, k < k' → l[k']?.bind Instruction.markedLabel? ≠ some id := by
  induction l generalizing i seen with
  | nil => simp [checkMarks]
  | cons instr l ih =>
      have hmark : instr.isMark = false → instr.markedLabel? = none := by
        intro h
        unfold Instruction.markedLabel?
        split
        · next hop _ => simp [Instruction.isMark, hop] at h
        · rfl
      unfold checkMarks
      by_cases hm : instr.isMark = true
      · rw [if_pos hm]
        split
        · next hnone => simp [hm, hnone]
        next id hid =>
        split
        · next first hfirst =>
            simp only [reduceCtorEq, false_iff, not_and]
            intro _ hall
            have := (hall 0 id (by simpa using hid)).1
            rw [hfirst] at this
            cases this
        · next hnew =>
            rw [ih]
            constructor
            · rintro ⟨hnumbered, hall⟩
              refine ⟨by simpa [hid] using hnumbered, fun k id' hk => ?_⟩
              cases k with
              | zero =>
                  obtain rfl : id = id' := by simpa [hid] using hk
                  refine ⟨hnew, fun k' hk' hmark => ?_⟩
                  obtain ⟨k', rfl⟩ := Nat.exists_eq_succ_of_ne_zero (Nat.ne_of_gt hk')
                  have := (hall k' id (by simpa using hmark)).1
                  simp at this
              | succ k =>
                  obtain ⟨hseen, hlater⟩ := hall k id' (by simpa using hk)
                  rw [List.lookup_cons] at hseen
                  split at hseen
                  · cases hseen
                  refine ⟨hseen, fun k' hk' => ?_⟩
                  obtain ⟨k', rfl⟩ := Nat.exists_eq_succ_of_ne_zero (by omega : k' ≠ 0)
                  simpa using hlater k' (by omega)
            · rintro ⟨hnumbered, hall⟩
              refine ⟨fun j hj => hnumbered j (List.mem_cons_of_mem _ hj), fun k id' hk => ?_⟩
              obtain ⟨hseen, hlater⟩ := hall (k + 1) id' (by simpa using hk)
              have hne : id' ≠ id := by
                rintro rfl
                exact (hall 0 id' (by simpa using hid)).2 (k + 1) (by omega) (by simpa using hk)
              have hkey : (id' == id) = false := by simpa using hne
              refine ⟨by rw [List.lookup_cons, hkey]; exact hseen, fun k' hk' => ?_⟩
              simpa using hlater (k' + 1) (by omega)
      · have hnone := hmark (by simpa using hm)
        rw [if_neg hm, ih]
        constructor
        · rintro ⟨hnumbered, hall⟩
          refine ⟨by simpa [hm] using hnumbered, fun k id hk => ?_⟩
          cases k with
          | zero => simp [hnone] at hk
          | succ k =>
              obtain ⟨hseen, hlater⟩ := hall k id (by simpa using hk)
              refine ⟨hseen, fun k' hk' => ?_⟩
              obtain ⟨k', rfl⟩ := Nat.exists_eq_succ_of_ne_zero (by omega : k' ≠ 0)
              simpa using hlater k' (by omega)
        · rintro ⟨hnumbered, hall⟩
          refine ⟨fun j hj => hnumbered j (List.mem_cons_of_mem _ hj), fun k id hk => ?_⟩
          obtain ⟨hseen, hlater⟩ := hall (k + 1) id (by simpa using hk)
          exact ⟨hseen, fun k' hk' => by simpa using hlater (k' + 1) (by omega)⟩

/-- The labels of a list are marked exactly when none of them is missing in the index. -/
lemma undefined?_eq_none_iff {code : Code} {ids : List Label} :
    undefined? code.labelIndex ids = none ↔ ∀ id ∈ ids, ∃ i, code.labelAt? id = some i := by
  unfold undefined? Code.labelAt?
  rw [List.find?_eq_none]
  refine forall₂_congr fun id _ => ?_
  rw [Option.isNone_iff_eq_none, ← ne_eq, Option.ne_none_iff_exists']

lemma checkTargets_eq_ok_iff {code : Code} {l : List Instruction} {i : Nat} :
    checkTargets code.labelIndex l i = .ok () ↔
      ∀ instr ∈ l, ∀ id ∈ instr.targets, ∃ i, code.labelAt? id = some i := by
  induction l generalizing i with
  | nil => simp [checkTargets]
  | cons instr l ih =>
      have hfirst := @undefined?_eq_none_iff code instr.targets
      unfold checkTargets
      rw [List.forall_mem_cons, ← hfirst]
      split
      · next id hid => simp [hid]
      · next hnone => simp [hnone, ih]

/-- **A range has its labels**, and ends no earlier than it starts. -/
def RangeFits (code : Code) (r : ExceptionRange) : Prop :=
  ∃ start stop handler, code.labelAt? r.start = some start ∧ code.labelAt? r.stop = some stop
    ∧ code.labelAt? r.handler = some handler ∧ start ≤ stop

lemma checkRanges_eq_ok_iff {code : Code} {ranges : List ExceptionRange} {i : Nat} :
    checkRanges code.labelIndex ranges i = .ok () ↔ ∀ r ∈ ranges, RangeFits code r := by
  induction ranges generalizing i with
  | nil => simp [checkRanges]
  | cons r ranges ih =>
      have hfirst := @undefined?_eq_none_iff code [r.start, r.stop, r.handler]
      unfold checkRanges
      rw [List.forall_mem_cons]
      split
      · next id hid =>
          rw [hid] at hfirst
          simp only [reduceCtorEq, false_iff, not_and]
          rintro ⟨start, stop, handler, h₁, h₂, h₃, -⟩
          simp [h₁, h₂, h₃] at hfirst
      · next hnone =>
          obtain ⟨⟨start, h₁⟩, ⟨stop, h₂⟩, handler, h₃⟩ := by simpa using hfirst.mp hnone
          have h₁' : code.labelIndex.lookup r.start = some start := h₁
          have h₂' : code.labelIndex.lookup r.stop = some stop := h₂
          have hfits : RangeFits code r ↔ start ≤ stop := by
            constructor
            · rintro ⟨start', stop', _, h₁'', h₂'', -, hle⟩
              rw [h₁] at h₁''
              rw [h₂] at h₂''
              cases h₁''
              cases h₂''
              exact hle
            · exact fun hle => ⟨start, stop, handler, h₁, h₂, h₃, hle⟩
          rw [h₁', h₂', hfits, Option.getD_some, Option.getD_some]
          split
          · next hlt =>
              simp only [reduceCtorEq, false_iff, not_and]
              omega
          · next hlt =>
              rw [ih]
              simp only [iff_and_self]
              omega

lemma checkScopes_eq_ok_iff {code : Code} {vars : List LocalVar} :
    checkScopes code.labelIndex vars = .ok () ↔
      ∀ v ∈ vars, (∃ i, code.labelAt? v.start = some i) ∧ ∃ i, code.labelAt? v.stop = some i := by
  induction vars with
  | nil => simp [checkScopes]
  | cons v vars ih =>
      have hfirst := @undefined?_eq_none_iff code [v.start, v.stop]
      unfold checkScopes
      split
      · next id hid => simp_all
      · next hnone => simp_all

/-- Checks in sequence all pass. -/
lemma bind_eq_ok_iff {ε : Type} {x y : Except ε Unit} :
    (x >>= fun _ => y) = .ok () ↔ x = .ok () ∧ y = .ok () := by
  cases x <;> simp [bind, Except.bind]

end Validation

/-! ## Methods -/

/-- **A method with code that is well formed.** -/
structure Method.WellFormed (m : Method) : Prop where
  hasBody : m.hasBody = true
  params : ∃ d, Descriptor.parseMethod m.desc = .ok d ∧
    d.params.length + m.receiverCount ≤ m.maxLocals.toNat
  /-- every mark carries a label -/
  numbered : ∀ instr ∈ m.code.toList, instr.isMark = true → ∃ id, instr.markedLabel? = some id
  /-- no label is marked twice -/
  unique : ∀ (i j : Nat) (id : Label), m.code.markAt? i = some id → m.code.markAt? j = some id → i = j
  targets : ∀ instr ∈ m.code.toList, ∀ id ∈ instr.targets, ∃ i, m.code.labelAt? id = some i
  ranges : ∀ r ∈ m.ranges, Validation.RangeFits m.code r
  scopes : ∀ v ∈ m.localVars,
    (∃ i, m.code.labelAt? v.start = some i) ∧ ∃ i, m.code.labelAt? v.stop = some i
  operands : ∀ instr ∈ m.code.toList, instr.Fits m.maxLocals
  depth : ∃ n, m.stackNeed = .ok n ∧ n ≤ m.maxStack.toNat

namespace Validation

lemma checkLabels_eq_ok_iff {m : Method} : checkLabels m = .ok () ↔
    ((∀ instr ∈ m.code.toList, instr.isMark = true → ∃ id, instr.markedLabel? = some id) ∧
      ∀ (i j : Nat) (id : Label), m.code.markAt? i = some id → m.code.markAt? j = some id → i = j) ∧
    (∀ instr ∈ m.code.toList, ∀ id ∈ instr.targets, ∃ i, m.code.labelAt? id = some i) ∧
    (∀ r ∈ m.ranges, RangeFits m.code r) ∧
    ∀ v ∈ m.localVars,
      (∃ i, m.code.labelAt? v.start = some i) ∧ ∃ i, m.code.labelAt? v.stop = some i := by
  have hmarks : checkMarks m.code.toList 0 [] = .ok () ↔
      (∀ instr ∈ m.code.toList, instr.isMark = true → ∃ id, instr.markedLabel? = some id) ∧
      ∀ (i j : Nat) (id : Label), m.code.markAt? i = some id → m.code.markAt? j = some id → i = j := by
    rw [checkMarks_eq_ok_iff]
    simp only [List.lookup_nil, true_and, Array.getElem?_toList]
    refine and_congr_right fun _ => ⟨fun h i j id hi hj => ?_, fun h k id hk k' hlt hk' => ?_⟩
    · rcases Nat.lt_trichotomy i j with hlt | heq | hlt
      · exact absurd hj (h i id hi j hlt)
      · exact heq
      · exact absurd hi (h j id hj i hlt)
    · have := h k k' id hk hk'
      omega
  unfold checkLabels
  rw [bind_eq_ok_iff, hmarks, bind_eq_ok_iff, checkTargets_eq_ok_iff, bind_eq_ok_iff,
    checkRanges_eq_ok_iff, checkScopes_eq_ok_iff]

lemma checkDepth_eq_ok_iff {m : Method} :
    checkDepth m = .ok () ↔ ∃ n, m.stackNeed = .ok n ∧ n ≤ m.maxStack.toNat := by
  unfold checkDepth
  split
  · next e he => simp [he]
  · next n hn =>
      rw [hn]
      split
      · next hlt => simp [hlt]
      · next hle => simpa using hle

end Validation

/-- **The checks on a method with code** pass exactly when it is well formed. -/
lemma Method.validate_eq_ok_iff {m : Method} (hcode : m.code ≠ #[]) :
    m.validate = .ok () ↔ m.WellFormed := by
  have hne : m.code.isEmpty = false := by simpa using hcode
  unfold Method.validate
  split
  · next e he =>
      simp only [reduceCtorEq, false_iff]
      rintro ⟨-, ⟨d, hd, -⟩, -⟩
      rw [he] at hd
      cases hd
  next d hd =>
  simp only [hne, Bool.false_eq_true, if_false]
  by_cases hbody : m.hasBody = true
  case neg =>
    simp only [hbody, Bool.not_false, if_true, reduceCtorEq, false_iff]
    exact fun h => hbody h.hasBody
  by_cases hparams : m.maxLocals.toNat < d.params.length + m.receiverCount
  case pos =>
    simp only [hbody, Bool.not_true, Bool.false_eq_true, if_false, hparams, if_true, reduceCtorEq,
      false_iff]
    rintro ⟨-, ⟨d', hd', hle⟩, -⟩
    rw [hd] at hd'
    cases hd'
    omega
  simp only [hbody, Bool.not_true, Bool.false_eq_true, if_false, hparams]
  have hlabels := @Validation.checkLabels_eq_ok_iff m
  have hoperands := @Validation.checkOperands_eq_ok_iff m.maxLocals m.code.toList 0
  have hdepth := @Validation.checkDepth_eq_ok_iff m
  constructor
  · intro h
    split at h
    · cases h
    next hl =>
    split at h
    · cases h
    next ho =>
    obtain ⟨⟨h₁, h₂⟩, h₃, h₄, h₅⟩ := hlabels.mp hl
    exact ⟨hbody, ⟨d, hd, by omega⟩, h₁, h₂, h₃, h₄, h₅, hoperands.mp ho, hdepth.mp h⟩
  · intro h
    rw [hlabels.mpr ⟨⟨h.numbered, h.unique⟩, h.targets, h.ranges, h.scopes⟩,
      hoperands.mpr h.operands]
    exact hdepth.mpr h.depth

end Suspension
