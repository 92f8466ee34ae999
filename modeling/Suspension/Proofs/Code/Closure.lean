import Suspension.Proofs.Code.Depth

/-!
# What a successful pass has found

The pass over depths stops at the first contradiction.  **When it comes to its end, the depths that it
found fit each other**: they form a labelling of the body, and none of them is above the deepest stack
that the pass reports.

* `StackDepth.Pass.visit_ok`, `StackDepth.Pass.follow_ok` — what one visit and one round add.
* `StackDepth.Pass.Bounded`, `StackDepth.Pass.Closes` — the invariants of the rounds.
* `StackDepth.run_labelling` — the depths of a whole body.

Unlike `StackDepth.run_steady`, nothing is assumed of the body here: that the paths agree is what the
pass has checked.
-/

namespace Suspension

/-- No instruction adds more than two slots. -/
lemma Instruction.delta_le {instr : Instruction} {pops pushes : Nat}
    (h : instr.delta = .ok (pops, pushes)) : pushes ≤ pops + 2 := by
  obtain ⟨op, operand⟩ := instr
  unfold Instruction.delta at h
  cases op <;> simp only [Opcode.effect?, Opcode.shuffle?, Except.ok.injEq, Prod.mk.injEq,
    List.length_nil, List.length_cons] at h <;> try omega
  all_goals
    cases operand <;> try cases h
    try omega
  simp only [Opcode.memberDelta] at h
  split at h
  · cases h
  · cases h
    split <;> omega

namespace StackDepth

variable {code : Code} {ranges : List ExceptionRange} {p p' : Pass} {i d : Nat}

namespace Pass

/-- A position has one depth. -/
lemma Found.unique {e : Nat} (h : p.Found i d) (h' : p.Found i e) : d = e := by
  have hsame : some (some d) = some (some e) := h.symm.trans h'
  simpa using hsame

/-- The number of positions without a depth. -/
def blank (p : Pass) : Nat := p.depths.toList.count none

/-- **The depths are bounded** by the deepest stack.  An instruction adds at most two to a depth and a
depth is found once, so the positions without a depth bound the deepest stack in turn. -/
structure Bounded (p : Pass) : Prop where
  depth : ∀ {i d : Nat}, p.Found i d → d ≤ p.deepest
  room : ∀ {i d : Nat}, p.Found i d → d + 2 + 2 * p.blank ≤ 2 * p.depths.size
  deepest : p.deepest + 2 * p.blank ≤ 2 * p.depths.size

/-- The deepest stack may grow by what an instruction adds to a depth that has been found. -/
lemma Bounded.raise {e : Nat} (hp : p.Bounded) (hi : p.Found i d) (he : e ≤ d + 2) :
    Bounded { p with deepest := max p.deepest e } where
  depth := fun hf => Nat.le_trans (hp.depth hf) (Nat.le_max_left _ _)
  room := hp.room
  deepest := by
    have hroom := hp.room hi
    have hdeepest := hp.deepest
    change max p.deepest e + 2 * p.blank ≤ 2 * p.depths.size
    omega

/-- **A visit that does not fail**: the position has its depth, or gets it. -/
lemma visit_cases (h : p.visit i d = .ok p') :
    (p' = p ∧ (i < p.depths.size → p.Found i d)) ∨
    (p.depths[i]? = some none ∧
      p' = { p with depths := p.depths.set! i (some d), pending := i :: p.pending }) := by
  unfold visit at h
  split at h
  · next hnone =>
      rw [Array.getElem?_eq_none_iff] at hnone
      cases h
      exact Or.inl ⟨rfl, fun hlt => by omega⟩
  · next hnone =>
      cases h
      exact Or.inr ⟨hnone, rfl⟩
  · next e he =>
      split at h
      · next hsame =>
          cases h
          obtain rfl : e = d := by simpa using hsame
          exact Or.inl ⟨rfl, fun _ => he⟩
      · cases h

/-- The deepest stack does not count for a visit. -/
lemma visit_raised (h : p.visit i d = .ok p') (n : Nat) :
    ({ p with deepest := n } : Pass).visit i d = .ok { p' with deepest := n } := by
  unfold visit at h ⊢
  cases hi : p.depths[i]? with
  | none =>
      simp only [hi, Except.ok.injEq] at h ⊢
      rw [h]
  | some o =>
      cases o with
      | none =>
          simp only [hi, Except.ok.injEq] at h ⊢
          rw [← h]
      | some e =>
          simp only [hi] at h ⊢
          split at h <;> cases h
          next hsame => rw [if_pos hsame]

/-- **What a visit adds.** -/
lemma visit_ok (h : p.visit i d = .ok p') :
    Extends p p' ∧ p'.deepest = p.deepest ∧ (i < p.depths.size → p'.Found i d) := by
  rcases visit_cases h with ⟨rfl, hfound⟩ | ⟨hnone, rfl⟩
  · exact ⟨.refl p', rfl, hfound⟩
  · exact ⟨extends_set hnone, rfl, fun hlt => (found_set hlt).mpr (Or.inl ⟨rfl, rfl⟩)⟩

/-- A visit below the deepest stack keeps the depths bounded. -/
lemma Bounded.visit (hp : p.Bounded) (hd : d ≤ p.deepest) (h : p.visit i d = .ok p') :
    p'.Bounded := by
  rcases visit_cases h with ⟨rfl, -⟩ | ⟨hnone, rfl⟩
  · exact hp
  · obtain ⟨hlt, -⟩ := Array.getElem?_eq_some_iff.mp hnone
    have hdeepest := hp.deepest
    -- one position without a depth less
    have hload := (extends_set (p := p) (d := d) hnone).load
    set p' : Pass := { p with depths := p.depths.set! i (some d), pending := i :: p.pending } with hp'
    have hsize : p'.depths.size = p.depths.size := by simp [hp']
    have hblank : p'.blank + 1 = p.blank := by
      have hpending : p'.pending.length = p.pending.length + 1 := rfl
      simp only [load, hpending] at hload
      simp only [blank]
      omega
    refine ⟨fun {j e} hf => ?_, fun {j e} hf => ?_, ?_⟩
    · rcases (found_set hlt).mp hf with ⟨-, rfl⟩ | ⟨-, hf⟩
      · exact hd
      · exact hp.depth hf
    · rcases (found_set hlt).mp hf with ⟨-, rfl⟩ | ⟨-, hf⟩
      · omega
      · have := hp.room hf
        omega
    · change p.deepest + 2 * p'.blank ≤ 2 * p'.depths.size
      omega

/-- **Visits to the labels of a jump.** -/
lemma visitLabels_ok {ids : List Label} (hsize : p.depths.size = code.size) (hp : p.Bounded)
    (hd : d ≤ p.deepest) (h : visitLabels code d ids p = .ok p') :
    Extends p p' ∧ p'.deepest = p.deepest ∧ p'.Bounded ∧
      ∀ id ∈ ids, ∃ t, code.labelAt? id = some t ∧ p'.Found t d := by
  induction ids generalizing p with
  | nil =>
      cases h
      exact ⟨.refl p', rfl, hp, by simp⟩
  | cons id ids ih =>
      simp only [visitLabels, visitLabel] at h
      cases ht : code.labelAt? id with
      | none => simp [ht] at h
      | some t =>
          cases hv : p.visit t d with
          | error e => simp [ht, hv] at h
          | ok q =>
              simp only [ht, hv] at h
              obtain ⟨hext, hdeepest, hfound⟩ := visit_ok hv
              obtain ⟨hext', hdeepest', hp', hall⟩ :=
                ih (hext.size.trans hsize) (hp.visit hd hv) (hdeepest ▸ hd) h
              refine ⟨hext.trans hext', hdeepest'.trans hdeepest, hp', ?_⟩
              simp only [List.forall_mem_cons]
              exact ⟨⟨t, ht, hext'.found (hfound (hsize ▸ Code.labelAt?_lt ht))⟩, hall⟩

/-- **Visits to the handlers**, of which each has depth 1. -/
lemma visitHandlers_ok {rest : List ExceptionRange} (hsize : p.depths.size = code.size)
    (hp : p.Bounded) (hzero : p.Found 0 0) (h : visitHandlers code rest p = .ok p') :
    Extends p p' ∧ p'.Bounded ∧
      ∀ r ∈ rest, ∃ t, code.labelAt? r.handler = some t ∧ p'.Found t 1 := by
  induction rest generalizing p with
  | nil =>
      cases h
      exact ⟨.refl p', hp, by simp⟩
  | cons r rest ih =>
      simp only [visitHandlers, visitLabel] at h
      cases ht : code.labelAt? r.handler with
      | none => simp [ht] at h
      | some t =>
          cases hv : p.visit t 1 with
          | error e => simp [ht, hv] at h
          | ok q =>
              simp only [ht, hv] at h
              obtain ⟨hext, hdeepest, hfound⟩ := visit_ok hv
              -- the stack is raised for the handler after the visit, and may be so before it
              have hq : Bounded { q with deepest := max q.deepest 1 } := by
                rw [hdeepest]
                exact (hp.raise hzero (by omega)).visit (Nat.le_max_right _ _) (visit_raised hv _)
              obtain ⟨hext', hp', hall⟩ := ih (p := { q with deepest := max q.deepest 1 })
                (hext.size.trans hsize) hq (hext.found hzero) h
              have hext'' : Extends q p' := (extends_deepest q _).trans hext'
              refine ⟨hext.trans hext'', hp', ?_⟩
              simp only [List.forall_mem_cons]
              exact ⟨⟨t, ht, hext''.found (hfound (hsize ▸ Code.labelAt?_lt ht))⟩, hall⟩

/-! ## Rounds -/

/-- **A position has been closed**: its instruction has a known effect and finds enough on the stack, and
the depth behind it has been found for all its successors. -/
def Closed (code : Code) (p : Pass) (i d : Nat) : Prop :=
  ∀ {instr : Instruction}, code[i]? = some instr →
    ∃ pops pushes, instr.delta = .ok (pops, pushes) ∧ pops ≤ d ∧ d - pops + pushes ≤ p.deepest
      ∧ (∀ id ∈ instr.targets, ∃ t, code.labelAt? id = some t ∧ p.Found t (d - pops + pushes))
      ∧ (instr.opcode.endsBlock = false → i + 1 < code.size → p.Found (i + 1) (d - pops + pushes))

lemma Closed.extends (h : Closed code p i d) (hp : Extends p p') (hle : p.deepest ≤ p'.deepest) :
    Closed code p' i d := by
  intro instr hcode
  obtain ⟨pops, pushes, hdelta, hpops, hafter, htargets, hnext⟩ := h hcode
  refine ⟨pops, pushes, hdelta, hpops, Nat.le_trans hafter hle, ?_,
    fun hends hlt => hp.found (hnext hends hlt)⟩
  intro id hid
  obtain ⟨t, ht, hf⟩ := htargets id hid
  exact ⟨t, ht, hp.found hf⟩

/-- **One round closes its position.** -/
lemma follow_ok (hsize : p.depths.size = code.size) (hp : p.Bounded) (hi : p.Found i d)
    (h : p.follow code i = .ok p') :
    Extends p p' ∧ p.deepest ≤ p'.deepest ∧ p'.Bounded ∧ Closed code p' i d := by
  have hlt : i < code.size := hsize ▸ (Array.getElem?_eq_some_iff.mp hi).1
  have hcode : code[i]? = some code[i] := Array.getElem?_eq_getElem hlt
  generalize code[i] = instr at hcode
  have hd : p.depths[i]? = some (some d) := hi
  simp only [Pass.follow, hcode, hd] at h
  cases hdelta : instr.delta with
  | error e => simp [hdelta] at h
  | ok effect =>
      obtain ⟨pops, pushes⟩ := effect
      simp only [hdelta] at h
      split at h
      · cases h
      next hpops =>
      cases hlabels : visitLabels code (d - pops + pushes) instr.targets
          { p with deepest := max p.deepest (d - pops + pushes) } with
      | error e => simp [hlabels] at h
      | ok q =>
          simp only [hlabels] at h
          have hraised : Bounded { p with deepest := max p.deepest (d - pops + pushes) } :=
            hp.raise hi (by have := Instruction.delta_le hdelta; omega)
          obtain ⟨hext, hdeepest, hq, htargets⟩ :=
            visitLabels_ok (by exact hsize) hraised (Nat.le_max_right _ _) hlabels
          have hext : Extends p q := (extends_deepest p _).trans hext
          have hdeeper : p.deepest ≤ q.deepest := hdeepest ▸ Nat.le_max_left _ _
          have hafter : d - pops + pushes ≤ q.deepest := hdeepest ▸ Nat.le_max_right _ _
          have hclosed : ∀ {r : Pass}, Extends q r → r.deepest = q.deepest →
              (instr.opcode.endsBlock = false → i + 1 < code.size →
                r.Found (i + 1) (d - pops + pushes)) → Closed code r i d := by
            intro r hr hsame hnext instr' hcode'
            obtain rfl : instr = instr' := by simpa [hcode] using hcode'
            refine ⟨pops, pushes, hdelta, by omega, hsame ▸ hafter, fun id hid => ?_, hnext⟩
            obtain ⟨t, ht, hf⟩ := htargets id hid
            exact ⟨t, ht, hr.found hf⟩
          split at h
          · next hends =>
              cases h
              exact ⟨hext, hdeeper, hq, hclosed (.refl _) rfl fun hne => by simp [hends] at hne⟩
          · obtain ⟨hext', hsame, hfound⟩ := visit_ok h
            refine ⟨hext.trans hext', hsame ▸ hdeeper, hq.visit hafter h,
              hclosed hext' hsame fun _ hlt' => ?_⟩
            exact hfound (by rwa [hext.size, hsize])

/-- **The invariant of the rounds**: what is pending has a depth, and what is not has been closed. -/
structure Closes (code : Code) (p : Pass) : Prop where
  size : p.depths.size = code.size
  bounded : p.Bounded
  pending : ∀ i ∈ p.pending, ∃ d, p.Found i d
  closed : ∀ {i d : Nat}, p.Found i d → i ∉ p.pending → Closed code p i d

/-- **Rounds until nothing is pending.**  A round takes one position off the load. -/
lemma Closes.loop {fuel : Nat} (hp : Closes code p) (hfuel : p.load < fuel)
    (h : p.loop code fuel = .ok p') :
    Closes code p' ∧ p'.pending = [] ∧ ∀ {i d : Nat}, p.Found i d → p'.Found i d := by
  induction fuel generalizing p with
  | zero => omega
  | succ fuel ih =>
      unfold Pass.loop at h
      split at h
      · next hnone =>
          cases h
          exact ⟨hp, hnone, id⟩
      next i rest hpending =>
      obtain ⟨d, hd⟩ := hp.pending i (by simp [hpending])
      cases hfollow : ({ p with pending := rest } : Pass).follow code i with
      | error e => simp [hfollow] at h
      | ok q =>
          simp only [hfollow] at h
          obtain ⟨hext, hdeeper, hbounded, hclosed⟩ := follow_ok (p := { p with pending := rest }) hp.size
            ⟨hp.bounded.depth, hp.bounded.room, hp.bounded.deepest⟩ hd hfollow
          have hq : Closes code q := by
            refine ⟨hext.size.trans hp.size, hbounded, fun j hj => ?_, fun {j e} hf hj => ?_⟩
            · rcases hext.added j hj with hj | hf
              · obtain ⟨e, he⟩ := hp.pending j (by simp [hpending, show j ∈ rest from hj])
                exact ⟨e, hext.found he⟩
              · exact hf
            · rcases hext.fresh hf with hold | hnew
              · by_cases hji : j = i
                · subst hji
                  obtain rfl := Found.unique hold hd
                  exact hclosed
                · have hnot : j ∉ p.pending := by
                    simp only [hpending, List.mem_cons, not_or]
                    exact ⟨hji, fun hr => hj (hext.pending j hr)⟩
                  have hbefore : Closed code { p with pending := rest } j e := hp.closed hold hnot
                  exact hbefore.extends hext hdeeper
              · exact absurd hnew hj
          have hload : q.load < fuel := by
            have hless : Pass.load { p with pending := rest } + 1 = p.load := by
              simp [load, hpending, Nat.add_assoc]
            have := hext.load
            omega
          obtain ⟨hp', hempty, hkeep⟩ := ih hq hload h
          exact ⟨hp', hempty, fun hf => hkeep (hext.found hf)⟩

end Pass

/-! ## Whole bodies -/

/-- **The depths of a body fit each other.**  No stack is above the deepest one, not even behind the last
instruction, and the deepest one is at most twice the number of instructions. -/
theorem run_labelling (h : run code ranges = .ok p) (hne : 0 < code.size) :
    Labelling code ranges p.Found ∧
      (∀ {i d pops pushes : Nat} {instr : Instruction}, p.Found i d → code[i]? = some instr →
        instr.delta = .ok (pops, pushes) → d ≤ p.deepest ∧ d - pops + pushes ≤ p.deepest) ∧
      p.deepest ≤ 2 * code.size := by
  have hsize : (Array.replicate code.size (none : Option Nat)).size = code.size := by simp
  have hfresh : ∀ {i d : Nat}, ¬ Pass.Found { depths := Array.replicate code.size none } i d := by
    intro i d hf
    unfold Pass.Found at hf
    rw [Array.getElem?_replicate] at hf
    split at hf <;> cases hf
  have hnothing : Pass.Bounded { depths := Array.replicate code.size none } :=
    ⟨fun hf => absurd hf hfresh, fun hf => absurd hf hfresh, by simp [Pass.blank]⟩
  unfold run start at h
  cases hentry : Pass.visit { depths := Array.replicate code.size none } 0 0 with
  | error e => simp [hentry] at h
  | ok p₁ =>
  cases hhandlers : p₁.visitHandlers code ranges with
  | error e => simp [hentry, hhandlers] at h
  | ok p₂ =>
  simp only [hentry, hhandlers] at h
  obtain ⟨hext₁, -, hfound⟩ := Pass.visit_ok hentry
  have hzero : p₁.Found 0 0 := hfound (hsize.symm ▸ hne)
  obtain ⟨hext₂, hbounded, hranges⟩ := Pass.visitHandlers_ok (hext₁.size.trans hsize)
    (hnothing.visit (Nat.le_refl 0) hentry) hzero hhandlers
  have hext := hext₁.trans hext₂
  have hcloses : Pass.Closes code p₂ := by
    refine ⟨hext.size.trans hsize, hbounded, fun i hi => ?_, fun {i d} hf hi => ?_⟩
    · rcases hext.added i hi with hi | hf
      · cases hi
      · exact hf
    · rcases hext.fresh hf with hf | hi'
      · exact absurd hf hfresh
      · exact absurd hi' hi
  have hload : p₂.load < code.size + 1 := by
    rw [hext.load]
    simp [Pass.load]
  obtain ⟨hp, hempty, hkeep⟩ := hcloses.loop hload h
  have hclosed : ∀ {i d : Nat}, p.Found i d → Pass.Closed code p i d :=
    fun hf => hp.closed hf (by simp [hempty])
  refine ⟨⟨Pass.Found.unique, hkeep (hext₂.found hzero), fun r hr => ?_, ?_⟩, ?_, ?_⟩
  · obtain ⟨i, hi, hf⟩ := hranges r hr
    exact ⟨i, hi, hkeep hf⟩
  · intro i d instr hf hcode
    obtain ⟨pops, pushes, hdelta, hpops, -, htargets, hnext⟩ := hclosed hf hcode
    exact ⟨pops, pushes, hdelta, hpops, htargets, hnext⟩
  · intro i d pops pushes instr hf hcode hdelta
    obtain ⟨pops', pushes', hdelta', -, hafter, -⟩ := hclosed hf hcode
    cases hdelta.symm.trans hdelta'
    exact ⟨hp.bounded.depth hf, hafter⟩
  · have hdeepest := hp.bounded.deepest
    rw [hp.size] at hdeepest
    omega

end StackDepth

end Suspension
