import Mathlib.Tactic.Common
import Suspension.Proofs.Code.Labels
import Suspension.StackDepth

/-!
# Depths along the control flow

The pass over a body computes one depth for each position.  Here its result is described by the
**paths of the control flow** instead: control enters at the beginning with an empty stack and at
every handler with the exception alone, and each instruction changes the depth by its effect.

* `StackDepth.Arrives` — control arrives at a position with a depth.
* `StackDepth.Steady` — all paths agree, no instruction underflows, and every label is there.
* `StackDepth.run_steady` — the pass over a steady body succeeds, and finds the depths with which
  control arrives.
* `StackDepth.Labelling` — depths that fit each other along every edge make a body steady.
* `StackDepth.Leads` — straight code takes one depth to another.

The pass keeps a worklist.  Its invariant is `StackDepth.Pass.Traces`: a depth that has been found is
one with which control arrives, and a position that is not pending has been followed.  A position
becomes pending only when its depth is found, so `StackDepth.Pass.load` falls with every round.
-/

namespace Suspension

namespace StackDepth

/-- **Control arrives at a position with a depth.** -/
inductive Arrives (code : Code) (ranges : List ExceptionRange) : Nat → Nat → Prop where
  | entry (hlt : 0 < code.size) : Arrives code ranges 0 0
  | handler {r : ExceptionRange} {i : Nat} (hr : r ∈ ranges)
      (hi : code.labelAt? r.handler = some i) : Arrives code ranges i 1
  | target {i d pops pushes t : Nat} {instr : Instruction} {id : Label}
      (h : Arrives code ranges i d) (hcode : code[i]? = some instr)
      (hdelta : instr.delta = .ok (pops, pushes)) (hid : id ∈ instr.targets)
      (ht : code.labelAt? id = some t) : Arrives code ranges t (d - pops + pushes)
  | next {i d pops pushes : Nat} {instr : Instruction} (h : Arrives code ranges i d)
      (hcode : code[i]? = some instr) (hdelta : instr.delta = .ok (pops, pushes))
      (hends : instr.opcode.endsBlock = false) (hlt : i + 1 < code.size) :
      Arrives code ranges (i + 1) (d - pops + pushes)

/-- **A body with one depth at each position**: all paths to it agree, its instruction has a known
effect and finds enough on the stack, and the labels that it may jump to are there. -/
structure Steady (code : Code) (ranges : List ExceptionRange) : Prop where
  handlers : ∀ r ∈ ranges, ∃ i, code.labelAt? r.handler = some i
  agree : ∀ {i d e : Nat}, Arrives code ranges i d → Arrives code ranges i e → d = e
  effect : ∀ {i d : Nat} {instr : Instruction}, Arrives code ranges i d → code[i]? = some instr →
    ∃ pops pushes, instr.delta = .ok (pops, pushes) ∧ pops ≤ d
  targets : ∀ {i d : Nat} {instr : Instruction}, Arrives code ranges i d → code[i]? = some instr →
    ∀ id ∈ instr.targets, ∃ t, code.labelAt? id = some t

variable {code : Code} {ranges : List ExceptionRange} {p p₁ p' : Pass} {i d : Nat}

/-! ## Finding depths -/

namespace Pass

/-- A depth has been found for a position. -/
def Found (p : Pass) (i d : Nat) : Prop := p.depths[i]? = some (some d)

/-- What is left to do: the positions without a depth and those that are pending. -/
def load (p : Pass) : Nat := p.depths.toList.count none + p.pending.length

/-- **Depths are only added**, and a position whose depth is new is pending. -/
structure Extends (p p' : Pass) : Prop where
  size : p'.depths.size = p.depths.size
  found : ∀ {i d : Nat}, p.Found i d → p'.Found i d
  fresh : ∀ {i d : Nat}, p'.Found i d → p.Found i d ∨ i ∈ p'.pending
  pending : ∀ i ∈ p.pending, i ∈ p'.pending
  added : ∀ i ∈ p'.pending, i ∈ p.pending ∨ ∃ d, p'.Found i d
  load : p'.load = p.load

lemma Extends.refl (p : Pass) : Extends p p :=
  ⟨rfl, id, Or.inl, fun _ h => h, fun _ h => Or.inl h, rfl⟩

lemma Extends.trans (h : Extends p p₁) (h' : Extends p₁ p') : Extends p p' where
  size := h'.size.trans h.size
  found := fun hf => h'.found (h.found hf)
  fresh := by
    intro i d hf
    rcases h'.fresh hf with hf | hp
    · rcases h.fresh hf with hf | hp
      · exact Or.inl hf
      · exact Or.inr (h'.pending i hp)
    · exact Or.inr hp
  pending := fun i hi => h'.pending i (h.pending i hi)
  added := by
    intro i hi
    rcases h'.added i hi with hi | hf
    · rcases h.added i hi with hi | ⟨d, hf⟩
      · exact Or.inl hi
      · exact Or.inr ⟨d, h'.found hf⟩
    · exact Or.inr hf
  load := h'.load.trans h.load

/-- The deepest stack does not count for what has been found. -/
lemma extends_deepest (p : Pass) (n : Nat) : Extends p { p with deepest := n } :=
  ⟨rfl, id, Or.inl, fun _ h => h, fun _ h => Or.inl h, rfl⟩

/-- What is found after one more depth has been. -/
lemma found_set (hlt : i < p.depths.size) {pending : List Nat} {deepest j e : Nat} :
    Found ⟨p.depths.set! i (some d), pending, deepest⟩ j e
      ↔ (j = i ∧ e = d) ∨ (j ≠ i ∧ p.Found j e) := by
  unfold Found
  rw [Array.set!_eq_setIfInBounds, Array.getElem?_setIfInBounds]
  by_cases h : i = j
  · subst h
    simp [hlt, eq_comm]
  · simp [h, Ne.symm h]

/-- A new depth is found. -/
lemma extends_set (hi : p.depths[i]? = some none) :
    Extends p { p with depths := p.depths.set! i (some d), pending := i :: p.pending } := by
  obtain ⟨hlt, hnone⟩ := Array.getElem?_eq_some_iff.mp hi
  refine ⟨by simp, ?_, ?_, fun j hj => List.mem_cons_of_mem i hj, fun j hj => ?_, ?_⟩
  · intro j e hf
    refine (found_set hlt).mpr (Or.inr ⟨?_, hf⟩)
    rintro rfl
    unfold Found at hf
    rw [hi] at hf
    cases hf
  · intro j e hf
    rcases (found_set hlt).mp hf with ⟨rfl, -⟩ | ⟨-, hf⟩
    · exact Or.inr List.mem_cons_self
    · exact Or.inl hf
  · rcases List.mem_cons.mp hj with rfl | hj
    · exact Or.inr ⟨d, (found_set hlt).mpr (Or.inl ⟨rfl, rfl⟩)⟩
    · exact Or.inl hj
  · -- one position without a depth less, one pending position more
    have hcount : 0 < p.depths.toList.count none := by
      rw [List.count_pos_iff]
      exact Array.mem_toList_iff.mpr (Array.mem_of_getElem? hi)
    have hset : (p.depths.toList.set i (some d)).count none + 1 = p.depths.toList.count none := by
      rw [List.count_set (by simpa using hlt), Array.getElem_toList, hnone]
      change p.depths.toList.count none - 1 + 0 + 1 = p.depths.toList.count none
      omega
    unfold load
    rw [Array.set!_eq_setIfInBounds, Array.toList_setIfInBounds, List.length_cons]
    omega

/-- **Control reaches a position**, with a depth that no other contradicts. -/
lemma visit_eq_ok (hsize : p.depths.size = code.size) (hagree : ∀ e, p.Found i e → e = d) :
    ∃ p', p.visit i d = .ok p' ∧ Extends p p' ∧ (i < code.size → p'.Found i d) ∧
      ∀ {j e : Nat}, p'.Found j e → p.Found j e ∨ (j = i ∧ e = d ∧ i < code.size) := by
  unfold visit
  split
  · next hnone =>
      rw [Array.getElem?_eq_none_iff] at hnone
      exact ⟨p, rfl, .refl p, fun hlt => by omega, Or.inl⟩
  · next hnone =>
      obtain ⟨hlt, -⟩ := Array.getElem?_eq_some_iff.mp hnone
      refine ⟨_, rfl, extends_set hnone, fun _ => (found_set hlt).mpr (Or.inl ⟨rfl, rfl⟩), ?_⟩
      intro j e hf
      rcases (found_set hlt).mp hf with ⟨rfl, rfl⟩ | ⟨-, hf⟩
      · exact Or.inr ⟨rfl, rfl, hsize ▸ hlt⟩
      · exact Or.inl hf
  · next e he =>
      obtain rfl := hagree e he
      exact ⟨p, by simp, .refl p, fun _ => he, Or.inl⟩

/-! ## Following positions -/

/-- **A position has been followed**: the depth behind its instruction has been found for all its
successors. -/
def Followed (code : Code) (p : Pass) (i d : Nat) : Prop :=
  ∀ {instr : Instruction} {pops pushes : Nat}, code[i]? = some instr →
    instr.delta = .ok (pops, pushes) →
    (∀ id ∈ instr.targets, ∀ t, code.labelAt? id = some t → p.Found t (d - pops + pushes)) ∧
    (instr.opcode.endsBlock = false → i + 1 < code.size → p.Found (i + 1) (d - pops + pushes))

lemma Followed.extends (h : Followed code p i d) (hp : Extends p p') : Followed code p' i d := by
  intro instr pops pushes hcode hdelta
  obtain ⟨htargets, hnext⟩ := h hcode hdelta
  exact ⟨fun id hid t ht => hp.found (htargets id hid t ht),
    fun hends hlt => hp.found (hnext hends hlt)⟩

/-- **What the pass keeps true**: a depth that has been found is one with which control arrives. -/
structure Traces (code : Code) (ranges : List ExceptionRange) (p : Pass) : Prop where
  size : p.depths.size = code.size
  arrives : ∀ {i d : Nat}, p.Found i d → Arrives code ranges i d

/-- **Control reaches a position** of a steady body. -/
lemma Traces.visit (hs : Steady code ranges) (hp : Traces code ranges p)
    (hi : i < code.size → Arrives code ranges i d) :
    ∃ p', p.visit i d = .ok p' ∧ Extends p p' ∧ Traces code ranges p'
      ∧ (i < code.size → p'.Found i d) := by
  have hagree : ∀ e, p.Found i e → e = d := by
    intro e he
    have hlt : i < code.size := hp.size ▸ (Array.getElem?_eq_some_iff.mp he).1
    exact hs.agree (hp.arrives he) (hi hlt)
  obtain ⟨p', hvisit, hext, hfound, hall⟩ := visit_eq_ok hp.size hagree
  refine ⟨p', hvisit, hext, ⟨hext.size.trans hp.size, fun {j e} hf => ?_⟩, hfound⟩
  rcases hall hf with hf | ⟨rfl, rfl, hlt⟩
  · exact hp.arrives hf
  · exact hi hlt

/-- **Control reaches the labels of a jump.** -/
lemma Traces.visitLabels (hs : Steady code ranges) {ids : List Label} (hp : Traces code ranges p)
    (hids : ∀ id ∈ ids, ∃ t, code.labelAt? id = some t ∧ Arrives code ranges t d) :
    ∃ p', p.visitLabels code d ids = .ok p' ∧ Extends p p' ∧ Traces code ranges p'
      ∧ ∀ id ∈ ids, ∀ t, code.labelAt? id = some t → p'.Found t d := by
  induction ids generalizing p with
  | nil => exact ⟨p, rfl, .refl p, hp, by simp⟩
  | cons id ids ih =>
      obtain ⟨t, ht, harrives⟩ := hids id List.mem_cons_self
      obtain ⟨p₁, hvisit, hext₁, hp₁, hfound⟩ := hp.visit hs fun _ => harrives
      obtain ⟨p', hrest, hext, hp', hall⟩ :=
        ih hp₁ fun id' hid' => hids id' (List.mem_cons_of_mem id hid')
      refine ⟨p', ?_, hext₁.trans hext, hp', fun id' hid' t' ht' => ?_⟩
      · simp only [Pass.visitLabels, visitLabel, ht, hvisit, hrest]
      · rcases List.mem_cons.mp hid' with rfl | hid'
        · rw [ht] at ht'
          cases ht'
          exact hext.found (hfound (Code.labelAt?_lt ht))
        · exact hall id' hid' t' ht'

/-- **Control reaches the handlers.** -/
lemma Traces.visitHandlers (hs : Steady code ranges) {rest : List ExceptionRange}
    (hrest : ∀ r ∈ rest, r ∈ ranges) (hp : Traces code ranges p) :
    ∃ p', p.visitHandlers code rest = .ok p' ∧ Extends p p' ∧ Traces code ranges p'
      ∧ ∀ r ∈ rest, ∀ i, code.labelAt? r.handler = some i → p'.Found i 1 := by
  induction rest generalizing p with
  | nil => exact ⟨p, rfl, .refl p, hp, by simp⟩
  | cons r rest ih =>
      have hr := hrest r List.mem_cons_self
      obtain ⟨i, hi⟩ := hs.handlers r hr
      obtain ⟨p₁, hvisit, hext₁, hp₁, hfound⟩ := hp.visit hs fun _ => .handler hr hi
      obtain ⟨p', hgo, hext, hp', hall⟩ := ih (p := { p₁ with deepest := max p₁.deepest 1 })
        (fun r' hr' => hrest r' (List.mem_cons_of_mem r hr')) ⟨hp₁.size, hp₁.arrives⟩
      have hext₁' : Extends p₁ p' := (extends_deepest p₁ _).trans hext
      refine ⟨p', ?_, hext₁.trans hext₁', hp', fun r' hr' i' hi' => ?_⟩
      · simp only [Pass.visitHandlers, visitLabel, hi, hvisit, hgo]
      · rcases List.mem_cons.mp hr' with rfl | hr'
        · rw [hi] at hi'
          cases hi'
          exact hext₁'.found (hfound (Code.labelAt?_lt hi))
        · exact hall r' hr' i' hi'

/-- **One position is followed.** -/
lemma Traces.follow (hs : Steady code ranges) (hp : Traces code ranges p) (hi : p.Found i d) :
    ∃ p', p.follow code i = .ok p' ∧ Extends p p' ∧ Traces code ranges p'
      ∧ Followed code p' i d := by
  have harrives := hp.arrives hi
  have hlt : i < code.size := hp.size ▸ (Array.getElem?_eq_some_iff.mp hi).1
  have hcode : code[i]? = some code[i] := Array.getElem?_eq_getElem hlt
  generalize code[i] = instr at hcode
  obtain ⟨pops, pushes, hdelta, hpops⟩ := hs.effect harrives hcode
  have hids : ∀ id ∈ instr.targets, ∃ t, code.labelAt? id = some t
      ∧ Arrives code ranges t (d - pops + pushes) := by
    intro id hid
    obtain ⟨t, ht⟩ := hs.targets harrives hcode id hid
    exact ⟨t, ht, .target harrives hcode hdelta hid ht⟩
  obtain ⟨p₁, hlabels, hext₁, hp₁, htargets⟩ := Traces.visitLabels hs
    (p := { p with deepest := max p.deepest (d - pops + pushes) }) ⟨hp.size, hp.arrives⟩ hids
  have hext₁ : Extends p p₁ := (extends_deepest p _).trans hext₁
  have hgo : p.follow code i = if instr.opcode.endsBlock then .ok p₁
      else p₁.visit (i + 1) (d - pops + pushes) := by
    unfold Found at hi
    simp only [Pass.follow, hcode, hi, hdelta, if_neg (Nat.not_lt.mpr hpops), hlabels]
  rw [hgo]
  by_cases hends : instr.opcode.endsBlock = true
  · refine ⟨p₁, by simp [hends], hext₁, hp₁, ?_⟩
    intro instr' pops' pushes' hcode' hdelta'
    rw [hcode] at hcode'
    cases hcode'
    rw [hdelta] at hdelta'
    cases hdelta'
    exact ⟨htargets, fun hne => by simp [hends] at hne⟩
  · obtain ⟨p', hvisit, hext, hp', hfound⟩ := hp₁.visit hs (i := i + 1) fun hlt' =>
      .next harrives hcode hdelta (by simpa using hends) hlt'
    refine ⟨p', by simpa [hends] using hvisit, hext₁.trans hext, hp', ?_⟩
    intro instr' pops' pushes' hcode' hdelta'
    rw [hcode] at hcode'
    cases hcode'
    rw [hdelta] at hdelta'
    cases hdelta'
    exact ⟨fun id hid t ht => hext.found (htargets id hid t ht), fun _ hlt' => hfound hlt'⟩

/-- **The invariant of the loop**: besides, a position that is not pending has been followed. -/
structure Settles (code : Code) (ranges : List ExceptionRange) (p : Pass) : Prop extends
    Traces code ranges p where
  pending : ∀ i ∈ p.pending, ∃ d, p.Found i d
  followed : ∀ {i d : Nat}, p.Found i d → i ∉ p.pending → Followed code p i d

/-- **Following positions until none is left.**  Every round takes a position off the load. -/
lemma Settles.loop (hs : Steady code ranges) {fuel : Nat} (hp : Settles code ranges p)
    (hfuel : p.load < fuel) :
    ∃ p', p.loop code fuel = .ok p' ∧ Settles code ranges p' ∧ p'.pending = []
      ∧ ∀ {i d : Nat}, p.Found i d → p'.Found i d := by
  induction fuel generalizing p with
  | zero => omega
  | succ fuel ih =>
      unfold Pass.loop
      split
      · next hnone => exact ⟨p, rfl, hp, hnone, id⟩
      next i rest hpending =>
      obtain ⟨d, hd⟩ := hp.pending i (by simp [hpending])
      obtain ⟨p₁, hfollow, hext, hp₁, hdone⟩ := Traces.follow hs (i := i) (d := d)
        (p := { p with pending := rest }) ⟨hp.size, hp.arrives⟩ hd
      have hp₁' : Settles code ranges p₁ := by
        refine ⟨hp₁, fun j hj => ?_, fun {j e} hf hj => ?_⟩
        · rcases hext.added j hj with hj | hf
          · obtain ⟨e, he⟩ := hp.pending j (by simp [hpending, show j ∈ rest from hj])
            exact ⟨e, hext.found he⟩
          · exact hf
        · -- its depth is not new, and if it is not the one that was followed it had been before
          rcases hext.fresh hf with hold | hnew
          · by_cases hji : j = i
            · subst hji
              have hsame : some (some e) = some (some d) := hold.symm.trans hd
              cases hsame
              exact hdone
            · have hnot : j ∉ p.pending := by
                rw [hpending, List.mem_cons, not_or]
                exact ⟨hji, fun hr => hj (hext.pending j hr)⟩
              have hbefore : Followed code { p with pending := rest } j e := hp.followed hold hnot
              exact hbefore.extends hext
          · exact absurd hnew hj
      have hload : p₁.load < fuel := by
        have hless : Pass.load { p with pending := rest } + 1 = p.load := by
          simp [load, hpending, Nat.add_assoc]
        have := hext.load
        omega
      obtain ⟨p', hgo, hp', hempty, hkeep⟩ := ih hp₁' hload
      refine ⟨p', ?_, hp', hempty, fun hf => hkeep (hext.found hf)⟩
      simp only [hfollow, hgo]

end Pass

/-- **The pass over a steady body succeeds**, and the depths that it finds are those with which control
arrives. -/
theorem run_steady (hs : Steady code ranges) :
    ∃ p, run code ranges = .ok p ∧ ∀ {i d : Nat}, p.Found i d ↔ Arrives code ranges i d := by
  have hstart : Pass.Traces code ranges { depths := Array.replicate code.size none } := by
    refine ⟨by simp, fun {i d} hf => ?_⟩
    unfold Pass.Found at hf
    rw [Array.getElem?_replicate] at hf
    split at hf <;> cases hf
  obtain ⟨p₁, hvisit, hext₁, hp₁, hentry⟩ := hstart.visit hs (i := 0) (d := 0) .entry
  obtain ⟨p₂, hhandlers, hext₂, hp₂, hfound⟩ := hp₁.visitHandlers hs fun _ hr => hr
  have hext := hext₁.trans hext₂
  have hsettles : Pass.Settles code ranges p₂ := by
    refine ⟨hp₂, fun i hi => ?_, fun {i d} hf hi => ?_⟩
    · rcases hext.added i hi with hi | hf
      · cases hi
      · exact hf
    · rcases hext.fresh hf with hf | hi'
      · unfold Pass.Found at hf
        rw [Array.getElem?_replicate] at hf
        split at hf <;> cases hf
      · exact absurd hi' hi
  have hload : p₂.load < code.size + 1 := by
    rw [hext.load]
    simp [Pass.load]
  obtain ⟨p, hloop, hp, hempty, hkeep⟩ := hsettles.loop hs hload
  refine ⟨p, by simp only [run, start, hvisit, hhandlers, hloop], fun {i d} => ⟨hp.arrives, ?_⟩⟩
  intro harrives
  induction harrives with
  | entry hlt => exact hkeep (hext₂.found (hentry hlt))
  | handler hr hi => exact hkeep (hfound _ hr _ hi)
  | target _ hcode hdelta hid ht ih =>
      exact (hp.followed ih (by simp [hempty]) hcode hdelta).1 _ hid _ ht
  | next _ hcode hdelta hends hlt ih =>
      exact (hp.followed ih (by simp [hempty]) hcode hdelta).2 hends hlt

/-! ## Depths that fit each other -/

/-- **Depths that fit each other**: they begin with those of the entry and the handlers, and the depth
behind an instruction is that of its successors. -/
structure Labelling (code : Code) (ranges : List ExceptionRange) (L : Nat → Nat → Prop) : Prop where
  unique : ∀ {i d e : Nat}, L i d → L i e → d = e
  entry : L 0 0
  handlers : ∀ r ∈ ranges, ∃ i, code.labelAt? r.handler = some i ∧ L i 1
  step : ∀ {i d : Nat} {instr : Instruction}, L i d → code[i]? = some instr →
    ∃ pops pushes, instr.delta = .ok (pops, pushes) ∧ pops ≤ d
      ∧ (∀ id ∈ instr.targets, ∃ t, code.labelAt? id = some t ∧ L t (d - pops + pushes))
      ∧ (instr.opcode.endsBlock = false → i + 1 < code.size → L (i + 1) (d - pops + pushes))

variable {L : Nat → Nat → Prop}

lemma Labelling.of_arrives (hL : Labelling code ranges L) (h : Arrives code ranges i d) : L i d := by
  induction h with
  | entry => exact hL.entry
  | handler hr hi =>
      obtain ⟨i', hi', h⟩ := hL.handlers _ hr
      rw [hi] at hi'
      cases hi'
      exact h
  | target _ hcode hdelta hid ht ih =>
      obtain ⟨pops, pushes, hdelta', -, htargets, -⟩ := hL.step ih hcode
      rw [hdelta] at hdelta'
      cases hdelta'
      obtain ⟨t', ht', h⟩ := htargets _ hid
      rw [ht] at ht'
      cases ht'
      exact h
  | next _ hcode hdelta hends hlt ih =>
      obtain ⟨pops, pushes, hdelta', -, -, hnext⟩ := hL.step ih hcode
      rw [hdelta] at hdelta'
      cases hdelta'
      exact hnext hends hlt

/-- **A body whose depths fit each other is steady.** -/
lemma Labelling.steady (hL : Labelling code ranges L) : Steady code ranges where
  handlers := by
    intro r hr
    obtain ⟨i, hi, -⟩ := hL.handlers r hr
    exact ⟨i, hi⟩
  agree := fun h h' => hL.unique (hL.of_arrives h) (hL.of_arrives h')
  effect := by
    intro i d instr h hcode
    obtain ⟨pops, pushes, hdelta, hpops, -⟩ := hL.step (hL.of_arrives h) hcode
    exact ⟨pops, pushes, hdelta, hpops⟩
  targets := by
    intro i d instr h hcode id hid
    obtain ⟨_, _, -, -, htargets, -⟩ := hL.step (hL.of_arrives h) hcode
    obtain ⟨t, ht, -⟩ := htargets id hid
    exact ⟨t, ht⟩

/-! ## Straight code -/

/-- **Straight code leads from one depth to another**: none of its instructions jumps.  What else is
known of their opcodes is `P`. -/
inductive Leads (P : Opcode → Prop) : List Instruction → Nat → Nat → Prop where
  | nil {d : Nat} : Leads P [] d d
  | cons {instr : Instruction} {l : List Instruction} {d e pops pushes : Nat} (hP : P instr.opcode)
      (hdelta : instr.delta = .ok (pops, pushes)) (hpops : pops ≤ d) (htargets : instr.targets = [])
      (h : Leads P l (d - pops + pushes) e) : Leads P (instr :: l) d e

/-- Straight code that control passes through. -/
abbrev Flows : List Instruction → Nat → Nat → Prop := Leads fun op => op.endsBlock = false

variable {P Q : Opcode → Prop} {l l' : List Instruction} {e e' : Nat}

lemma Leads.mono (h : Leads P l d e) (hPQ : ∀ op, P op → Q op) : Leads Q l d e := by
  induction h with
  | nil => exact .nil
  | cons hP hdelta hpops htargets _ ih => exact .cons (hPQ _ hP) hdelta hpops htargets ih

lemma Leads.append (h : Leads P l d e) (h' : Leads P l' e e') : Leads P (l ++ l') d e' := by
  induction h with
  | nil => exact h'
  | cons hP hdelta hpops htargets _ ih => exact .cons hP hdelta hpops htargets (ih h')

lemma Leads.split (h : Leads P (l ++ l') d e) : ∃ m, Leads P l d m ∧ Leads P l' m e := by
  induction l generalizing d with
  | nil => exact ⟨d, .nil, h⟩
  | cons instr l ih =>
      cases h with
      | cons hP hdelta hpops htargets h =>
          obtain ⟨m, hm, hm'⟩ := ih h
          exact ⟨m, .cons hP hdelta hpops htargets hm, hm'⟩

lemma Leads.unique (h : Leads P l d e) (h' : Leads P l d e') : e = e' := by
  induction h with
  | nil =>
      cases h'
      rfl
  | cons _ hdelta _ _ _ ih =>
      cases h' with
      | cons _ hdelta' _ _ h' =>
          rw [hdelta] at hdelta'
          cases hdelta'
          exact ih h'

end StackDepth

end Suspension
