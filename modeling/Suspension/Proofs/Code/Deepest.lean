import Mathlib.Order.Bounds.Basic
import Suspension.Proofs.Code.Closure

/-!
# The deepest stack is reached

The pass over depths keeps the deepest stack that it has seen.  It is **the greatest depth behind an
instruction**, and nothing else: at least one if the body has a protected range, since a handler
begins with the exception.

* `StackDepth.Pass.Behind` — the depths behind the instructions that have been given one.
* `StackDepth.floor` — what a body needs before any instruction is looked at.
* `StackDepth.run_deepest` — the deepest stack of a successful pass.

No depth is above the deepest one by `StackDepth.run_labelling`; what is added here is that a round
raises the deepest stack only to the depth behind its own instruction.
-/

namespace Suspension

namespace StackDepth

variable {code : Code} {ranges : List ExceptionRange} {p p' : Pass} {i d n : Nat}

/-- The depth of an exception that waits for its handler, if there is a handler at all. -/
def floor (ranges : List ExceptionRange) : Nat := if ranges = [] then 0 else 1

namespace Pass

/-- **A depth behind an instruction** that has been given one. -/
def Behind (code : Code) (p : Pass) (n : Nat) : Prop :=
  ∃ i d instr pops pushes, p.Found i d ∧ code[i]? = some instr
    ∧ instr.delta = .ok (pops, pushes) ∧ n = d - pops + pushes

/-- Depths that stay found stay behind their instructions. -/
lemma Behind.mono (h : p.Behind code n) (hp : ∀ {i d : Nat}, p.Found i d → p'.Found i d) :
    p'.Behind code n := by
  obtain ⟨i, d, instr, pops, pushes, hf, hrest⟩ := h
  exact ⟨i, d, instr, pops, pushes, hp hf, hrest⟩

/-- Visits to labels leave the deepest stack alone. -/
lemma visitLabels_extends {ids : List Label} (h : visitLabels code d ids p = .ok p') :
    Extends p p' ∧ p'.deepest = p.deepest := by
  induction ids generalizing p with
  | nil =>
      cases h
      exact ⟨.refl p', rfl⟩
  | cons id ids ih =>
      simp only [visitLabels, visitLabel] at h
      cases ht : code.labelAt? id with
      | none => simp [ht] at h
      | some t =>
          cases hv : p.visit t d with
          | error e => simp [ht, hv] at h
          | ok q =>
              simp only [ht, hv] at h
              obtain ⟨hext, hdeepest, -⟩ := visit_ok hv
              obtain ⟨hext', hdeepest'⟩ := ih h
              exact ⟨hext.trans hext', hdeepest'.trans hdeepest⟩

/-- Visits to the handlers raise the deepest stack to an exception's. -/
lemma visitHandlers_deepest {rest : List ExceptionRange} (h : visitHandlers code rest p = .ok p') :
    Extends p p' ∧ p'.deepest = max p.deepest (floor rest) := by
  induction rest generalizing p with
  | nil =>
      cases h
      exact ⟨.refl _, by simp [floor]⟩
  | cons r rest ih =>
      simp only [visitHandlers, visitLabel] at h
      cases ht : code.labelAt? r.handler with
      | none => simp [ht] at h
      | some t =>
          cases hv : p.visit t 1 with
          | error e => simp [ht, hv] at h
          | ok q =>
              simp only [ht, hv] at h
              obtain ⟨hext, hdeepest⟩ := ih h
              refine ⟨(visit_ok hv).1.trans ((extends_deepest q _).trans hext), ?_⟩
              rw [hdeepest]
              change max (max q.deepest 1) (floor rest) = max p.deepest 1
              rw [(visit_ok hv).2.1, max_assoc]
              congr 1
              unfold floor
              split <;> rfl

/-- **A round raises the deepest stack to the depth behind its instruction**, or not at all. -/
lemma follow_deepest (h : p.follow code i = .ok p') :
    Extends p p' ∧ p.deepest ≤ p'.deepest
      ∧ (p'.deepest = p.deepest ∨ p'.Behind code p'.deepest) := by
  cases hcode : code[i]? with
  | none =>
      simp only [Pass.follow, hcode] at h
      cases h
      exact ⟨.refl _, Nat.le_refl _, Or.inl rfl⟩
  | some instr =>
  by_cases hd : ∃ d, p.Found i d
  case neg =>
      unfold Pass.follow at h
      split at h
      · next d _ hd' => exact absurd ⟨d, hd'⟩ hd
      · cases h
        exact ⟨.refl _, Nat.le_refl _, Or.inl rfl⟩
  obtain ⟨d, hd⟩ := hd
  have hd' : p.depths[i]? = some (some d) := hd
  simp only [Pass.follow, hcode, hd'] at h
  cases hdelta : instr.delta with
  | error e => simp [hdelta] at h
  | ok effect =>
      obtain ⟨pops, pushes⟩ := effect
      simp only [hdelta] at h
      split at h
      · cases h
      cases hlabels : visitLabels code (d - pops + pushes) instr.targets
          { p with deepest := max p.deepest (d - pops + pushes) } with
      | error e => simp [hlabels] at h
      | ok q =>
          simp only [hlabels] at h
          obtain ⟨hext, hdeepest⟩ := visitLabels_extends hlabels
          have hext : Extends p q := (extends_deepest p _).trans hext
          have hlast : Extends q p' ∧ p'.deepest = q.deepest := by
            split at h
            · cases h
              exact ⟨.refl _, rfl⟩
            · exact ⟨(visit_ok h).1, (visit_ok h).2.1⟩
          have hext := hext.trans hlast.1
          have hsame : p'.deepest = max p.deepest (d - pops + pushes) := hlast.2.trans hdeepest
          refine ⟨hext, by omega, ?_⟩
          rcases Nat.le_total (d - pops + pushes) p.deepest with hle | hle
          · exact Or.inl (by omega)
          · exact Or.inr ⟨i, d, instr, pops, pushes, hext.found hd, hcode, hdelta, by omega⟩

/-- **All rounds together**: the deepest stack at the end is that of the beginning, or it is behind an
instruction. -/
lemma loop_deepest {fuel : Nat} (h : p.loop code fuel = .ok p') :
    p'.depths.size = p.depths.size ∧ (∀ {i d : Nat}, p.Found i d → p'.Found i d)
      ∧ p.deepest ≤ p'.deepest ∧ (p'.deepest = p.deepest ∨ p'.Behind code p'.deepest) := by
  induction fuel generalizing p with
  | zero =>
      cases h
      exact ⟨rfl, id, Nat.le_refl _, Or.inl rfl⟩
  | succ fuel ih =>
      unfold Pass.loop at h
      split at h
      · cases h
        exact ⟨rfl, id, Nat.le_refl _, Or.inl rfl⟩
      next i rest hpending =>
      cases hfollow : ({ p with pending := rest } : Pass).follow code i with
      | error e => simp [hfollow] at h
      | ok q =>
          simp only [hfollow] at h
          obtain ⟨hext, hle, hdeepest⟩ := follow_deepest hfollow
          have hle : p.deepest ≤ q.deepest := hle
          obtain ⟨hsize, hkeep, hle', hdeepest'⟩ := ih h
          refine ⟨hsize.trans hext.size, fun hf => hkeep (hext.found hf), hle.trans hle', ?_⟩
          rcases hdeepest' with hsame | hbehind
          · rw [hsame]
            exact hdeepest.imp_right fun hbehind => hbehind.mono hkeep
          · exact Or.inr hbehind

end Pass

/-- What a successful pass starts from: the visits to the entry and to the handlers, then the rounds. -/
lemma run_cases (h : run code ranges = .ok p) : ∃ p₁ p₂ : Pass,
    Pass.visit { depths := Array.replicate code.size none } 0 0 = .ok p₁
      ∧ p₁.visitHandlers code ranges = .ok p₂ ∧ p₂.loop code (code.size + 1) = .ok p := by
  unfold run start at h
  cases hentry : Pass.visit { depths := Array.replicate code.size none } 0 0 with
  | error e => simp [hentry] at h
  | ok p₁ =>
  cases hhandlers : p₁.visitHandlers code ranges with
  | error e => simp [hentry, hhandlers] at h
  | ok p₂ =>
  simp only [hentry, hhandlers] at h
  exact ⟨p₁, p₂, rfl, hhandlers, h⟩

/-- A successful pass has an entry for each position. -/
lemma run_size (h : run code ranges = .ok p) : p.depths.size = code.size := by
  obtain ⟨p₁, p₂, hentry, hhandlers, hloop⟩ := run_cases h
  rw [(Pass.loop_deepest hloop).1, (Pass.visitHandlers_deepest hhandlers).1.size,
    (Pass.visit_ok hentry).1.size, Array.size_replicate]

/-- **The deepest stack of a successful pass** is the greatest depth behind an instruction, and at least
that of an exception if the body has a protected range. -/
theorem run_deepest (h : run code ranges = .ok p) :
    IsGreatest ({n | p.Behind code n} ∪ {floor ranges}) p.deepest := by
  obtain ⟨p₁, p₂, hentry, hhandlers, hloop⟩ := run_cases h
  have hfloor : p₂.deepest = floor ranges := by
    rw [(Pass.visitHandlers_deepest hhandlers).2, (Pass.visit_ok hentry).2.1]
    exact Nat.zero_max _
  obtain ⟨-, -, hle, hdeepest⟩ := Pass.loop_deepest hloop
  rw [hfloor] at hle hdeepest
  refine ⟨hdeepest.symm, ?_⟩
  rintro n (⟨i, d, instr, pops, pushes, hf, hcode, hdelta, rfl⟩ | rfl)
  · have hne : 0 < code.size := Nat.zero_lt_of_lt (Array.getElem?_eq_some_iff.mp hcode).1
    exact ((run_labelling h hne).2.1 hf hcode hdelta).2
  · exact hle

/-- A stack is at most twice as deep as the body is long. -/
lemma run_deepest_le (h : run code ranges = .ok p) : p.deepest ≤ 2 * code.size := by
  rcases Nat.eq_zero_or_pos code.size with hzero | hne
  · -- an empty body has no label for a handler
    rcases (run_deepest h).1 with ⟨i, d, instr, pops, pushes, -, hcode, -⟩ | hfloor
    · exact absurd (Array.getElem?_eq_some_iff.mp hcode).1 (by omega)
    · obtain ⟨p₁, p₂, -, hhandlers, -⟩ := run_cases h
      cases ranges with
      | nil => exact (show p.deepest = floor [] from hfloor) ▸ Nat.zero_le _
      | cons r rest =>
          have hnone : code.labelAt? r.handler = none :=
            Option.eq_none_iff_forall_ne_some.mpr fun i hi => by
              have := Code.labelAt?_lt hi
              omega
          simp [Pass.visitHandlers, Pass.visitLabel, hnone] at hhandlers
  · exact (run_labelling h hne).2.2

end StackDepth

end Suspension
