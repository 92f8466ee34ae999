import Mathlib.Tactic.Common
import Suspension.Repetition

/-!
# What a repeated step comes to

Repeating a step has a result exactly where the step comes to one, and `result?` unfolds turn by turn, be
there an end or not.

* `result?_eq_some_iff` — the result is what the step comes to.
* `result?_of_inl`, `result?_of_inr` — one turn.
* `result?_of_circle` — a turn that leads back.
-/

namespace Suspension

variable {σ ρ : Type} {step : σ → ρ ⊕ σ} {x y : σ} {r : ρ}

lemma ComesTo.acc (h : ComesTo step x r) : Acc (fun y x => step x = .inr y) x := by
  induction h with
  | done h =>
      refine ⟨_, fun y hy => ?_⟩
      rw [h] at hy
      cases hy
  | next h _ ih =>
      refine ⟨_, fun y hy => ?_⟩
      rw [h] at hy
      cases hy
      exact ih

lemma result?_turn (hx : Acc (fun y x => step x = .inr y) x) : result? step x
    = (Repetition.turn step x fun y _ =>
        WellFounded.partialExtrinsicFix (fun y x => step x = .inr y) (Repetition.turn step) y).1 :=
  congrArg Subtype.val (WellFounded.partialExtrinsicFix_eq_apply_of_acc hx)

lemma comesTo_of_result? (h : result? step x = some r) : ComesTo step x r :=
  (WellFounded.partialExtrinsicFix (fun y x => step x = .inr y) (Repetition.turn step) x).2 r h

lemma ComesTo.result? (h : ComesTo step x r) : result? step x = some r := by
  have hturn := result?_turn h.acc
  induction h with
  | done h =>
      rw [hturn]
      unfold Repetition.turn
      split
      · next r' h' =>
          rw [h] at h'
          cases h'
          rfl
      · next y h' =>
          rw [h] at h'
          cases h'
  | next h hrest ih =>
      rw [hturn]
      unfold Repetition.turn
      split
      · next r' h' =>
          rw [h] at h'
          cases h'
      · next y h' =>
          rw [h] at h'
          cases h'
          exact ih (result?_turn hrest.acc)

/-- **The result is what the step comes to.** -/
theorem result?_eq_some_iff : result? step x = some r ↔ ComesTo step x r :=
  ⟨comesTo_of_result?, ComesTo.result?⟩

lemma result?_of_inl (h : step x = .inl r) : result? step x = some r := ComesTo.result? (.done h)

/-- **The next turn**, whether there is an end or not. -/
lemma result?_of_inr (h : step x = .inr y) : result? step x = result? step y := by
  refine Option.ext fun r => ?_
  rw [result?_eq_some_iff, result?_eq_some_iff]
  refine ⟨fun hx => ?_, .next h⟩
  cases hx with
  | done h' =>
      rw [h] at h'
      cases h'
  | next h' hrest =>
      rw [h] at h'
      cases h'
      exact hrest

/-- **A step that leads back to where it began** comes to nothing. -/
lemma result?_of_circle (h : step x = .inr x) : result? step x = none := by
  cases hr : result? step x with
  | none => rfl
  | some r =>
      have hcomes := comesTo_of_result? hr
      clear hr
      generalize hy : x = y at hcomes
      induction hcomes with
      | done h' =>
          subst hy
          rw [h] at h'
          cases h'
      | next h' _ ih =>
          subst hy
          rw [h] at h'
          cases h'
          exact ih rfl

end Suspension
