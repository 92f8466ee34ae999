import Suspension.Frame.Analysis
import Suspension.Proofs.Frame.Notes
import Suspension.Proofs.Repetition

/-!
# Following positions to the end

The analysis follows pending positions until none is left.  What holds of every ending is shown by
induction **along the positions that were followed**; how many were counted on the way plays no role.

* `Conclusion.exists_ok`, `Conclusion.exists_some` — what shows something is a value.
* `Analysis.loop_eq_follow` — the count does not matter.
* `Analysis.follow_induction` — induction up to the ending.
* `Analysis.run_eq_ok`, `Analysis.run_eq_endless` — an analysis that succeeds, and one that goes on for ever.
-/

namespace Suspension

/-! ## Conclusions -/

namespace Conclusion

variable {α β : Type}

/-- **What shows something is a value.** -/
lemma exists_ok {r : Conclusion α × Hierarchy} {g : α → β} {x : β} (h : r.1.toOption.map g = some x) :
    ∃ v h', r = (.ok v, h') ∧ g v = x := by
  obtain ⟨c, h'⟩ := r
  obtain ⟨v, hv, hx⟩ := Option.map_eq_some_iff.mp h
  cases c with
  | ok w =>
      obtain rfl := Option.some.inj hv
      exact ⟨w, h', rfl, hx⟩
  | error | endless => cases hv

/-- **What has a property may be a value that is there.** -/
lemma exists_some {r : Conclusion (Option α) × Hierarchy} {P : α → Bool}
    (h : r.1.toOption.join.any P = true) : ∃ v h', r = (.ok (some v), h') ∧ P v = true := by
  obtain ⟨c, h'⟩ := r
  match c, h with
  | .ok (some v), h => exact ⟨v, h', rfl, h⟩

@[simp] lemma ofExcept_eq_ok {r : Except Fault α} {v : α} : ofExcept r = .ok v ↔ r = .ok v := by
  cases r <;> simp [ofExcept]

@[simp] lemma ofExcept_ne_endless (r : Except Fault α) : ofExcept r ≠ .endless := by
  cases r <;> simp [ofExcept]

end Conclusion

/-! ## Following positions -/

namespace Analysis

open Transfer

variable {ctx : AnalysisContext} {spans : List HandlerSpan} {a : Analysis}

lemma follow_done (hp : a.pending = []) : follow ctx spans a = some (.ok (), a) :=
  result?_of_inl (by simp only [followOne, hp])

lemma follow_error {i : Nat} {rest : List Nat} {e : FrameFault} {a' : Analysis}
    (hp : a.pending = i :: rest) (hstep : (step ctx spans i).run { a with pending := rest } = (.error e, a')) :
    follow ctx spans a = some (.error (i, e), a') :=
  result?_of_inl (by simp only [followOne, hp, hstep])

lemma follow_next {i : Nat} {rest : List Nat} {a' : Analysis} (hp : a.pending = i :: rest)
    (hstep : Gives (step ctx spans i) { a with pending := rest } () a') :
    follow ctx spans a = follow ctx spans a' := by
  unfold Gives at hstep
  exact result?_of_inr (by simp only [followOne, hp, hstep])

/-- **The count does not matter** to the ending. -/
lemma loop_eq_follow (count : Nat) (a : Analysis) :
    loop ctx spans count a = follow ctx spans a := by
  induction count generalizing a with
  | zero => rfl
  | succ count ih =>
      rw [loop]
      split
      · next hp => exact (follow_done hp).symm
      next i rest hp =>
      split
      · next e a' hstep => exact (follow_error hp hstep).symm
      · next a' hstep => exact (ih a').trans (follow_next hp hstep).symm

/-- **Induction along the positions that are followed**, up to the ending. -/
lemma follow_induction {motive : Analysis → Ending → Prop}
    (done : ∀ a, a.pending = [] → motive a (.ok (), a))
    (fault : ∀ a i rest e a', a.pending = i :: rest →
      (step ctx spans i).run { a with pending := rest } = (.error e, a') → motive a (.error (i, e), a'))
    (next : ∀ a i rest a' r, a.pending = i :: rest →
      Gives (step ctx spans i) { a with pending := rest } () a' → motive a' r → motive a r)
    {r : Ending} (h : follow ctx spans a = some r) : motive a r := by
  have hcomes := result?_eq_some_iff.mp h
  clear h
  induction hcomes with
  | @done a r hstep =>
      unfold followOne at hstep
      split at hstep
      · next hp =>
          cases hstep
          exact done a hp
      next i rest hp =>
      split at hstep <;> cases hstep
      next e a' hstep => exact fault a i rest e a' hp hstep
  | @next a a' r hstep _ ih =>
      unfold followOne at hstep
      split at hstep
      · cases hstep
      next i rest hp =>
      split at hstep <;> cases hstep
      next hstep => exact next a i rest _ r hp hstep ih

/-- Before the entry is merged. -/
def start (ctx : AnalysisContext) (h : Hierarchy) : Analysis :=
  { hierarchy := h, frames := Array.replicate ctx.method.code.size none }

@[simp] lemma start_frames (ctx : AnalysisContext) (h : Hierarchy) :
    (start ctx h).frames = Array.replicate ctx.method.code.size none := rfl

/-- **An analysis that succeeds**, step by step. -/
lemma run_eq_ok {h h' : Hierarchy} {T : FrameTypes} (hrun : (run ctx).run h = (.ok T, h')) :
    ∃ ss entry a a', Analysis.spans ctx.method.code ctx.method.ranges 0 = .ok ss
      ∧ entryFrame ctx.owner ctx.method = .ok entry
      ∧ Gives (mergeInto ctx 0 0 entry) (start ctx h) () a
      ∧ follow ctx ss a = some (.ok (), a')
      ∧ T = ⟨a'.frames, a'.sites.mergeSort fun x y => x.newAt ≤ y.newAt⟩ ∧ h' = a'.hierarchy := by
  change run ctx h = _ at hrun
  unfold run at hrun
  simp only at hrun
  split at hrun
  · cases hrun
  next ss hss =>
  split at hrun
  · cases hrun
  next entry hentry =>
  split at hrun
  · cases hrun
  next a hmerge =>
  split at hrun
  · cases hrun
  · cases hrun
  next a' hloop =>
  cases hrun
  rw [loop_eq_follow] at hloop
  exact ⟨ss, entry, a, a', hss, hentry, hmerge, hloop, rfl, rfl⟩

/-- Where there is no end to following positions there is none to the analysis. -/
lemma run_of_follow_none {h : Hierarchy} {ss : List HandlerSpan} {entry : Frame}
    (hss : Analysis.spans ctx.method.code ctx.method.ranges 0 = .ok ss)
    (hentry : entryFrame ctx.owner ctx.method = .ok entry) (hmerge : Gives (mergeInto ctx 0 0 entry)
      (start ctx h) () a)
    (hnone : follow ctx ss a = none) : (run ctx).run h = (.endless, h) := by
  change run ctx h = _
  unfold Gives start at hmerge
  simp only [run, hss, hentry, hmerge, loop_eq_follow, hnone]

/-- **An analysis that goes on for ever** has merged the frame at the entry, and there is no end to following
positions from there on. -/
lemma run_eq_endless {h : Hierarchy} (hrun : ((run ctx).run h).1 = .endless) :
    ∃ ss entry a, Analysis.spans ctx.method.code ctx.method.ranges 0 = .ok ss
      ∧ entryFrame ctx.owner ctx.method = .ok entry
      ∧ Gives (mergeInto ctx 0 0 entry) (start ctx h) () a ∧ follow ctx ss a = none := by
  change (run ctx h).1 = _ at hrun
  unfold run at hrun
  simp only at hrun
  split at hrun
  · cases hrun
  next ss hss =>
  split at hrun
  · cases hrun
  next entry hentry =>
  split at hrun
  · cases hrun
  next a hmerge =>
  split at hrun
  · next hloop =>
      rw [loop_eq_follow] at hloop
      exact ⟨ss, entry, a, hss, hentry, hmerge, hloop⟩
  · cases hrun
  · cases hrun

end Analysis

end Suspension
