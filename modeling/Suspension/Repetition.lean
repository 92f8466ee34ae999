/-!
# Repeating a step

Some computations repeat a step until it has a result, with nothing to tell that it ever will.  What they
come to is a partial function of where they begin.

* `ComesTo` — the result that a repeated step comes to.
* `result?` — that result, `none` where there is no end.
-/

namespace Suspension

variable {σ ρ : Type}

/-- **What a step comes to** when it is repeated until it has a result. -/
inductive ComesTo (step : σ → ρ ⊕ σ) : σ → ρ → Prop where
  | done {x : σ} {r : ρ} (h : step x = .inl r) : ComesTo step x r
  | next {x y : σ} {r : ρ} (h : step x = .inr y) (hrest : ComesTo step y r) : ComesTo step x r

/-- **An outcome of repeating a step**: nothing, or a result that it comes to. -/
abbrev Repetition (step : σ → ρ ⊕ σ) (x : σ) : Type :=
  { out : Option ρ // ∀ r, out = some r → ComesTo step x r }

namespace Repetition

variable {step : σ → ρ ⊕ σ} {x : σ}

/-- A result. -/
def ofDone {r : ρ} (h : step x = .inl r) : Repetition step x :=
  ⟨some r, fun _ hr => Option.some.inj hr ▸ .done h⟩

/-- The outcome from the next state on. -/
def ofNext {y : σ} (h : step x = .inr y) (out : Repetition step y) : Repetition step x :=
  ⟨out.1, fun r hr => .next h (out.2 r hr)⟩

instance : Nonempty (Repetition step x) := ⟨⟨none, fun _ hr => by cases hr⟩⟩

/-- One turn, if the outcome from the next state on is given. -/
def turn (step : σ → ρ ⊕ σ) (x : σ) (rest : ∀ y, step x = .inr y → Repetition step y) : Repetition step x :=
  match h : step x with
  | .inl _ => ofDone h
  | .inr y => ofNext h (rest y h)

end Repetition

/-- **Repeating a step until it has a result.**  Where it never has one there is none. -/
def result? (step : σ → ρ ⊕ σ) (x : σ) : Option ρ :=
  (WellFounded.partialExtrinsicFix (fun y x => step x = Sum.inr y) (Repetition.turn step) x).1

end Suspension
