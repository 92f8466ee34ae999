import Mathlib.Logic.Relation

/-!
# What is seen of a system

A system moves from state to state, and a move shows some events, or none.  **What is seen of it** is the list
of all events up to some moment, with the outcome if the run has ended by then and its end is seen.  Two
systems are told apart by nothing else.

* `System`, `System.Shows`, `System.Behaves` — moves, and what is seen of a number of them.
* `System.Path` — moves one after the other.
* `System.Only`, `System.Shows.after` — where there is one way to go and nothing is shown, every run goes
  that way.
-/

namespace Suspension

/-- **A system that is watched**: its moves with the events that they show, and its ends with their
outcomes. -/
structure System (σ ε ω : Type) where
  Moves : σ → List ε → σ → Prop
  Ends : σ → List ε → ω → Prop

namespace System

/-- **What is seen of a number of moves**: the events up to some moment, and the outcome if the end is
seen. -/
inductive Shows {σ ε ω : Type} (M : System σ ε ω) : Nat → σ → List ε → Option ω → Prop where
  | stops {a : σ} : Shows M 0 a [] none
  | ends {a : σ} {es : List ε} {out : ω} {o : Option ω} (h : M.Ends a es out)
      (ho : o = none ∨ o = some out) : Shows M 0 a es o
  | moves {n : Nat} {a b : σ} {es es' : List ε} {o : Option ω} (h : M.Moves a es b)
      (hrest : Shows M n b es' o) : Shows M (n + 1) a (es ++ es') o

variable {σ ε ω : Type} {M : System σ ε ω} {n : Nat} {a b c : σ} {es es' : List ε} {o : Option ω} {out : ω}

/-- **What is seen of a run**, however long it is. -/
def Behaves (M : System σ ε ω) (a : σ) (es : List ε) (o : Option ω) : Prop := ∃ n, M.Shows n a es o

lemma Behaves.stops : M.Behaves a [] none := ⟨0, .stops⟩

lemma Behaves.ends (h : M.Ends a es out) (ho : o = none ∨ o = some out) : M.Behaves a es o :=
  ⟨0, .ends h ho⟩

lemma Behaves.moves (h : M.Moves a es b) (hb : M.Behaves b es' o) : M.Behaves a (es ++ es') o := by
  obtain ⟨n, hn⟩ := hb
  exact ⟨n + 1, .moves h hn⟩

/-- A move that shows nothing. -/
lemma Behaves.quietly (h : M.Moves a [] b) (hb : M.Behaves b es o) : M.Behaves a es o := hb.moves h

/-- **All that is seen of a run** is seen of its moves and of its end. -/
lemma Shows.forall {P : ε → Prop} (hmoves : ∀ a es b, M.Moves a es b → ∀ e ∈ es, P e)
    (hends : ∀ a es out, M.Ends a es out → ∀ e ∈ es, P e) (h : M.Shows n a es o) : ∀ e ∈ es, P e := by
  induction h with
  | stops => simp
  | ends hend _ => exact hends _ _ _ hend
  | moves hmove _ ih => exact List.forall_mem_append.mpr ⟨hmoves _ _ _ hmove, ih⟩

/-! ## Paths -/

/-- **Moves one after the other**, with all that they show. -/
inductive Path (M : System σ ε ω) : σ → List ε → σ → Prop where
  | nil {a : σ} : Path M a [] a
  | cons {a b c : σ} {es es' : List ε} (h : M.Moves a es b) (hrest : Path M b es' c) :
      Path M a (es ++ es') c

lemma Path.behaves (h : M.Path a es b) (hb : M.Behaves b es' o) : M.Behaves a (es ++ es') o := by
  induction h with
  | nil => exact hb
  | cons h _ ih =>
      rw [List.append_assoc]
      exact (ih hb).moves h

/-- Moves that show nothing, one after the other. -/
lemma Path.quiet {R : σ → σ → Prop} (hR : ∀ {a b}, R a b → M.Moves a [] b)
    (h : Relation.ReflTransGen R a b) : M.Path a [] b := by
  induction h using Relation.ReflTransGen.head_induction_on with
  | refl => exact .nil
  | head hstep _ ih => exact .cons (hR hstep) ih

/-! ## One way to go -/

/-- **There is one way to go**, nothing is shown, and nothing ends here. -/
structure Only (M : System σ ε ω) (a b : σ) : Prop where
  moves : ∀ es c, M.Moves a es c → es = [] ∧ c = b
  ends : ∀ es out, ¬ M.Ends a es out

/-- **A run goes the one way there is**, or nothing is seen of it. -/
lemma Shows.after (hway : Relation.ReflTransGen M.Only a b) (h : M.Shows n a es o) :
    (es = [] ∧ o = none) ∨ ∃ k ≤ n, M.Shows k b es o := by
  induction hway using Relation.ReflTransGen.head_induction_on generalizing n with
  | refl => exact Or.inr ⟨n, Nat.le_refl n, h⟩
  | head hstep _ ih =>
      cases h with
      | stops => exact Or.inl ⟨rfl, rfl⟩
      | ends h ho => exact absurd h (hstep.ends _ _)
      | moves h hrest =>
          obtain ⟨rfl, rfl⟩ := hstep.moves _ _ h
          rcases ih hrest with hnone | ⟨k, hk, hshows⟩
          · exact Or.inl hnone
          · exact Or.inr ⟨k, by omega, hshows⟩

end System

end Suspension
