import Suspension.Proofs.Frame.Meaning
import Suspension.Proofs.Repetition

/-!
# What class facts say about values

The analysis learns from class files which class extends which.  It is right to let a reference rise
to a superclass only if the facts **agree** with the classes that values really belong to.

* `ClassSource.Agrees`, `Hierarchy.Agrees` — what a source supplies, and what is kept, is true of the
  classes at run time.
* `Hierarchy.commonSuper_agrees` — the class that two classes have in common admits the values of
  both, and what is learnt on the way agrees again.
-/

namespace Suspension

/-! ## Questions in sequence -/

namespace Query

variable {α β : Type}

@[simp] lemma run_bind (x : Query α) (f : α → Query β) (h : Hierarchy) :
    StateT.run (x >>= f) h = (f (x.run h).1).run (x.run h).2 := rfl

@[simp] lemma run_pure (a : α) (h : Hierarchy) : StateT.run (pure a : Query α) h = (a, h) := rfl

@[simp] lemma run_get (h : Hierarchy) : StateT.run (get : Query Hierarchy) h = (h, h) := rfl

@[simp] lemma run_modify (f : Hierarchy → Hierarchy) (h : Hierarchy) :
    StateT.run (modify f : Query Unit) h = ((), f h) := rfl

end Query

/-! ## Agreement -/

/-- Every value of one class belongs to another. -/
def Classes.Below (C : Classes) (cls sup : Text) : Prop := ∀ v, C.inst v cls → C.inst v sup

lemma Classes.Below.refl {C : Classes} (cls : Text) : C.Below cls cls := fun _ h => h

lemma Classes.Below.trans {C : Classes} {a b c : Text} (h : C.Below a b) (h' : C.Below b c) :
    C.Below a c := fun v hv => h' v (h v hv)

/-- **The classes that a source supplies** name their superclasses rightly. -/
def ClassSource.Agrees (C : Classes) (src : ClassSource) : Prop :=
  ∀ f, src.resolve? = some f → ∀ cls data c, f cls = .ok data →
    Hierarchy.readClass cls data = .ok c → c.super ≠ [] → C.Below cls c.super

namespace Hierarchy

/-- **The facts that are kept** name superclasses rightly. -/
structure Agrees (C : Classes) (h : Hierarchy) : Prop where
  known : ∀ {cls : Text} {f : ClassFacts}, h.classes.lookup cls = some (.known f) → f.super ≠ [] →
    C.Below cls f.super
  kept : ∀ {cls s : Text}, h.supers.lookup cls = some s → s ≠ [] → C.Below cls s

variable {C : Classes} {src : ClassSource}

/-- Only the facts count, not the log or what the resolver was asked for. -/
lemma Agrees.congr {h h' : Hierarchy} (ha : Agrees C h) (hc : h'.classes = h.classes)
    (hs : h'.supers = h.supers) : Agrees C h' where
  known := by rw [hc]; exact ha.known
  kept := by rw [hs]; exact ha.kept

lemma lookup_put_self {β : Type} (key : Text) (v : β) (xs : List (Text × β)) :
    (put key v xs).lookup key = some v := by
  simp [put]

/-- What is forgotten is found no more. -/
lemma lookup_remove {β : Type} (key other : Text) (xs : List (Text × β)) :
    (xs.filter (·.1 != key)).lookup other = if other = key then none else xs.lookup other := by
  induction xs with
  | nil => simp
  | cons x xs ih =>
      obtain ⟨k, w⟩ := x
      by_cases hk : k = key
      · subst hk
        rw [List.filter_cons_of_neg (by simp), ih, List.lookup_cons]
        by_cases ho : other = k
        · simp [ho]
        · simp [ho, beq_false_of_ne ho]
      · rw [List.filter_cons_of_pos (by simp [hk]), List.lookup_cons, List.lookup_cons, ih]
        by_cases ho : other = key
        · subst ho
          simp [beq_false_of_ne (Ne.symm hk)]
        · simp [ho]

lemma lookup_put_of_ne {β : Type} {key other : Text} (v : β) (xs : List (Text × β))
    (h : other ≠ key) : (put key v xs).lookup other = xs.lookup other := by
  have hne : (other == key) = false := by simp [h]
  simp only [put, List.lookup_cons, hne]
  rw [lookup_remove, if_neg h]

/-- Keeping a superclass that is right. -/
lemma Agrees.putSuper {h : Hierarchy} (ha : Agrees C h) {cls s : Text}
    (hs : s ≠ [] → C.Below cls s) : Agrees C { h with supers := put cls s h.supers } where
  known := ha.known
  kept := by
    intro cls' s' hl hne
    by_cases hc : cls' = cls
    · subst hc
      rw [lookup_put_self] at hl
      cases hl
      exact hs hne
    · rw [lookup_put_of_ne s h.supers hc] at hl
      exact ha.kept hl hne

/-- What consulting the resolver comes to. -/
lemma resolve_run {f : Text → Except Fault Bytes} (hf : src.resolve? = some f) (cls : Text)
    (h : Hierarchy) :
    (resolve src cls).run h =
      ((match f cls with
        | .error e => .error (.resolution cls (some e))
        | .ok data => readClass cls data), { h with consulted := cls :: h.consulted }) := by
  simp only [resolve, hf]
  cases f cls with
  | error e => rfl
  | ok data =>
      generalize readClass cls data = r
      rfl

/-- Consulting the resolver changes no fact, and a class that it finds names its superclass
rightly. -/
lemma resolve_agrees (hsrc : src.Agrees C) {h : Hierarchy} (ha : Agrees C h) (cls : Text) :
    Agrees C ((resolve src cls).run h).2
      ∧ ∀ c, ((resolve src cls).run h).1 = .ok c → c.super ≠ [] → C.Below cls c.super := by
  cases hr : src.resolve? with
  | none =>
      simp only [resolve, hr]
      exact ⟨ha, fun c hc => by cases hc⟩
  | some f =>
      rw [resolve_run hr]
      refine ⟨ha.congr rfl rfl, fun c hc => ?_⟩
      cases hf : f cls with
      | error e => simp [hf] at hc
      | ok data =>
          simp only [hf] at hc
          exact hsrc f hr cls data c hf hc

/-- A superclass that cannot be determined is none. -/
lemma superFailed_none {h : Hierarchy} (ha : Agrees C h) (cls : Text) (cause : Option Fault) :
    Agrees C ((superFailed src cls cause).run h).2
      ∧ ∀ s, ((superFailed src cls cause).run h).1 = some s → C.Below cls s :=
  ⟨(ha.putSuper (s := []) (fun hne => absurd rfl hne)).congr rfl rfl, fun s hs => by cases hs⟩

lemma nonEmpty_eq_some {t s : Text} (h : nonEmpty t = some s) : t = s ∧ s ≠ [] := by
  unfold nonEmpty at h
  split at h
  · cases h
  · next hne =>
      cases h
      exact ⟨rfl, by simpa using hne⟩

/-- **A superclass that is found is right**, whether it was kept or is read now. -/
lemma directSuper_agrees (hsrc : src.Agrees C) {h : Hierarchy} (ha : Agrees C h) (cls : Text) :
    Agrees C ((directSuper src cls).run h).2
      ∧ ∀ s, ((directSuper src cls).run h).1 = some s → C.Below cls s := by
  have hkept : ∀ {t : Text}, h.supers.lookup cls = some t → ∀ s, nonEmpty t = some s →
      C.Below cls s := by
    intro t ht s hs
    obtain ⟨rfl, hne⟩ := nonEmpty_eq_some hs
    exact ha.kept ht hne
  simp only [directSuper, Query.run_bind, Query.run_get]
  cases hc : h.classes.lookup cls with
  | none =>
      cases hk : h.supers.lookup cls with
      | some t => exact ⟨ha, hkept hk⟩
      | none =>
          obtain ⟨hag, hsup⟩ := resolve_agrees hsrc ha cls
          simp only [Query.run_bind]
          generalize (resolve src cls).run h = r at hag hsup
          obtain ⟨r | c, h'⟩ := r
          · exact superFailed_none hag cls _
          · by_cases he : c.super.isEmpty
            · simp only [he, if_true]
              exact superFailed_none hag cls _
            · simp only [he]
              have hbelow := hsup c rfl (by simpa using he)
              exact ⟨hag.putSuper (fun _ => hbelow), fun s hs => by cases hs; exact hbelow⟩
  | some e =>
      cases e with
      | known f =>
          refine ⟨ha, fun s hs => ?_⟩
          obtain ⟨rfl, hne⟩ := nonEmpty_eq_some hs
          exact ha.known hc hne
      | missing =>
          cases hk : h.supers.lookup cls with
          | some t => exact ⟨ha, hkept hk⟩
          | none => exact superFailed_none ha cls _

/-! ## Walks -/

section Climbing

variable {α β : Type} {step : β → Query (α ⊕ β)} {lost : α} {x y : β} {h h' : Hierarchy}

lemma climbOn_of_inl {r : α} (hstep : (step x).run h = (.inl r, h')) :
    climbOn step x h = some (r, h') :=
  result?_of_inl (by simp only [climbStep, hstep])

lemma climbOn_of_inr (hstep : (step x).run h = (.inr y, h')) :
    climbOn step x h = climbOn step y h' :=
  result?_of_inr (by simp only [climbStep, hstep])

/-- The count does not matter to the result. -/
lemma climbFor_eq (count : Nat) (x : β) (h : Hierarchy) :
    climbFor step count x h = climbOn step x h := by
  induction count generalizing x h with
  | zero => rfl
  | succ count ih =>
      rw [climbFor]
      split
      · next r h' hstep => exact (climbOn_of_inl hstep).symm
      · next y h' hstep => exact (ih y h').trans (climbOn_of_inr hstep).symm

lemma run_climb (count : Nat) (x : β) (h : Hierarchy) :
    (climb step lost count x).run h = (climbOn step x h).getD (lost, h) :=
  congrArg (Option.getD · (lost, h)) (climbFor_eq count x h)

/-- **Induction along a walk** that has a result. -/
lemma climbOn_induction {motive : β → Hierarchy → α × Hierarchy → Prop}
    (done : ∀ x h r h', (step x).run h = (.inl r, h') → motive x h (r, h'))
    (next : ∀ x h y h' out, (step x).run h = (.inr y, h') → motive y h' out → motive x h out)
    {x : β} {h : Hierarchy} {out : α × Hierarchy} (hout : climbOn step x h = some out) :
    motive x h out := by
  have hcomes := result?_eq_some_iff.mp hout
  generalize hs : (x, h) = s at hcomes
  induction hcomes generalizing x h with
  | done hstep =>
      subst hs
      unfold climbStep at hstep
      split at hstep <;> cases hstep
      next r h' hstep => exact done x h r h' hstep
  | next hstep hrest ih =>
      subst hs
      unfold climbStep at hstep
      split at hstep <;> cases hstep
      next y h' hstep => exact next x h y h' _ hstep (ih (result?_eq_some_iff.mpr hrest) rfl)

/-- **Induction along a walk**, up to its result if there is one. -/
lemma climb_induction {motive : β → Hierarchy → α × Hierarchy → Prop} {count : Nat}
    (never : ∀ x h, motive x h (lost, h))
    (done : ∀ x h r h', (step x).run h = (.inl r, h') → motive x h (r, h'))
    (next : ∀ x h y h' out, (step x).run h = (.inr y, h') → motive y h' out → motive x h out) :
    motive x h ((climb step lost count x).run h) := by
  rw [run_climb]
  cases hout : climbOn step x h with
  | none => exact never x h
  | some out => exact climbOn_induction done next hout

end Climbing

/-! ## Chains -/

/-- A chain ends at the root. -/
lemma run_chainStep_object (below : List Text) (h : Hierarchy) :
    (chainStep src (ClassName.object, below)).run h = (.inl (some (ClassName.object :: below)), h) := rfl

/-- Below the root it goes on at the superclass, if there is one. -/
lemma run_chainStep {cls : Text} (hroot : cls ≠ ClassName.object) (below : List Text) (h : Hierarchy) :
    (chainStep src (cls, below)).run h
      = (match ((directSuper src cls).run h).1 with
          | none => .inl none
          | some s => .inr (s, cls :: below), ((directSuper src cls).run h).2) := by
  simp only [chainStep]
  rw [if_neg (by simpa using hroot), Query.run_bind]
  generalize (directSuper src cls).run h = r
  obtain ⟨_ | s, h'⟩ := r <;> rfl

/-- Where a chain ends: at the root, or where no superclass is known. -/
lemma chainStep_eq_inl {x : Text × List Text} {h h' : Hierarchy} {r : Option (List Text)}
    (hstep : (chainStep src x).run h = (.inl r, h')) :
    (x.1 = ClassName.object ∧ r = some (x.1 :: x.2) ∧ h' = h)
      ∨ x.1 ≠ ClassName.object ∧ r = none ∧ (directSuper src x.1).run h = (none, h') := by
  obtain ⟨cls, below⟩ := x
  by_cases hroot : cls = ClassName.object
  · subst hroot
    rw [run_chainStep_object] at hstep
    cases hstep
    exact Or.inl ⟨rfl, rfl, rfl⟩
  · rw [run_chainStep hroot] at hstep
    generalize (directSuper src cls).run h = r at hstep
    obtain ⟨_ | s, h'⟩ := r <;> cases hstep
    exact Or.inr ⟨hroot, rfl, rfl⟩

/-- Where it goes on: at the superclass. -/
lemma chainStep_eq_inr {x y : Text × List Text} {h h' : Hierarchy}
    (hstep : (chainStep src x).run h = (.inr y, h')) :
    x.1 ≠ ClassName.object ∧ ∃ s, y = (s, x.1 :: x.2) ∧ (directSuper src x.1).run h = (some s, h') := by
  obtain ⟨cls, below⟩ := x
  by_cases hroot : cls = ClassName.object
  · subst hroot
    rw [run_chainStep_object] at hstep
    cases hstep
  · rw [run_chainStep hroot] at hstep
    generalize (directSuper src cls).run h = r at hstep
    obtain ⟨_ | s, h'⟩ := r <;> cases hstep
    exact ⟨hroot, s, rfl, rfl⟩

/-- Every class of a chain admits the values of the last one. -/
def ChainAbove (C : Classes) (cls : Text) (chain : List Text) : Prop :=
  ∀ c ∈ chain, C.Below cls c

/-- **All classes on the way to the root admit the values of the class below.** -/
lemma chainTo_agrees (hsrc : src.Agrees C) {h : Hierarchy} (ha : Agrees C h) (count : Nat) (cls : Text) :
    Agrees C ((chainTo src count cls).run h).2
      ∧ ∀ chain, ((chainTo src count cls).run h).1 = some chain → ChainAbove C cls chain := by
  -- the walk has come from `cls` to `x.1`, and passed the classes of `x.2`
  let motive (x : Text × List Text) (h : Hierarchy) (out : Option (List Text) × Hierarchy) : Prop :=
    Agrees C h → C.Below cls x.1 → ChainAbove C cls x.2 →
      Agrees C out.2 ∧ ∀ chain, out.1 = some chain → ChainAbove C cls chain
  have hcons : ∀ {x : Text × List Text}, C.Below cls x.1 → ChainAbove C cls x.2 →
      ChainAbove C cls (x.1 :: x.2) := fun hx hbelow => List.forall_mem_cons.mpr ⟨hx, hbelow⟩
  refine climb_induction (motive := motive) ?_ ?_ ?_ ha (.refl cls) (by simp [ChainAbove])
  · exact fun x h ha _ _ => ⟨ha, fun chain hc => by cases hc⟩
  · rintro x h r h' hstep ha hx hbelow
    rcases chainStep_eq_inl hstep with ⟨-, rfl, rfl⟩ | ⟨-, rfl, hsuper⟩
    · exact ⟨ha, fun chain hc => by cases hc; exact hcons hx hbelow⟩
    · refine ⟨?_, fun chain hc => by cases hc⟩
      have hag := (directSuper_agrees hsrc ha x.1).1
      rwa [hsuper] at hag
  · rintro x h y h' out hstep ih ha hx hbelow
    obtain ⟨-, s, rfl, hsuper⟩ := chainStep_eq_inr hstep
    obtain ⟨hag, hsup⟩ := directSuper_agrees hsrc ha x.1
    rw [hsuper] at hag hsup
    exact ih hag (hx.trans (hsup s rfl)) (hcons hx hbelow)

/-- What two chains have in common is on both. -/
lemma mem_of_lastCommon {as bs : List Text} {c : Text} (h : lastCommon as bs = some c) :
    c ∈ as ∧ c ∈ bs := by
  induction as generalizing bs with
  | nil => simp [lastCommon] at h
  | cons a as ih =>
      cases bs with
      | nil => simp [lastCommon] at h
      | cons b bs =>
          by_cases hab : a = b
          · subst hab
            simp only [lastCommon, BEq.rfl, if_true] at h
            cases hrest : lastCommon as bs with
            | none =>
                rw [hrest] at h
                cases h
                exact ⟨List.mem_cons_self, List.mem_cons_self⟩
            | some d =>
                rw [hrest] at h
                cases h
                obtain ⟨h₁, h₂⟩ := ih hrest
                exact ⟨List.mem_cons_of_mem _ h₁, List.mem_cons_of_mem _ h₂⟩
          · simp [lastCommon, hab] at h

/-- **What two classes have in common admits the values of both.** -/
lemma commonSuper_agrees (hsrc : src.Agrees C) {h : Hierarchy} (ha : Agrees C h) (a b : Text) :
    Agrees C ((commonSuper src a b).run h).2
      ∧ ∀ c, ((commonSuper src a b).run h).1 = some c → C.Below a c ∧ C.Below b c := by
  unfold commonSuper
  by_cases hab : a = b
  · subst hab
    simp only [BEq.rfl, if_true]
    exact ⟨ha, fun c hc => by cases hc; exact ⟨.refl a, .refl a⟩⟩
  rw [if_neg (by simpa using hab)]
  by_cases harr : (Descriptor.isArray a || Descriptor.isArray b) = true
  · rw [if_pos harr]
    refine ⟨ha, fun c hc => ?_⟩
    cases hc
    exact ⟨fun _ hv => C.inst_object hv, fun _ hv => C.inst_object hv⟩
  rw [if_neg harr]
  simp only [Query.run_bind, chainBound, Query.run_get, Query.run_pure]
  obtain ⟨hag₁, hchain₁⟩ := chainTo_agrees hsrc ha (src.height + h.classes.length + 2) a
  generalize (chainTo src (src.height + h.classes.length + 2) a).run h = r₁ at hag₁ hchain₁
  obtain ⟨as, h₁⟩ := r₁
  cases as with
  | none => exact ⟨hag₁, fun c hc => by cases hc⟩
  | some as =>
      simp only [Query.run_bind, Query.run_get, Query.run_pure]
      obtain ⟨hag₂, hchain₂⟩ := chainTo_agrees hsrc hag₁ (src.height + h₁.classes.length + 2) b
      generalize (chainTo src (src.height + h₁.classes.length + 2) b).run h₁ = r₂
        at hag₂ hchain₂
      obtain ⟨bs, h₂⟩ := r₂
      cases bs with
      | none => exact ⟨hag₂, fun c hc => by cases hc⟩
      | some bs =>
          refine ⟨hag₂, fun c hc => ?_⟩
          obtain ⟨hca, hcb⟩ := mem_of_lastCommon hc
          exact ⟨hchain₁ as rfl c hca, hchain₂ bs rfl c hcb⟩

end Hierarchy

/-- Classes without any value: what is learnt about classes is then true in any case. -/
def Classes.empty : Classes where
  inst _ _ := False
  inst_object := False.elim
  not_inst_null _ := id

lemma Hierarchy.agrees_empty (h : Hierarchy) : h.Agrees Classes.empty :=
  ⟨fun _ _ _ hv => hv.elim, fun _ _ _ hv => hv.elim⟩

lemma ClassSource.agrees_empty (src : ClassSource) : src.Agrees Classes.empty :=
  fun _ _ _ _ _ _ _ _ _ hv => hv.elim

/-- Where nothing is known about classes, what is known agrees with any. -/
lemma ClassSource.agrees_nothing (C : Classes) : ({} : ClassSource).Agrees C := fun _ h => by cases h

lemma Hierarchy.agrees_nothing (C : Classes) : ({} : Hierarchy).Agrees C where
  known h := by cases h
  kept h := by cases h

end Suspension
