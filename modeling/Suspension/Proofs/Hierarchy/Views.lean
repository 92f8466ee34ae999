import Suspension.Proofs.Hierarchy.Learning

/-!
# Views of the classes

What is kept and what the resolver would supply make up one **view** of all classes: an entry for each
name.  A question only moves entries from the resolver to what is kept, so it leaves the view as it is, and
**its answer depends on nothing but the view**.

* `Query.Respects` — a query does not tell related states of knowledge apart.
* `Hierarchy.respects_climb` — a walk does not, if its steps do not.
* `Hierarchy.Shows` — a state of knowledge shows a view.
* `Hierarchy.respects_isSuspendable`, `respects_commonSuper` — the questions.
* `ClassView.Extends`, `Hierarchy.Shows.commonSuper` — what two classes have in common is an ancestor.
-/

namespace Suspension

/-! ## Queries on two states -/

namespace Query

variable {α β : Type} {R : Hierarchy → Hierarchy → Prop}

/-- **A query does not tell related states apart**: it has one answer on both, and they stay related. -/
def Respects (R : Hierarchy → Hierarchy → Prop) (q : Query α) : Prop :=
  ∀ ⦃h₁ h₂⦄, R h₁ h₂ → (q.run h₁).1 = (q.run h₂).1 ∧ R (q.run h₁).2 (q.run h₂).2

lemma respects_pure (x : α) : Respects R (pure x : Query α) := fun _ _ h => ⟨rfl, h⟩

lemma Respects.bind {q : Query α} {f : α → Query β} (hq : Respects R q)
    (hf : ∀ r, Respects R (f r)) : Respects R (q >>= f) := by
  intro h₁ h₂ h
  obtain ⟨heq, hR⟩ := hq h
  rw [run_bind, run_bind, heq]
  exact hf _ hR

/-- The same with the states exchanged. -/
lemma Respects.flip {q : Query α} (hq : Respects R q) : Respects (fun h₁ h₂ => R h₂ h₁) q := by
  intro h₁ h₂ h
  obtain ⟨heq, hR⟩ := hq h
  exact ⟨heq.symm, hR⟩

end Query

namespace Hierarchy

open Query

/-! ## Walks on two states -/

section Climbing

variable {α β : Type} {step : β → Query (α ⊕ β)} {lost : α} {R : Hierarchy → Hierarchy → Prop}

/-- A walk that has a result on one of two related states has it on the other. -/
lemma climbOn_respects (hstep : ∀ x, Respects R (step x)) {x : β} {h₁ h₂ : Hierarchy}
    {out : α × Hierarchy} (h : R h₁ h₂) (hout : climbOn step x h₁ = some out) :
    ∃ h₂', climbOn step x h₂ = some (out.1, h₂') ∧ R out.2 h₂' := by
  let motive (x : β) (h₁ : Hierarchy) (out : α × Hierarchy) : Prop :=
    ∀ h₂, R h₁ h₂ → ∃ h₂', climbOn step x h₂ = some (out.1, h₂') ∧ R out.2 h₂'
  refine climbOn_induction (motive := motive) ?_ ?_ hout h₂ h
  · intro x h₁ r h₁' hrun h₂ h
    obtain ⟨heq, hR⟩ := hstep x h
    generalize hrun₂ : (step x).run h₂ = r₂ at heq hR
    obtain ⟨r₂, h₂'⟩ := r₂
    rw [hrun] at heq hR
    subst heq
    exact ⟨h₂', climbOn_of_inl hrun₂, hR⟩
  · intro x h₁ y h₁' out hrun ih h₂ h
    obtain ⟨heq, hR⟩ := hstep x h
    generalize hrun₂ : (step x).run h₂ = r₂ at heq hR
    obtain ⟨r₂, h₂'⟩ := r₂
    rw [hrun] at heq hR
    subst heq
    rw [climbOn_of_inr hrun₂]
    exact ih h₂' hR

/-- **A walk does not tell states apart**, if its steps do not. -/
lemma respects_climb (hstep : ∀ x, Respects R (step x)) (count : Nat) (x : β) :
    Respects R (climb step lost count x) := by
  intro h₁ h₂ h
  rw [run_climb, run_climb]
  cases hout : climbOn step x h₁ with
  | some out =>
      obtain ⟨h₂', hout', hR⟩ := climbOn_respects hstep h hout
      rw [hout']
      exact ⟨rfl, hR⟩
  | none =>
      cases hout' : climbOn step x h₂ with
      | none => exact ⟨rfl, h⟩
      | some out =>
          obtain ⟨_, hsome, -⟩ :=
            climbOn_respects (R := fun h₂ h₁ => R h₁ h₂) (fun x => (hstep x).flip) h hout'
          rw [hout] at hsome
          cases hsome

/-- How far a walk is counted does not matter. -/
lemma climb_count (count : Nat) (x : β) : climb step lost count x = climb step lost 0 x := by
  funext h
  change (climb step lost count x).run h = (climb step lost 0 x).run h
  rw [run_climb, run_climb]

/-- So a query in which only walks are counted does not tell states apart by what is kept in them. -/
lemma respects_counted (src : ClassSource) {q : Nat → Query α} (hcount : ∀ n, q n = q 0)
    (hq : Respects R (q 0)) : Respects R (chainBound src >>= q) := by
  intro h₁ h₂ h
  simp only [chainBound, Query.run_bind, Query.run_get, Query.run_pure]
  rw [hcount (src.height + h₁.classes.length + 2), hcount (src.height + h₂.classes.length + 2)]
  exact hq h

end Climbing

end Hierarchy

/-! ## Views -/

/-- The superclass that an entry names. -/
def ClassEntry.super? : ClassEntry → Option Text
  | .missing => none
  | .known f => Hierarchy.nonEmpty f.super

/-- **A view of all classes.** -/
abbrev ClassView := Text → ClassEntry

/-- **A class extends another** in a view.  The root extends none, whatever its entry says. -/
def ClassView.Extends (V : ClassView) (cls s : Text) : Prop :=
  cls ≠ ClassName.object ∧ (V cls).super? = some s

/-- What a source says about superclasses is in its entries. -/
lemma ClassSource.superOf_eq (src : ClassSource) (cls : Text) :
    src.superOf cls = (src.entryOf cls).super? := by
  cases he : src.entryOf cls with
  | missing => exact superOf_of_missing he
  | known f =>
      obtain ⟨c, hc, rfl⟩ := find_of_entryOf he
      exact superOf_of_find hc

namespace Hierarchy

open Query

/-- A lesson that a question may teach: nothing at hand is recorded. -/
def Lesson.Asked : Lesson → Prop
  | .recorded _ => False
  | _ => True

lemma calls_asked : Calls Lesson.Asked := ⟨trivial, fun _ => trivial⟩

lemma supers_asked : Supers Lesson.Asked := ⟨fun _ => trivial, fun _ => trivial⟩

variable {src : ClassSource} {V : ClassView} {h h' h₁ h₂ : Hierarchy} {cls : Text}

/-- **A state of knowledge shows a view**: what is kept is part of it, and so is what the resolver
would supply for a name of which nothing is kept.  A superclass that was looked up counts only while
the class itself is not known. -/
structure Shows (src : ClassSource) (V : ClassView) (h : Hierarchy) : Prop where
  kept : ∀ {cls : Text} {e : ClassEntry}, h.classes.lookup cls = some e → e = V cls
  unkept : ∀ {cls : Text}, h.classes.lookup cls = none → src.entryOf cls = V cls
  supers : ∀ {cls s : Text}, h.supers.lookup cls = some s →
    (∀ f, h.classes.lookup cls ≠ some (.known f)) → nonEmpty s = (V cls).super?

/-- Nothing is known: the view is that of the source. -/
lemma shows_empty (src : ClassSource) : Shows src src.entryOf {} where
  kept := by simp
  unkept := fun _ => rfl
  supers := by simp

/-- What is consistent with a source shows its view. -/
lemma Consistent.shows (hh : Consistent src h) : Shows src src.entryOf h where
  kept := hh.classes
  unkept := fun _ => rfl
  supers := fun hs _ => (hh.supers hs).trans (src.superOf_eq _)

namespace Shows

/-- The log and the names that the resolver was asked for do not matter. -/
lemma congr (hh : Shows src V h) (hc : h'.classes = h.classes) (hs : h'.supers = h.supers) :
    Shows src V h' where
  kept := by rw [hc]; exact hh.kept
  unkept := by rw [hc]; exact hh.unkept
  supers := by rw [hc, hs]; exact hh.supers

/-- A class of which nothing was kept is entered. -/
lemma enter (hh : Shows src V h) (hnew : h.classes.lookup cls = none) :
    Shows src V { h with classes := put cls (src.entryOf cls) h.classes } where
  kept := by
    intro other e he
    by_cases hother : other = cls
    · subst hother
      rw [lookup_put_self] at he
      cases he
      exact hh.unkept hnew
    · rw [lookup_put_of_ne _ h.classes hother] at he
      exact hh.kept he
  unkept := by
    intro other he
    by_cases hother : other = cls
    · subst hother
      rw [lookup_put_self] at he
      cases he
    · rw [lookup_put_of_ne _ h.classes hother] at he
      exact hh.unkept he
  supers := by
    intro other s hs hopen
    by_cases hother : other = cls
    · subst hother
      refine hh.supers hs fun f => ?_
      rw [hnew]
      simp
    · simp only [lookup_put_of_ne _ h.classes hother] at hopen
      exact hh.supers hs hopen

/-- A superclass is looked up. -/
lemma look (hh : Shows src V h) {s : Text} (hs : nonEmpty s = (V cls).super?) :
    Shows src V { h with supers := put cls s h.supers } where
  kept := hh.kept
  unkept := hh.unkept
  supers := by
    intro other t ht hopen
    by_cases hother : other = cls
    · subst hother
      rw [lookup_put_self] at ht
      cases ht
      exact hs
    · rw [lookup_put_of_ne _ h.supers hother] at ht
      exact hh.supers ht hopen

/-- **A question leaves the view as it is.** -/
lemma learns (hh : Shows src V h) (hl : Learns src Lesson.Asked h h') : Shows src V h' := by
  cases hl with
  | remark => exact hh.congr rfl rfl
  | entered _ hnew => exact (hh.enter hnew).congr rfl rfl
  | @looked cls _ hc _ =>
      have hs : nonEmpty (src.superText cls) = (V cls).super? := by
        rw [← hh.unkept hc]
        exact src.superOf_eq cls
      exact (hh.look hs).congr rfl rfl
  | @failed cls _ _ hc _ =>
      have hs : nonEmpty [] = (V cls).super? := by
        rw [← hh.kept hc]
        rfl
      exact (hh.look hs).congr rfl rfl
  | recorded hP => exact hP.elim

/-- **Recording a class** exchanges its entry in the view. -/
lemma record (hh : Shows src V h) (c : Class) :
    Shows src (Function.update V c.name (.known (.ofClass c))) ((record src c).run h).2 := by
  have hput : Shows src (Function.update V c.name (.known (.ofClass c)))
      { h with classes := put c.name (.known (.ofClass c)) h.classes } := by
    refine ⟨fun {other e} he => ?_, fun {other} he => ?_, fun {other s} hs hopen => ?_⟩
    all_goals by_cases hother : other = c.name
    · subst hother
      rw [lookup_put_self] at he
      rw [Function.update_self]
      exact (Option.some.inj he).symm
    · rw [lookup_put_of_ne _ h.classes hother] at he
      rw [Function.update_of_ne hother]
      exact hh.kept he
    · subst hother
      rw [lookup_put_self] at he
      cases he
    · rw [lookup_put_of_ne _ h.classes hother] at he
      rw [Function.update_of_ne hother]
      exact hh.unkept he
    · subst hother
      exact absurd (lookup_put_self _ _ _) (hopen _)
    · simp only [lookup_put_of_ne _ h.classes hother] at hopen
      rw [Function.update_of_ne hother]
      exact hh.supers hs hopen
  simp only [Hierarchy.record, keep, Query.run_bind, Query.run_get, Query.run_modify]
  split
  · exact hput
  split
  · exact hput
  · exact hput.congr rfl rfl

/-- **Forgetting** gives way to what the resolver would supply. -/
lemma invalidate (hh : Shows src V h) (cls : Text) :
    ∃ V', Shows src V' ((invalidate cls).run h).2 := by
  unfold Hierarchy.invalidate
  rw [Query.run_modify]
  split
  · exact ⟨src.entryOf, by simp, fun _ => rfl, by simp⟩
  refine ⟨Function.update V cls (src.entryOf cls), fun {other e} he => ?_, fun {other} he => ?_,
    fun {other s} hs hopen => ?_⟩
  all_goals by_cases hother : other = cls
  · subst hother
    simp [lookup_remove] at he
  · simp only [lookup_remove, if_neg hother] at he
    rw [Function.update_of_ne hother]
    exact hh.kept he
  · subst hother
    rw [Function.update_self]
  · simp only [lookup_remove, if_neg hother] at he
    rw [Function.update_of_ne hother]
    exact hh.unkept he
  · subst hother
    simp [lookup_remove] at hs
  · simp only [lookup_remove, if_neg hother] at hs hopen
    rw [Function.update_of_ne hother]
    exact hh.supers hs hopen

/-- **The entry of a class** is that of the view. -/
lemma entry (hh : Shows src V h) (cls : Text) : ((entry src cls).run h).1 = V cls := by
  cases hc : h.classes.lookup cls with
  | some e =>
      rw [run_entry_some hc]
      exact hh.kept hc
  | none =>
      rw [run_entry_none hc]
      exact hh.unkept hc

/-- **The superclass of a class** is that of the view. -/
lemma directSuper (hh : Shows src V h) (cls : Text) :
    ((directSuper src cls).run h).1 = (V cls).super? := by
  cases hc : h.classes.lookup cls with
  | none =>
      cases hs : h.supers.lookup cls with
      | none =>
          rw [run_directSuper_none hc hs, ← hh.unkept hc]
          exact src.superOf_eq cls
      | some s =>
          simp only [Hierarchy.directSuper, Query.run_bind, Query.run_get, hc, hs]
          exact hh.supers hs (by simp [hc])
  | some e =>
      obtain rfl := hh.kept hc
      simp only [Hierarchy.directSuper, Query.run_bind, Query.run_get, hc]
      cases he : V cls with
      | known f => rfl
      | missing =>
          rw [he] at hc
          cases hs : h.supers.lookup cls with
          | some s =>
              have hsuper := hh.supers hs (by simp [hc])
              rwa [he] at hsuper
          | none => rfl

end Shows

/-! ## Questions depend on the view -/

/-- **Two states of knowledge show one view.** -/
def SameView (src : ClassSource) (V : ClassView) (h₁ h₂ : Hierarchy) : Prop :=
  Shows src V h₁ ∧ Shows src V h₂

/-- A question whose answer is taken from the view does not tell the states apart. -/
lemma SameView.respects {α : Type} {q : Query α} {answer : α}
    (hanswer : ∀ h, Shows src V h → (q.run h).1 = answer)
    (hl : ∀ h, LearnsAll src Lesson.Asked h (q.run h).2) : Respects (SameView src V) q := by
  rintro h₁ h₂ ⟨hh₁, hh₂⟩
  exact ⟨(hanswer h₁ hh₁).trans (hanswer h₂ hh₂).symm, (hl h₁).keeps (fun hl hh => hh.learns hl) hh₁,
    (hl h₂).keeps (fun hl hh => hh.learns hl) hh₂⟩

lemma respects_entry (cls : Text) : Respects (SameView src V) (entry src cls) :=
  SameView.respects (fun _ hh => hh.entry cls) fun _ => entry_learns calls_asked cls

lemma respects_directSuper (cls : Text) : Respects (SameView src V) (directSuper src cls) :=
  SameView.respects (fun _ hh => hh.directSuper cls) fun _ => directSuper_learns supers_asked cls

lemma respects_send (sink : Sink) (level : LogLevel) (message : Text) (fields : LogFields) :
    Respects (SameView src V) (send sink level message fields) :=
  fun _ _ hh => ⟨rfl, hh.1.congr rfl rfl, hh.2.congr rfl rfl⟩

lemma walk_count {name desc : Text} {search : Bool} (count : Nat) (cls : Text) :
    walk src name desc search count cls = walk src name desc search 0 cls := climb_count count cls

lemma chainTo_count (count : Nat) (cls : Text) : chainTo src count cls = chainTo src 0 cls :=
  climb_count count (cls, [])

lemma walkException_count (count : Nat) (cls : Text) :
    walkException src count cls = walkException src 0 cls := climb_count count cls

/-- **Whether a call may suspend** depends on the view. -/
lemma respects_isSuspendable (cls name desc : Text) (search : Bool) :
    Respects (SameView src V) (isSuspendable src cls name desc search) := by
  have hstep (cls : Text) : Respects (SameView src V) (walkStep src name desc search cls) := by
    unfold walkStep
    split
    · exact respects_pure _
    refine (respects_entry cls).bind fun e => ?_
    cases e with
    | missing => exact respects_pure _
    | known f =>
        simp only
        split
        · exact respects_pure _
        · exact respects_pure _
  unfold isSuspendable
  split
  · exact respects_pure _
  split
  · exact respects_pure _
  refine respects_counted src (fun n => by rw [walk_count]) ?_
  refine (respects_climb hstep 0 cls).bind fun answer => ?_
  cases answer with
  | some b => exact respects_pure _
  | none => exact (respects_send _ _ _ _).bind fun _ => respects_pure _

/-- The chain of a class depends on the view. -/
lemma respects_chainTo (count : Nat) (cls : Text) :
    Respects (SameView src V) (chainTo src count cls) := by
  refine respects_climb (fun x => ?_) count _
  obtain ⟨cls, below⟩ := x
  unfold chainStep
  simp only
  split
  · exact respects_pure _
  refine (respects_directSuper cls).bind fun s => ?_
  cases s with
  | none => exact respects_pure _
  | some s => exact respects_pure _

/-- **The class that two classes have in common** depends on the view. -/
lemma respects_commonSuper (a b : Text) : Respects (SameView src V) (commonSuper src a b) := by
  unfold commonSuper
  split
  · exact respects_pure _
  split
  · exact respects_pure _
  refine respects_counted src (fun n => by rw [chainTo_count]) ?_
  refine (respects_chainTo 0 a).bind fun as => ?_
  cases as with
  | none => exact respects_pure _
  | some as =>
      refine respects_counted src (fun n => by rw [chainTo_count]) ?_
      refine (respects_chainTo 0 b).bind fun bs => ?_
      cases bs with
      | none => exact respects_pure _
      | some bs => exact respects_pure _

/-- **Whether a class can be thrown** depends on the view. -/
lemma respects_isException (cls : Text) : Respects (SameView src V) (isException src cls) := by
  refine respects_counted src (fun n => by rw [walkException_count]) ?_
  refine respects_climb (fun cls => ?_) 0 cls
  unfold exceptionStep
  split
  · exact respects_pure _
  split
  · exact respects_pure _
  refine (respects_directSuper cls).bind fun s => ?_
  cases s with
  | none => exact respects_pure _
  | some s => exact respects_pure _

/-! ## Chains in a view -/

/-- **All classes of a chain are ancestors** of the class that it begins at. -/
lemma Shows.chainTo (hh : Shows src V h) {count : Nat} {chain : List Text}
    (hc : ((chainTo src count cls).run h).1 = some chain) :
    ∀ c ∈ chain, Relation.ReflTransGen V.Extends cls c := by
  -- the walk has come from `cls` to `x.1`, and passed the classes of `x.2`
  let motive (x : Text × List Text) (h : Hierarchy) (out : Option (List Text) × Hierarchy) : Prop :=
    Shows src V h → (∀ c ∈ x.1 :: x.2, Relation.ReflTransGen V.Extends cls c) →
      ∀ chain, out.1 = some chain → ∀ c ∈ chain, Relation.ReflTransGen V.Extends cls c
  refine climb_induction (motive := motive) ?_ ?_ ?_ hh (by simp [Relation.ReflTransGen.refl]) chain hc
  · exact fun x h _ _ chain hc => by cases hc
  · rintro x h r h' hstep - hx chain rfl
    rcases chainStep_eq_inl hstep with ⟨-, hr, -⟩ | ⟨-, hr, -⟩
    · cases hr
      exact hx
    · cases hr
  · rintro x h y h' out hstep ih hh hx
    obtain ⟨hroot, s, rfl, hsuper⟩ := chainStep_eq_inr hstep
    have hs : (V x.1).super? = some s := (hh.directSuper x.1).symm.trans (congrArg Prod.fst hsuper)
    refine ih ?_ (List.forall_mem_cons.mpr ⟨(hx x.1 List.mem_cons_self).tail ⟨hroot, hs⟩, hx⟩)
    have hl : LearnsAll src Lesson.Asked h ((Hierarchy.directSuper src x.1).run h).2 :=
      directSuper_learns supers_asked x.1
    rw [hsuper] at hl
    exact hl.keeps (fun hl hh => hh.learns hl) hh

/-- **What two classes have in common** is an ancestor of both, or the root. -/
lemma Shows.commonSuper (hh : Shows src V h) {a b c : Text}
    (hc : ((commonSuper src a b).run h).1 = some c) :
    (Relation.ReflTransGen V.Extends a c ∧ Relation.ReflTransGen V.Extends b c)
      ∨ c = ClassName.object := by
  unfold Hierarchy.commonSuper at hc
  split at hc
  · next hab =>
      cases hc
      obtain rfl : a = b := by simpa using hab
      exact Or.inl ⟨.refl, .refl⟩
  split at hc
  · cases hc
    exact Or.inr rfl
  simp only [Query.run_bind] at hc
  split at hc
  · cases hc
  next as has =>
  simp only [Query.run_bind] at hc
  split at hc
  · cases hc
  next bs hbs =>
  obtain ⟨hca, hcb⟩ := mem_of_lastCommon hc
  -- the first walk leaves the view as it is
  have hh' : Shows src V ((Hierarchy.chainTo src (src.height + h.classes.length + 2) a).run h).2 :=
    (chainTo_learns supers_asked).keeps (fun hl hh => hh.learns hl) hh
  exact Or.inl ⟨hh.chainTo has c hca, hh'.chainTo hbs c hcb⟩

end Hierarchy

end Suspension
