import Suspension.Proofs.Frame.Termination

/-!
# The least common ancestor

What two classes have in common is found by comparing two chains of names from the root downwards.  In a
view of the classes it is the **least common ancestor**: an ancestor of both that every other common
ancestor is an ancestor of.  So it does not matter in which order, and in which groups, several classes
are joined, as the frame analysis does where paths meet.

* `ClassView.Ancestor`, `ClassView.Chain` — ancestors, and the chain from the root down to a class.
* `ClassView.IsLeastCommon` — the least common ancestor of some classes.
* `Hierarchy.climbOn_chain`, `Hierarchy.climbOn_unavailable` — what the walk towards the root comes to.
* `Hierarchy.Shows.commonSuper_isLeast` — two classes.
* `Grouping`, `Hierarchy.Shows.grouping` — any number of classes.

Ancestors of one class are the beginnings of its chain, so common ancestors are common beginnings.  An
array has no place in this order: it shares nothing but the root with any other class, even with one that
extends it, `Hierarchy.commonSuper_not_grouped`.
-/

namespace Suspension

open Relation (ReflTransGen)

namespace ClassView

/-- **A class is an ancestor** of another one, or the same. -/
abbrev Ancestor (V : ClassView) (cls a : Text) : Prop := ReflTransGen V.Extends cls a

/-- **The chain of a class**, from the root down to it. -/
inductive Chain (V : ClassView) : Text → List Text → Prop where
  | root : Chain V ClassName.object [ClassName.object]
  | step {cls s : Text} {l : List Text} (h : V.Extends cls s) (hs : Chain V s l) :
      Chain V cls (l ++ [cls])

/-- **The least common ancestor** of some classes. -/
structure IsLeastCommon (V : ClassView) (names : List Text) (c : Text) : Prop where
  above : ∀ cls ∈ names, V.Ancestor cls c
  least : ∀ a, (∀ cls ∈ names, V.Ancestor cls a) → V.Ancestor c a

variable {V : ClassView} {a b c cls : Text} {l l' p : List Text}

/-- A class extends at most one other. -/
lemma Extends.unique {s s' : Text} (h : V.Extends cls s) (h' : V.Extends cls s') : s = s' :=
  Option.some.inj (h.2.symm.trans h'.2)

namespace Chain

lemma unique (h : V.Chain cls l) (h' : V.Chain cls l') : l = l' := by
  induction h generalizing l' with
  | root =>
      cases h' with
      | root => rfl
      | step h => exact absurd rfl h.1
  | step h _ ih =>
      cases h' with
      | root => exact absurd rfl h.1
      | step h' hs' =>
          obtain rfl := h.unique h'
          rw [ih hs']

/-- A chain ends with its class. -/
lemma getLast? (h : V.Chain cls l) : l.getLast? = some cls := by
  cases h with
  | root => rfl
  | step => simp

/-- **The beginnings of a chain are the chains of ancestors.** -/
lemma of_prefix (h : V.Chain cls l) (hp : p <+: l) (hne : p ≠ []) :
    ∃ a, V.Chain a p ∧ V.Ancestor cls a := by
  induction h with
  | root =>
      rw [show [ClassName.object] = [] ++ [ClassName.object] from rfl, List.prefix_concat_iff] at hp
      rcases hp with rfl | hp
      · exact ⟨_, .root, .refl⟩
      · exact absurd (List.prefix_nil.mp hp) hne
  | step h hs ih =>
      rcases List.prefix_concat_iff.mp hp with rfl | hp
      · exact ⟨_, .step h hs, .refl⟩
      · obtain ⟨a, ha, hanc⟩ := ih hp
        exact ⟨a, ha, .head h hanc⟩

/-- The chain of an ancestor is a beginning. -/
lemma of_ancestor (h : V.Chain cls l) (ha : V.Ancestor cls a) : ∃ p, V.Chain a p ∧ p <+: l := by
  induction ha using ReflTransGen.head_induction_on generalizing l with
  | refl => exact ⟨l, h, List.prefix_refl l⟩
  | head hext _ ih =>
      cases h with
      | root => exact absurd rfl hext.1
      | step h hs =>
          obtain rfl := hext.unique h
          obtain ⟨p, hp, hpre⟩ := ih hs
          exact ⟨p, hp, hpre.trans (List.prefix_append _ _)⟩

/-- A class whose chain begins with that of another one has it as an ancestor. -/
lemma ancestor (h : V.Chain cls l) (ha : V.Chain a p) (hpre : p <+: l) : V.Ancestor cls a := by
  have hne : p ≠ [] := by
    rintro rfl
    exact absurd ha.getLast? (by simp)
  obtain ⟨a', ha', hanc⟩ := h.of_prefix hpre hne
  obtain rfl : a' = a := Option.some.inj (ha'.getLast?.symm.trans ha.getLast?)
  exact hanc

/-- **A class reaches the root exactly if it has a chain.** -/
lemma exists_iff : (∃ l, V.Chain cls l) ↔ V.Ancestor cls ClassName.object := by
  constructor
  · rintro ⟨l, h⟩
    induction h with
    | root => exact .refl
    | step h _ ih => exact .head h ih
  · intro h
    induction h using ReflTransGen.head_induction_on with
    | refl => exact ⟨_, .root⟩
    | head hext _ ih =>
        obtain ⟨l, hl⟩ := ih
        exact ⟨_, .step hext hl⟩

end Chain

/-- Ancestors of each other are the same, below the root. -/
lemma Ancestor.antisymm (ha : V.Ancestor a ClassName.object) (h : V.Ancestor a b)
    (h' : V.Ancestor b a) : a = b := by
  obtain ⟨l, hl⟩ := Chain.exists_iff.mpr ha
  obtain ⟨p, hp, hpre⟩ := hl.of_ancestor h
  obtain ⟨l', hl', hpre'⟩ := hp.of_ancestor h'
  obtain rfl := hl.unique hl'
  obtain rfl := hpre.eq_of_length_le hpre'.length_le
  exact Option.some.inj (hl.getLast?.symm.trans hp.getLast?)

namespace IsLeastCommon

variable {names names' : List Text}

/-- **There is at most one least common ancestor** of classes that reach the root. -/
lemma unique (h : V.IsLeastCommon names a) (h' : V.IsLeastCommon names b)
    (hroot : ∀ cls ∈ names, V.Ancestor cls ClassName.object) : a = b :=
  Ancestor.antisymm (h.least _ hroot) (h.least b h'.above) (h'.least a h.above)

/-- Only which classes there are counts. -/
lemma congr (h : V.IsLeastCommon names c) (hmem : ∀ cls, cls ∈ names' ↔ cls ∈ names) :
    V.IsLeastCommon names' c where
  above := fun cls hcls => h.above cls ((hmem cls).mp hcls)
  least := fun a ha => h.least a fun cls hcls => ha cls ((hmem cls).mpr hcls)

/-- **Two least common ancestors have the one of all in common.** -/
lemma append (h : V.IsLeastCommon names a) (h' : V.IsLeastCommon names' b)
    (hc : V.IsLeastCommon [a, b] c) : V.IsLeastCommon (names ++ names') c where
  above := by
    intro cls hcls
    rcases List.mem_append.mp hcls with hcls | hcls
    · exact (h.above cls hcls).trans (hc.above a (by simp))
    · exact (h'.above cls hcls).trans (hc.above b (by simp))
  least := by
    intro d hd
    refine hc.least d ?_
    simp only [List.forall_mem_cons, List.not_mem_nil, false_implies, implies_true, and_true]
    exact ⟨h.least d fun cls hcls => hd cls (List.mem_append_left _ hcls),
      h'.least d fun cls hcls => hd cls (List.mem_append_right _ hcls)⟩

end IsLeastCommon

end ClassView

namespace Hierarchy

open ClassView

variable {src : ClassSource} {V : ClassView} {h h' : Hierarchy} {a b c cls : Text} {l as bs : List Text}

/-! ## Common beginnings -/

/-- **The last common element** ends the longest common beginning. -/
lemma lastCommon_eq_some (h : lastCommon as bs = some c) :
    ∃ p, p ++ [c] <+: as ∧ p ++ [c] <+: bs ∧ ∀ q, q <+: as → q <+: bs → q <+: p ++ [c] := by
  induction as generalizing bs c with
  | nil => simp [lastCommon] at h
  | cons x as ih =>
      cases bs with
      | nil => simp [lastCommon] at h
      | cons y bs =>
          by_cases hxy : x = y
          case neg => simp [lastCommon, hxy] at h
          subst hxy
          simp only [lastCommon, BEq.rfl, if_true] at h
          cases hrest : lastCommon as bs with
          | some d =>
              rw [hrest] at h
              cases h
              obtain ⟨p, ha, hb, hlongest⟩ := ih hrest
              refine ⟨x :: p, by simpa using ha, by simpa using hb, fun q hqa hqb => ?_⟩
              cases q with
              | nil => exact List.nil_prefix
              | cons z q =>
                  rw [List.cons_prefix_cons] at hqa hqb
                  rw [List.cons_append, List.cons_prefix_cons]
                  exact ⟨hqa.1, hlongest q hqa.2 hqb.2⟩
          | none =>
              rw [hrest] at h
              cases h
              -- behind the first element there is nothing in common
              refine ⟨[], by simp, by simp, fun q hqa hqb => ?_⟩
              cases q with
              | nil => exact List.nil_prefix
              | cons z q =>
                  rw [List.cons_prefix_cons] at hqa hqb
                  cases q with
                  | nil => simp [hqa.1]
                  | cons w q =>
                      obtain ⟨as', rfl⟩ := hqa.2
                      obtain ⟨bs', rfl⟩ := hqb.2
                      cases hl : lastCommon (q ++ as') (q ++ bs') <;> simp [lastCommon, hl] at hrest

/-- Chains from one root have something in common. -/
lemma lastCommon_ne_none (ha : V.Chain a as) (hb : V.Chain b bs) : lastCommon as bs ≠ none := by
  have hroot : ∀ {cls l}, V.Chain cls l → ∃ t, l = ClassName.object :: t := by
    intro cls l h
    induction h with
    | root => exact ⟨[], rfl⟩
    | step _ _ ih =>
        obtain ⟨t, rfl⟩ := ih
        exact ⟨_, rfl⟩
  obtain ⟨as, rfl⟩ := hroot ha
  obtain ⟨bs, rfl⟩ := hroot hb
  cases hl : lastCommon as bs <;> simp [lastCommon, hl]

/-- **The last common element of two chains** is the least common ancestor. -/
lemma isLeastCommon_of_lastCommon (ha : V.Chain a as) (hb : V.Chain b bs)
    (h : lastCommon as bs = some c) : V.IsLeastCommon [a, b] c := by
  obtain ⟨p, hpa, hpb, hlongest⟩ := lastCommon_eq_some h
  obtain ⟨c', hc', -⟩ := ha.of_prefix hpa (by simp)
  obtain rfl : c' = c := by simpa [eq_comm] using hc'.getLast?
  refine ⟨?_, fun d hd => ?_⟩
  · simp only [List.forall_mem_cons, List.not_mem_nil, false_implies, implies_true, and_true]
    exact ⟨ha.ancestor hc' hpa, hb.ancestor hc' hpb⟩
  · obtain ⟨q, hq, hqa⟩ := ha.of_ancestor (hd a (by simp))
    obtain ⟨q', hq', hqb⟩ := hb.of_ancestor (hd b (by simp))
    obtain rfl := hq.unique hq'
    exact hc'.ancestor hq (hlongest q hqa hqb)

/-! ## The walk towards the root -/

lemma Shows.step_directSuper (hh : Shows src V h) (cls : Text) :
    ∃ h', (Hierarchy.directSuper src cls).run h = ((V cls).super?, h') ∧ Shows src V h' := by
  refine ⟨_, Prod.ext (hh.directSuper cls) rfl, ?_⟩
  exact (directSuper_learns supers_asked cls).keeps (fun hl hh => hh.learns hl) hh

/-- **The walk from a class that reaches the root** comes to its chain. -/
lemma climbOn_chain (hl : V.Chain cls l) (hh : Shows src V h) (below : List Text) :
    ∃ h', climbOn (chainStep src) (cls, below) h = some (some (l ++ below), h') ∧ Shows src V h' := by
  induction hl generalizing h below with
  | root => exact ⟨h, climbOn_of_inl (run_chainStep_object below h), hh⟩
  | @step cls s l hext _ ih =>
      obtain ⟨h₁, hsuper, hh₁⟩ := hh.step_directSuper cls
      obtain ⟨h', hrest, hh'⟩ := ih hh₁ (cls :: below)
      refine ⟨h', ?_, hh'⟩
      have hstep : (chainStep src (cls, below)).run h = (.inr (s, cls :: below), h₁) := by
        rw [run_chainStep hext.1, hsuper, hext.2]
      rw [climbOn_of_inr hstep, hrest]
      simp

/-- **The walk from a class that does not reach the root** comes to nothing, if it ends. -/
lemma climbOn_unavailable (hends : V.Ends) (hnot : ¬ V.Ancestor cls ClassName.object)
    (hh : Shows src V h) (below : List Text) :
    ∃ h', climbOn (chainStep src) (cls, below) h = some (none, h') ∧ Shows src V h' := by
  induction cls using hends.induction generalizing h below with
  | _ cls ih =>
      have hroot : cls ≠ ClassName.object := by
        rintro rfl
        exact hnot .refl
      obtain ⟨h₁, hsuper, hh₁⟩ := hh.step_directSuper cls
      cases hs : (V cls).super? with
      | none =>
          refine ⟨h₁, climbOn_of_inl ?_, hh₁⟩
          rw [run_chainStep hroot, hsuper, hs]
      | some s =>
          obtain ⟨h', hrest, hh'⟩ :=
            ih s ⟨hroot, hs⟩ (fun hanc => hnot (.head ⟨hroot, hs⟩ hanc)) hh₁ (cls :: below)
          refine ⟨h', ?_, hh'⟩
          have hstep : (chainStep src (cls, below)).run h = (.inr (s, cls :: below), h₁) := by
            rw [run_chainStep hroot, hsuper, hs]
          rw [climbOn_of_inr hstep, hrest]

/-- What the chain of a class is found to be. -/
lemma run_chainTo {r : Option (List Text)} {count : Nat}
    (hw : climbOn (chainStep src) (cls, []) h = some (r, h')) :
    (chainTo src count cls).run h = (r, h') := by
  rw [chainTo, run_climb, hw]
  rfl

/-! ## What two classes have in common -/

/-- What is asked of two different classes that are no arrays: the chain of one, then that of the other. -/
lemma run_commonSuper (hab : a ≠ b) (ha : Descriptor.isArray a = false)
    (hb : Descriptor.isArray b = false) {r r' : Option (List Text)} {h₁ h₂ : Hierarchy}
    (hwa : climbOn (chainStep src) (a, []) h = some (r, h₁))
    (hwb : climbOn (chainStep src) (b, []) h₁ = some (r', h₂)) :
    ((commonSuper src a b).run h).1 = r.bind fun as => r'.bind fun bs => lastCommon as bs := by
  simp only [commonSuper]
  rw [if_neg (by simpa using hab), if_neg (by simp [ha, hb])]
  simp only [Query.run_bind, chainBound, Query.run_get, Query.run_pure, run_chainTo hwa]
  cases r with
  | none => rfl
  | some as =>
      simp only [Query.run_bind, Query.run_get, Query.run_pure, run_chainTo hwb]
      cases r' with
      | none => rfl
      | some bs => rfl

/-- A class and itself. -/
lemma run_commonSuper_self (a : Text) (h : Hierarchy) : ((commonSuper src a a).run h).1 = some a := by
  simp only [commonSuper, BEq.rfl, if_true]
  rfl

/-- An array and another class. -/
lemma run_commonSuper_array (hab : a ≠ b)
    (harray : Descriptor.isArray a = true ∨ Descriptor.isArray b = true) (h : Hierarchy) :
    ((commonSuper src a b).run h).1 = some ClassName.object := by
  simp only [commonSuper]
  rw [if_neg (by simpa using hab), if_pos (by simpa using harray)]
  rfl

namespace Shows

variable (hh : Shows src V h)

include hh in
/-- Asking for what two classes have in common leaves the view as it is. -/
lemma run_commonSuper (a b : Text) : Shows src V ((Hierarchy.commonSuper src a b).run h).2 :=
  (commonSuper_learns supers_asked).keeps (fun hl hh => hh.learns hl) hh

include hh in
/-- **Two classes that reach the root** have their least common ancestor in common. -/
lemma commonSuper_isLeast (ha : Descriptor.isArray a = false) (hb : Descriptor.isArray b = false)
    (hra : V.Ancestor a ClassName.object) (hrb : V.Ancestor b ClassName.object) :
    ∃ c, ((Hierarchy.commonSuper src a b).run h).1 = some c ∧ V.IsLeastCommon [a, b] c := by
  by_cases hab : a = b
  · subst hab
    exact ⟨a, run_commonSuper_self a h, by simp [ReflTransGen.refl], fun d hd => hd a (by simp)⟩
  obtain ⟨as, has⟩ := Chain.exists_iff.mpr hra
  obtain ⟨bs, hbs⟩ := Chain.exists_iff.mpr hrb
  obtain ⟨h₁, hwa, hh₁⟩ := climbOn_chain has hh []
  obtain ⟨h₂, hwb, -⟩ := climbOn_chain hbs hh₁ []
  rw [Hierarchy.run_commonSuper hab ha hb hwa hwb]
  obtain ⟨c, hc⟩ := Option.ne_none_iff_exists'.mp (lastCommon_ne_none has hbs)
  exact ⟨c, by simpa using hc, isLeastCommon_of_lastCommon has hbs hc⟩

include hh in
/-- **If the chain of one is not available** there is no answer. -/
lemma commonSuper_unavailable (hends : V.Ends) (hab : a ≠ b) (ha : Descriptor.isArray a = false)
    (hb : Descriptor.isArray b = false)
    (hnot : ¬ V.Ancestor a ClassName.object ∨ ¬ V.Ancestor b ClassName.object) :
    ((Hierarchy.commonSuper src a b).run h).1 = none := by
  -- a walk that ends, and its result
  have hwalk : ∀ (cls : Text) {h : Hierarchy}, Shows src V h →
      ∃ r h', climbOn (chainStep src) (cls, []) h = some (r, h') ∧ Shows src V h'
        ∧ (¬ V.Ancestor cls ClassName.object → r = none) := by
    intro cls h hh
    by_cases hroot : V.Ancestor cls ClassName.object
    · obtain ⟨l, hl⟩ := Chain.exists_iff.mpr hroot
      obtain ⟨h', hw, hh'⟩ := climbOn_chain hl hh []
      exact ⟨_, h', hw, hh', fun hno => absurd hroot hno⟩
    · obtain ⟨h', hw, hh'⟩ := climbOn_unavailable hends hroot hh []
      exact ⟨_, h', hw, hh', fun _ => rfl⟩
  obtain ⟨r, h₁, hwa, hh₁, hra⟩ := hwalk a hh
  obtain ⟨r', h₂, hwb, -, hrb⟩ := hwalk b hh₁
  rw [Hierarchy.run_commonSuper hab ha hb hwa hwb]
  rcases hnot with hno | hno
  · rw [hra hno]
    rfl
  · rw [hrb hno]
    cases r <;> rfl

include hh in
/-- **The order of two classes does not matter.** -/
lemma commonSuper_comm (hends : V.Ends) (a b : Text) :
    ((Hierarchy.commonSuper src a b).run h).1 = ((Hierarchy.commonSuper src b a).run h).1 := by
  by_cases hab : a = b
  · rw [hab]
  by_cases harray : Descriptor.isArray a = true ∨ Descriptor.isArray b = true
  · rw [run_commonSuper_array hab harray, run_commonSuper_array (Ne.symm hab) harray.symm]
  obtain ⟨ha, hb⟩ : Descriptor.isArray a = false ∧ Descriptor.isArray b = false := by
    simpa using harray
  by_cases hroot : V.Ancestor a ClassName.object ∧ V.Ancestor b ClassName.object
  · obtain ⟨c, hc, hleast⟩ := hh.commonSuper_isLeast ha hb hroot.1 hroot.2
    obtain ⟨c', hc', hleast'⟩ := hh.commonSuper_isLeast hb ha hroot.2 hroot.1
    have hsame : c = c' := hleast.unique (hleast'.congr (by simp [or_comm])) (by simp [hroot])
    rw [hc, hc', hsame]
  · have hnot := not_and_or.mp hroot
    rw [hh.commonSuper_unavailable hends hab ha hb hnot,
      hh.commonSuper_unavailable hends (Ne.symm hab) hb ha hnot.symm]

end Shows

end Hierarchy

/-! ## Any number of classes -/

/-- **Classes in groups**: one class, or two groups that are joined. -/
inductive Grouping where
  | single (cls : Text)
  | join (l r : Grouping)

namespace Grouping

/-- The classes of a group, from left to right. -/
def names : Grouping → List Text
  | single cls => [cls]
  | join l r => l.names ++ r.names

/-- **What the classes of a group have in common**, found by asking for two at a time. -/
def ask (src : ClassSource) : Grouping → Query (Option Text)
  | single cls => return some cls
  | join l r => do
    match ← l.ask src, ← r.ask src with
    | some a, some b => Hierarchy.commonSuper src a b
    | _, _ => return none

end Grouping

/-- **A class that can be joined with others**: it reaches the root, and no array is on its way. -/
structure ClassView.Joins (V : ClassView) (cls : Text) : Prop where
  root : V.Ancestor cls ClassName.object
  ancestors : ∀ a, V.Ancestor cls a → Descriptor.isArray a = false

namespace Hierarchy

open ClassView

variable {src : ClassSource} {V : ClassView} {h : Hierarchy}

/-- An ancestor of a class that can be joined can be joined. -/
lemma joins_ancestor {cls a : Text} (hc : V.Joins cls) (ha : V.Ancestor cls a)
    (hroot : V.Ancestor a ClassName.object) : V.Joins a :=
  ⟨hroot, fun b hb => hc.ancestors b (ha.trans hb)⟩

/-- **A group has its least common ancestor in common.** -/
lemma Shows.ask (hh : Shows src V h) (g : Grouping) (hjoins : ∀ cls ∈ g.names, V.Joins cls) :
    ∃ c, ((g.ask src).run h).1 = some c ∧ V.IsLeastCommon g.names c ∧ V.Joins c
      ∧ Shows src V ((g.ask src).run h).2 := by
  induction g generalizing h with
  | single cls =>
      exact ⟨cls, rfl, ⟨by simp [Grouping.names, ReflTransGen.refl], fun d hd =>
        hd cls (by simp [Grouping.names])⟩,
        hjoins cls (by simp [Grouping.names]), hh⟩
  | join l r ihl ihr =>
      simp only [Grouping.names, List.mem_append] at hjoins
      obtain ⟨a, ha, hleast, hja, hh₁⟩ := ihl hh fun cls hcls => hjoins cls (Or.inl hcls)
      obtain ⟨b, hb, hleast', hjb, hh₂⟩ := ihr hh₁ fun cls hcls => hjoins cls (Or.inr hcls)
      obtain ⟨c, hc, hcommon⟩ := hh₂.commonSuper_isLeast (hja.ancestors a .refl) (hjb.ancestors b .refl)
        hja.root hjb.root
      have hroot : V.Ancestor c ClassName.object :=
        hcommon.least _ (by simp [hja.root, hjb.root])
      have hrun : (Grouping.ask src (.join l r)).run h
          = (Hierarchy.commonSuper src a b).run ((r.ask src).run ((l.ask src).run h).2).2 := by
        simp only [Grouping.ask, Query.run_bind, ha, hb]
      rw [hrun]
      exact ⟨c, hc, hleast.append hleast' hcommon, joins_ancestor hja (hcommon.above a (by simp)) hroot,
        hh₂.run_commonSuper a b⟩

/-- **What classes have in common.**  Let every chain of superclasses end; then the walks towards the root
end.  Two classes that are no arrays and reach the root have their least common ancestor in common; the
order of two classes does not matter, and a class has itself in common with itself; classes without an
array among their ancestors have the same class in common in whatever order and groups they are joined;
an array has the root in common with any other class; and if the chain of one of two other classes is not
available, there is no answer. -/
theorem commonSuper_leastCommon (hends : V.Ends) (hh : Shows src V h) :
    (∀ cls, (climbOn (chainStep src) (cls, []) h).isSome)
      ∧ (∀ a b, Descriptor.isArray a = false → Descriptor.isArray b = false →
          V.Ancestor a ClassName.object → V.Ancestor b ClassName.object →
          ∃ c, ((commonSuper src a b).run h).1 = some c ∧ V.IsLeastCommon [a, b] c)
      ∧ (∀ a b, ((commonSuper src a b).run h).1 = ((commonSuper src b a).run h).1)
      ∧ (∀ a, ((commonSuper src a a).run h).1 = some a)
      ∧ (∀ g : Grouping, (∀ cls ∈ g.names, V.Joins cls) →
          ∃ c, V.IsLeastCommon g.names c
            ∧ ∀ g' : Grouping, g'.names.Perm g.names → ((g'.ask src).run h).1 = some c)
      ∧ (∀ a b, a ≠ b → (Descriptor.isArray a = true ∨ Descriptor.isArray b = true) →
          ((commonSuper src a b).run h).1 = some ClassName.object)
      ∧ (∀ a b, a ≠ b → Descriptor.isArray a = false → Descriptor.isArray b = false →
          (¬ V.Ancestor a ClassName.object ∨ ¬ V.Ancestor b ClassName.object) →
          ((commonSuper src a b).run h).1 = none) := by
  refine ⟨fun cls => ?_, fun a b ha hb => hh.commonSuper_isLeast ha hb, hh.commonSuper_comm hends,
    fun a => run_commonSuper_self a h, fun g hg => ?_, fun a b hab harray => run_commonSuper_array hab harray h,
    fun a b hab ha hb => hh.commonSuper_unavailable hends hab ha hb⟩
  · by_cases hroot : V.Ancestor cls ClassName.object
    · obtain ⟨l, hl⟩ := Chain.exists_iff.mpr hroot
      obtain ⟨h', hw, -⟩ := climbOn_chain hl hh []
      simp [hw]
    · obtain ⟨h', hw, -⟩ := climbOn_unavailable hends hroot hh []
      simp [hw]
  · obtain ⟨c, -, hleast, -⟩ := hh.ask g hg
    refine ⟨c, hleast, fun g' hperm => ?_⟩
    obtain ⟨c', hc', hleast', -⟩ := hh.ask g' fun cls hcls => hg cls (hperm.mem_iff.mp hcls)
    have hsame : c = c' :=
      hleast.unique (hleast'.congr fun cls => hperm.mem_iff.symm) fun cls hcls => (hg cls hcls).root
    rw [hc', hsame]

open Analysis (siblings siblingsView siblings_shows siblings_ends)

/-- The theorem at two siblings under a class of their own, and at a class of which nothing is known. -/
theorem siblings_leastCommon :
    (siblingsView "t/S").Ends ∧ Shows {} (siblingsView "t/S") (siblings "t/S")
      ∧ ((commonSuper {} "t/A" "t/B").run (siblings "t/S")).1
          = ((commonSuper {} "t/B" "t/A").run (siblings "t/S")).1
      ∧ ((commonSuper {} "t/A" "t/B").run (siblings "t/S")).1 = some (Text.ofString "t/S")
      ∧ ((commonSuper {} "t/A" "t/C").run (siblings "t/S")).1 = none := by
  have hends : (siblingsView "t/S").Ends := siblings_ends (by decide) (by decide)
  have hall := commonSuper_leastCommon hends (siblings_shows "t/S")
  have hnot : ¬ (siblingsView "t/S").Ancestor "t/C" ClassName.object := by
    intro hanc
    rcases hanc.cases_head with heq | ⟨s, hext, -⟩
    · exact absurd heq (by decide)
    · exact absurd hext.2 (by simp [show (siblingsView "t/S" "t/C").super? = none by decide])
  exact ⟨hends, siblings_shows "t/S", hall.2.2.1 _ _, by decide +kernel,
    hall.2.2.2.2.2.2 _ _ (by decide) (by decide) (by decide) (Or.inr hnot)⟩

/-- **Groups matter where an array is extended.**  Two siblings extend a class that is named like an array:
they have it in common, but with it they have only the root in common. -/
theorem commonSuper_not_grouped :
    (siblingsView "[x").Ends ∧ Shows {} (siblingsView "[x") (siblings "[x")
      ∧ (∀ cls ∈ [Text.ofString "t/A", Text.ofString "t/B"],
          Descriptor.isArray cls = false ∧ (siblingsView "[x").Ancestor cls ClassName.object)
      ∧ (((Grouping.join (.join (.single "t/A") (.single "t/A")) (.single "t/B")).ask {}).run
          (siblings "[x")).1 = some (Text.ofString "[x")
      ∧ (((Grouping.join (.single "t/A") (.join (.single "t/A") (.single "t/B"))).ask {}).run
          (siblings "[x")).1 = some ClassName.object := by
  have hsuper : (siblingsView "[x").Extends "[x" ClassName.object := ⟨by decide, by decide⟩
  refine ⟨siblings_ends (by decide) (by decide), siblings_shows "[x", ?_, by decide +kernel,
    by decide +kernel⟩
  simp only [List.forall_mem_cons, List.not_mem_nil, false_implies, implies_true, and_true]
  exact ⟨⟨by decide, .head ⟨by decide, by decide⟩ (.single hsuper)⟩,
    ⟨by decide, .head ⟨by decide, by decide⟩ (.single hsuper)⟩⟩

end Hierarchy

end Suspension
