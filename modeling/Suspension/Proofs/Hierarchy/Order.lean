import Suspension.Proofs.Hierarchy.Ancestors

/-!
# Orders of classes

The frame analysis joins classes by asking for what they have in common, and takes the root where there is
no answer.  In an order of classes in which **the class that is taken is the least above both**, the result
of joining depends neither on the order nor on the number of times that classes are joined, and two
analyses can be compared class by class.

Ancestors alone are no such order.  Of a class whose chain is not available nothing but itself and the root
is ever found, and an array has only the root in common with any other class.  The order in which joining
is least leaves those out; it needs that no class extends an array or one that is named like the null
constant.

* `ClassName.element` — the class of the elements of an array.
* `Hierarchy.joined` — the class that is taken where two classes meet.
* `ClassOrder` — an order of classes that joining and loading elements respect.
* `ClassOrder.any`, `ClassView.Under`, `ClassOrder.under` — any two classes, and the order in question.
* `ClassView.Under.antisymm` — classes that are below each other are the same.
-/

namespace Suspension

open Relation (ReflTransGen)

/-- The class of what is loaded from an array of references. -/
def ClassName.element (array : Text) : Text :=
  let desc := Descriptor.element array
  if Descriptor.kind? desc == some .ref then Descriptor.classOf desc else ClassName.object

/-- **The class that is taken where two classes meet.** -/
def Hierarchy.joined (src : ClassSource) (h : Hierarchy) (a b : Text) : Text :=
  (((Hierarchy.commonSuper src a b).run h).1).getD ClassName.object

/-- **An order of classes that joining and loading respect.**  `loads` are the arrays whose elements are as
far up as they are themselves; `builds` are the classes that may be constructed, one named like the null
constant among them only if all classes are alike. -/
structure ClassOrder (src : ClassSource) (V : ClassView) where
  le : Text → Text → Prop
  loads : Text → Prop
  builds : Text → Prop
  refl : ∀ c, le c c
  trans : ∀ {a b c}, le a b → le b c → le a c
  null : ∀ c, le ClassName.null c
  object : ∀ c, le c ClassName.object
  cast : ∀ {a b : Text} (c), le a b →
    le (if a = ClassName.null then ClassName.null else c) (if b = ClassName.null then ClassName.null else c)
  element : ∀ {a b}, loads a → le a b → le (ClassName.element a) (ClassName.element b)
  alike : builds ClassName.null → ∀ a b, le a b
  join : ∀ {h : Hierarchy} {a b}, h.Shows src V → le a (h.joined src a b) ∧ le b (h.joined src a b)
  least : ∀ {h : Hierarchy} {a b d}, h.Shows src V → a ≠ ClassName.null → b ≠ ClassName.null →
    le a d → le b d → le (h.joined src a b) d

/-- **The order in which all classes are alike.** -/
def ClassOrder.any (src : ClassSource) (V : ClassView) : ClassOrder src V where
  le _ _ := True
  loads _ := True
  builds _ := True
  refl _ := trivial
  trans _ _ := trivial
  null _ := trivial
  object _ := trivial
  cast _ _ := trivial
  element _ _ := trivial
  alike _ _ _ := trivial
  join _ := ⟨trivial, trivial⟩
  least _ _ _ _ _ := trivial

namespace ClassView

/-- **What classes extend are classes**: no array, and none that is named like the null constant. -/
structure Plain (V : ClassView) : Prop where
  null : ∀ cls, ¬ V.Extends cls ClassName.null
  array : ∀ {cls s}, V.Extends cls s → Descriptor.isArray s = false

/-- **One class is under another**: it is the same, or the null constant, or the other is the root, or an
ancestor that is found because the chain up to the root is available. -/
def Under (V : ClassView) (a b : Text) : Prop :=
  a = b ∨ a = ClassName.null ∨ b = ClassName.object ∨
    (Descriptor.isArray a = false ∧ V.Ancestor a ClassName.object ∧ V.Ancestor a b)

variable {V : ClassView} {a b c d : Text}

/-- Above the root there is nothing. -/
lemma Ancestor.of_object (h : V.Ancestor ClassName.object a) : a = ClassName.object := by
  rcases h.cases_head with rfl | ⟨s, hext, -⟩
  · rfl
  · exact absurd rfl hext.1

/-- What reaches the root reaches it through all its ancestors. -/
lemma Ancestor.root (h : V.Ancestor a b) (ha : V.Ancestor a ClassName.object) :
    V.Ancestor b ClassName.object := by
  obtain ⟨l, hl⟩ := Chain.exists_iff.mpr ha
  obtain ⟨p, hp, -⟩ := hl.of_ancestor h
  exact Chain.exists_iff.mp ⟨p, hp⟩

namespace Plain

variable (hV : V.Plain)

include hV in
lemma ne_null (h : V.Ancestor a b) (ha : a ≠ ClassName.null) : b ≠ ClassName.null := by
  rintro rfl
  rcases h.cases_tail with heq | ⟨s, -, hext⟩
  · exact ha heq.symm
  · exact hV.null s hext

include hV in
lemma isArray (h : V.Ancestor a b) (ha : Descriptor.isArray a = false) :
    Descriptor.isArray b = false := by
  rcases h.cases_tail with rfl | ⟨s, -, hext⟩
  · exact ha
  · exact hV.array hext

end Plain

namespace Under

lemma refl (a : Text) : V.Under a a := Or.inl rfl

lemma null (a : Text) : V.Under ClassName.null a := Or.inr (Or.inl rfl)

lemma object (a : Text) : V.Under a ClassName.object := Or.inr (Or.inr (Or.inl rfl))

/-- Under the null constant there is only itself. -/
lemma eq_null (hV : V.Plain) (h : V.Under a ClassName.null) : a = ClassName.null := by
  rcases h with h | h | h | ⟨-, -, h⟩
  · exact h
  · exact h
  · exact absurd h (by decide)
  · by_contra hne
    exact hV.ne_null h hne rfl

/-- Under an array there are only itself and the null constant. -/
lemma eq_of_isArray (hV : V.Plain) (h : V.Under a b) (hb : Descriptor.isArray b = true) :
    a = b ∨ a = ClassName.null := by
  rcases h with h | h | rfl | ⟨ha, -, h⟩
  · exact Or.inl h
  · exact Or.inr h
  · exact absurd hb (by decide)
  · have := hV.isArray h ha
    rw [hb] at this
    cases this

/-- Above the root there is nothing. -/
lemma eq_object (h : V.Under ClassName.object a) : a = ClassName.object := by
  rcases h with h | h | h | ⟨-, -, h⟩
  · exact h.symm
  · exact absurd h (by decide)
  · exact h
  · exact h.of_object

lemma trans (hV : V.Plain) (h : V.Under a b) (h' : V.Under b c) : V.Under a c := by
  rcases h with rfl | rfl | rfl | ⟨ha, hroot, hab⟩
  · exact h'
  · exact null c
  · obtain rfl := h'.eq_object
    exact object a
  · rcases h' with rfl | rfl | rfl | ⟨-, -, hbc⟩
    · exact Or.inr (Or.inr (Or.inr ⟨ha, hroot, hab⟩))
    · by_cases hne : a = ClassName.null
      · exact hne ▸ null c
      · exact absurd rfl (hV.ne_null hab hne)
    · exact object a
    · exact Or.inr (Or.inr (Or.inr ⟨ha, hroot, hab.trans hbc⟩))

/-- **Classes that are under each other are the same.** -/
lemma antisymm (hV : V.Plain) (h : V.Under a b) (h' : V.Under b a) : a = b := by
  rcases h with h | rfl | rfl | ⟨-, hroot, hab⟩
  · exact h
  · exact (h'.eq_null hV).symm
  · exact h'.eq_object
  · rcases h' with h' | rfl | rfl | ⟨-, -, hba⟩
    · exact h'.symm
    · by_contra hne
      exact hV.ne_null hab hne rfl
    · exact hab.of_object.symm
    · exact Ancestor.antisymm hroot hab hba

/-- What is under another class, and no array, has it as an ancestor if it reaches the root. -/
lemma ancestor (h : V.Under a b) (hne : a ≠ ClassName.null) (ha : V.Ancestor a ClassName.object) :
    V.Ancestor a b := by
  rcases h with rfl | h | rfl | ⟨-, -, h⟩
  · exact .refl
  · exact absurd h hne
  · exact ha
  · exact h

/-- **Of a class that does not reach the root** only itself and the root are found. -/
lemma eq_of_unavailable (h : V.Under a b) (hne : a ≠ ClassName.null)
    (ha : ¬ V.Ancestor a ClassName.object) : b = a ∨ b = ClassName.object := by
  rcases h with rfl | h | h | ⟨-, hroot, -⟩
  · exact Or.inl rfl
  · exact absurd h hne
  · exact Or.inr h
  · exact absurd hroot ha

/-- **A class above two different ones of which one is an array** is the root. -/
lemma eq_object_of_isArray (hV : V.Plain) (h : V.Under a d) (h' : V.Under b d) (hab : a ≠ b)
    (ha : a ≠ ClassName.null) (hb : b ≠ ClassName.null) (harray : Descriptor.isArray a = true) :
    d = ClassName.object := by
  rcases h with rfl | h | h | ⟨hno, -, -⟩
  · rcases h'.eq_of_isArray hV harray with h | h
    · exact absurd h.symm hab
    · exact absurd h hb
  · exact absurd h ha
  · exact h
  · rw [harray] at hno
    cases hno

/-- **A class above two different ones of which one does not reach the root** is the root. -/
lemma eq_object_of_unavailable (h : V.Under a d) (h' : V.Under b d) (hab : a ≠ b)
    (ha : a ≠ ClassName.null) (hb : b ≠ ClassName.null) (hnot : ¬ V.Ancestor a ClassName.object) :
    d = ClassName.object := by
  rcases h.eq_of_unavailable ha hnot with rfl | h
  · rcases h' with h' | h' | h' | ⟨-, hroot, hanc⟩
    · exact absurd h'.symm hab
    · exact absurd h' hb
    · exact h'
    · exact absurd (hanc.root hroot) hnot
  · exact h

end Under

end ClassView

namespace Hierarchy.Shows

open ClassView

variable {src : ClassSource} {V : ClassView} {h : Hierarchy} {a b d : Text}

/-- **What is taken where two classes meet**: the class itself where they are the same, the root where one is
an array or does not reach it, and their least common ancestor otherwise. -/
lemma joined_cases (hh : h.Shows src V) (hends : V.Ends) (a b : Text) :
    (a = b ∧ h.joined src a b = a) ∨
      (a ≠ b ∧ (Descriptor.isArray a = true ∨ Descriptor.isArray b = true)
        ∧ h.joined src a b = ClassName.object) ∨
      (a ≠ b ∧ (¬ V.Ancestor a ClassName.object ∨ ¬ V.Ancestor b ClassName.object)
        ∧ h.joined src a b = ClassName.object) ∨
      (Descriptor.isArray a = false ∧ Descriptor.isArray b = false ∧ V.Ancestor a ClassName.object
        ∧ V.Ancestor b ClassName.object ∧ V.IsLeastCommon [a, b] (h.joined src a b)) := by
  unfold Hierarchy.joined
  by_cases hab : a = b
  · subst hab
    rw [Hierarchy.run_commonSuper_self]
    exact Or.inl ⟨rfl, rfl⟩
  refine Or.inr ?_
  by_cases harray : Descriptor.isArray a = true ∨ Descriptor.isArray b = true
  · rw [Hierarchy.run_commonSuper_array hab harray]
    exact Or.inl ⟨hab, harray, rfl⟩
  obtain ⟨ha, hb⟩ : Descriptor.isArray a = false ∧ Descriptor.isArray b = false := by
    simpa using harray
  refine Or.inr ?_
  by_cases hroot : V.Ancestor a ClassName.object ∧ V.Ancestor b ClassName.object
  · obtain ⟨c, hc, hleast⟩ := hh.commonSuper_isLeast ha hb hroot.1 hroot.2
    rw [hc]
    exact Or.inr ⟨ha, hb, hroot.1, hroot.2, hleast⟩
  · have hnot := not_and_or.mp hroot
    rw [hh.commonSuper_unavailable hends hab ha hb hnot]
    exact Or.inl ⟨hab, hnot, rfl⟩

/-- Two classes are under the one that is taken where they meet. -/
lemma under_joined (hh : h.Shows src V) (hends : V.Ends) (a b : Text) :
    V.Under a (h.joined src a b) ∧ V.Under b (h.joined src a b) := by
  rcases hh.joined_cases hends a b with ⟨rfl, hj⟩ | ⟨-, -, hj⟩ | ⟨-, -, hj⟩ | ⟨ha, hb, hra, hrb, hl⟩
  · rw [hj]
    exact ⟨.refl _, .refl _⟩
  · rw [hj]
    exact ⟨.object _, .object _⟩
  · rw [hj]
    exact ⟨.object _, .object _⟩
  · exact ⟨Or.inr (Or.inr (Or.inr ⟨ha, hra, hl.above a (by simp)⟩)),
      Or.inr (Or.inr (Or.inr ⟨hb, hrb, hl.above b (by simp)⟩))⟩

/-- **The class that is taken is the least** of those that both are under. -/
lemma joined_under (hh : h.Shows src V) (hends : V.Ends) (hV : V.Plain) (hna : a ≠ ClassName.null)
    (hnb : b ≠ ClassName.null) (had : V.Under a d) (hbd : V.Under b d) :
    V.Under (h.joined src a b) d := by
  rcases hh.joined_cases hends a b with
    ⟨rfl, hj⟩ | ⟨hab, harray, hj⟩ | ⟨hab, hnot, hj⟩ | ⟨ha, -, hra, hrb, hl⟩
  · rw [hj]
    exact had
  · have hd : d = ClassName.object := by
      rcases harray with harray | harray
      · exact had.eq_object_of_isArray hV hbd hab hna hnb harray
      · exact hbd.eq_object_of_isArray hV had (Ne.symm hab) hnb hna harray
    rw [hj, hd]
    exact .refl _
  · have hd : d = ClassName.object := by
      rcases hnot with hnot | hnot
      · exact had.eq_object_of_unavailable hbd hab hna hnb hnot
      · exact hbd.eq_object_of_unavailable had (Ne.symm hab) hnb hna hnot
    rw [hj, hd]
    exact .refl _
  · have hroot : V.Ancestor (h.joined src a b) ClassName.object := hl.least _ (by simp [hra, hrb])
    refine Or.inr (Or.inr (Or.inr ⟨hV.isArray (hl.above a (by simp)) ha, hroot, hl.least d ?_⟩))
    simp only [List.forall_mem_cons, List.not_mem_nil, false_implies, implies_true, and_true]
    exact ⟨had.ancestor hna hra, hbd.ancestor hnb hrb⟩

end Hierarchy.Shows

namespace ClassView.Under

variable {V : ClassView} {a b : Text}

/-- What is no array has the root as the class of its elements. -/
lemma element_of_not_isArray (h : Descriptor.isArray a = false) :
    ClassName.element a = ClassName.object := by
  unfold ClassName.element Descriptor.element
  rw [h]
  rfl

/-- Elements are as far up as their arrays, null apart. -/
lemma element (hV : V.Plain) (hne : a ≠ ClassName.null) (h : V.Under a b) :
    V.Under (ClassName.element a) (ClassName.element b) := by
  by_cases hb : Descriptor.isArray b = true
  · obtain rfl := (h.eq_of_isArray hV hb).resolve_right hne
    exact .refl _
  · have hobject : ClassName.element b = ClassName.object := element_of_not_isArray (by simpa using hb)
    rw [hobject]
    exact .object _

end ClassView.Under

/-- **The order in which joining is least**, where chains of superclasses end and no class extends an array or
one that is named like the null constant. -/
def ClassOrder.under (src : ClassSource) {V : ClassView} (hends : V.Ends) (hV : V.Plain) :
    ClassOrder src V where
  le := V.Under
  loads a := a ≠ ClassName.null
  builds c := c ≠ ClassName.null
  refl := .refl
  trans h h' := h.trans hV h'
  null := .null
  object := .object
  cast := by
    intro a b c h
    by_cases hb : b = ClassName.null
    · obtain rfl := hb
      rw [h.eq_null hV]
      exact .refl _
    · rw [if_neg hb]
      split
      · exact .null c
      · exact .refl c
  element := fun ha h => h.element hV ha
  alike := fun h => absurd rfl h
  join := fun {h a b} hh => Hierarchy.Shows.under_joined hh hends a b
  least := fun hh ha hb had hbd => hh.joined_under hends hV ha hb had hbd

end Suspension
