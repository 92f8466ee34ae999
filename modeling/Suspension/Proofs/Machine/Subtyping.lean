import Suspension.Proofs.Hierarchy.Ancestors
import Suspension.Proofs.Machine.Lookup
import Suspension.Proofs.Machine.Visited
import Suspension.Proofs.Text.DescriptorGrammar

/-!
# Assignability

Whether a value belongs to a class is found on loaded classes for an object, and level by level of the
descriptor for an array.  What the frame analysis joins where paths meet is found on class files.  **Both
follow the same order of names.**

* `Machine.Fits`, `Machine.fits_elements` — arrays, and one level of them.
* `Machine.Visited.fits_trans` — arrays of arrays of arrays.
* `Machine.IsInstance` — values.
* `Machine.Visited.isInstance_commonSuper` — what two classes have in common is above the values of both.
* `Machine.Visited.assignability` — assignability is a preorder.

A class may be named like an array.  Then an array of its subclass fits arrays of this class, which are taken
for arrays of arrays, but not what these fit, `Machine.nested_not_transitive`.
-/

namespace Suspension

open Relation (ReflTransGen)

/-! ## Elements of arrays -/

namespace Descriptor

/-- The class of the elements of an array, below all its levels. -/
def elementClass? (desc : Text) : Option Text :=
  let elem := desc.dropWhile (· == 0x5b)
  if kind? elem = some .ref then some (classOf elem) else none

variable {elem name : Text}

lemma elementClass?_array : elementClass? (0x5b :: elem) = elementClass? elem := by
  simp [elementClass?]

lemma kind?_named : kind? (0x4c :: (name ++ [0x3b])) = some .ref := rfl

lemma classOf_array : classOf (0x5b :: elem) = 0x5b :: elem := rfl

lemma classOf_named (hne : name ≠ []) : classOf (0x4c :: (name ++ [0x3b])) = name := by
  have hlength : 1 < (name ++ [0x3b]).length := by
    have := List.length_pos_iff.mpr hne
    simp only [List.length_append, List.length_singleton]
    omega
  simp [classOf, hne]

lemma elementClass?_named (hne : name ≠ []) :
    elementClass? (0x4c :: (name ++ [0x3b])) = some name := by
  have hdrop : (0x4c :: (name ++ [0x3b])).dropWhile (· == 0x5b) = 0x4c :: (name ++ [0x3b]) := rfl
  rw [elementClass?, hdrop, if_pos kind?_named, classOf_named hne]

/-- A letter denotes no reference. -/
lemma kind?_letter {b : UInt8} (hb : b ∈ Text.ofString "ZBCSIJFD") : kind? [b] ≠ some .ref := by
  have hletters : ∀ b ∈ Text.ofString "ZBCSIJFD", kind? [b] ≠ some .ref := by decide +kernel
  exact hletters b hb

/-- Arrays are written with a bracket in front. -/
lemma isArray_iff {t : Text} : isArray t = true ↔ ∃ elem, t = 0x5b :: elem := by
  cases t with
  | nil => simp [isArray]
  | cons b rest => simp [isArray]

lemma isArray_object : isArray ClassName.object = false := by decide

/-- A field descriptor that denotes references is an array or has the name of a class. -/
lemma Field.ref_cases {d : Text} (h : Field d) (hd : kind? d = some .ref) :
    (∃ elem, d = 0x5b :: elem ∧ Field elem)
      ∨ ∃ name, name ≠ [] ∧ d = 0x4c :: (name ++ [0x3b]) := by
  cases h with
  | letter hb => exact absurd hd (kind?_letter hb)
  | named hne _ => exact Or.inr ⟨_, hne, rfl⟩
  | array helem => exact Or.inl ⟨_, rfl, helem⟩

end Descriptor

namespace Machine

variable {path : ClassPath} {m m' : Machine} {cid : ClassId} {c : LoadedClass} {name : Text}

/-! ## Arrays -/

/-- **An array of one type is one of another type.** -/
def Fits (m : Machine) (desc want : Text) : Prop :=
  ((Exec.arrayFits (desc.length + 1) desc want).run m).1 = .ok true

/-- The elements of an array, where they are references, are elements of another one. -/
def ElementsFit (m : Machine) (elem wanted : Text) : Prop :=
  if Descriptor.isArray elem then m.Fits elem (Descriptor.classOf wanted)
  else ∃ id m', (Exec.loadClass (Descriptor.classOf elem)).run m = (.ok id, m')
    ∧ m'.isSubclass id (Descriptor.classOf wanted) = true

/-- What becomes of a class that is looked for to be asked. -/
lemma run_subclassOf (x : Exec ClassId) (m : Machine) (above : Text) :
    ((do
      match ← Exec.attempt x with
      | .error _ => return false
      | .ok c => return (← get).isSubclass c above : Exec Bool).run m).1 = .ok true
    ↔ ∃ id m', x.run m = (.ok id, m') ∧ m'.isSubclass id above = true := by
  rw [Exec.run_bind, Exec.run_attempt]
  generalize x.run m = r
  obtain ⟨r, m'⟩ := r
  cases r with
  | ok id =>
      constructor
      · intro h
        exact ⟨id, m', rfl, Except.ok.inj h⟩
      · rintro ⟨id', m'', heq, h⟩
        cases heq
        exact congrArg Except.ok h
  | error stop =>
      refine iff_of_false (fun h => ?_) (fun ⟨_, _, heq, _⟩ => by cases heq)
      cases stop <;> cases h

/-- **One level of an array.** -/
lemma fits_array {elem want : Text} : m.Fits (0x5b :: elem) want ↔
    want = 0x5b :: elem ∨ want = ClassName.object ∨ ∃ wanted, want = 0x5b :: wanted
      ∧ (if Descriptor.kind? elem = some .ref ∧ Descriptor.kind? wanted = some .ref
          then m.ElementsFit elem wanted else elem = wanted) := by
  unfold Fits
  rw [List.length_cons, Exec.arrayFits]
  by_cases hsame : (0x5b :: elem == want || want == ClassName.object) = true
  · rw [if_pos hsame]
    refine iff_of_true rfl ?_
    rw [Bool.or_eq_true, beq_iff_eq, beq_iff_eq] at hsame
    exact hsame.imp Eq.symm Or.inl
  rw [if_neg hsame]
  rw [Bool.or_eq_true, beq_iff_eq, beq_iff_eq, not_or] at hsame
  have hrest : ∀ {P : Prop}, (want = 0x5b :: elem ∨ want = ClassName.object ∨ P) ↔ P := by
    intro P
    rw [or_iff_right (Ne.symm hsame.1), or_iff_right hsame.2]
  rw [hrest]
  cases harray : Descriptor.isArray want with
  | false =>
      refine iff_of_false (fun h => by cases h) ?_
      rintro ⟨wanted, rfl, -⟩
      cases harray
  | true =>
      obtain ⟨wanted, rfl⟩ := Descriptor.isArray_iff.mp harray
      have helement : ∀ t : Text, Descriptor.element (0x5b :: t) = t := fun _ => rfl
      simp only [Bool.not_true, Bool.false_eq_true, if_false, helement, List.cons.injEq, true_and,
        exists_eq_left']
      by_cases hkinds : Descriptor.kind? elem = some .ref ∧ Descriptor.kind? wanted = some .ref
      · rw [if_pos hkinds, hkinds.1, hkinds.2, ElementsFit]
        dsimp only
        split
        · rfl
        · generalize Exec.loadClass (Descriptor.classOf elem) = x
          exact run_subclassOf x m _
      · rw [if_neg hkinds]
        split
        · next h h' => exact absurd ⟨h, h'⟩ hkinds
        · rw [← beq_iff_eq (a := elem)]
          exact ⟨fun h => Except.ok.inj h, congrArg Except.ok⟩

/-- **The class of the elements of an array loads**, and no class that is named like an array is above
it. -/
def LoadsPlain (m : Machine) (desc : Text) : Prop :=
  ∀ cls, Descriptor.elementClass? desc = some cls →
    ∃ id m', (Exec.loadClass cls).run m = (.ok id, m')
      ∧ ∀ name, Descriptor.isArray name = true → m'.isSubclass id name = false

section

variable {elem wanted want cls : Text}

lemma LoadsPlain.element (h : m.LoadsPlain (0x5b :: elem)) : m.LoadsPlain elem := by
  unfold LoadsPlain at h
  rwa [Descriptor.elementClass?_array] at h

/-- Above the class there are only names that are not those of arrays. -/
lemma LoadsPlain.not_array (hm : m.Visited path) (hcls : cls ≠ [])
    (h : m.LoadsPlain (0x4c :: (cls ++ [0x3b]))) (hb : path.Belongs cls name) :
    Descriptor.isArray name = false := by
  obtain ⟨id, m', hrun, hplain⟩ := h cls (Descriptor.elementClass?_named hcls)
  by_contra harray
  have hnot := hplain name (by simpa using harray)
  rw [(hm.isSubclass_loaded hrun).mpr hb] at hnot
  cases hnot

lemma elementsFit_array : m.ElementsFit (0x5b :: elem) wanted
    ↔ m.Fits (0x5b :: elem) (Descriptor.classOf wanted) := by
  rw [ElementsFit, if_pos (Descriptor.isArray_iff.mpr ⟨elem, rfl⟩)]

lemma Visited.elementsFit_named (hm : m.Visited path) (hcls : cls ≠ []) :
    m.ElementsFit (0x4c :: (cls ++ [0x3b])) wanted
      ↔ (∃ id m', (Exec.loadClass cls).run m = (.ok id, m'))
        ∧ path.Belongs cls (Descriptor.classOf wanted) := by
  rw [ElementsFit, if_neg (by simp [Descriptor.isArray]), Descriptor.classOf_named hcls]
  constructor
  · rintro ⟨id, m', hrun, hsub⟩
    exact ⟨⟨id, m', hrun⟩, (hm.isSubclass_loaded hrun).mp hsub⟩
  · rintro ⟨⟨id, m', hrun⟩, hb⟩
    exact ⟨id, m', hrun, (hm.isSubclass_loaded hrun).mpr hb⟩

/-- Every array is an object. -/
lemma fits_object : m.Fits (0x5b :: elem) ClassName.object :=
  fits_array.mpr (Or.inr (Or.inl rfl))

/-- The elements of arrays that fit fit, or the arrays are of one type. -/
lemma fits_elements : m.Fits (0x5b :: elem) (0x5b :: wanted) ↔ elem = wanted
    ∨ (Descriptor.kind? elem = some .ref ∧ Descriptor.kind? wanted = some .ref
        ∧ m.ElementsFit elem wanted) := by
  have hobject : 0x5b :: wanted ≠ ClassName.object := by
    intro h
    exact absurd (h ▸ Descriptor.isArray_object) (by simp [Descriptor.isArray])
  rw [fits_array, or_iff_right (a := _ = ClassName.object) hobject]
  simp only [List.cons.injEq, true_and, exists_eq_left', eq_comm (a := wanted) (b := elem)]
  by_cases hkinds : Descriptor.kind? elem = some .ref ∧ Descriptor.kind? wanted = some .ref
  · rw [if_pos hkinds]
    exact or_congr_right ⟨fun h => ⟨hkinds.1, hkinds.2, h⟩, fun h => h.2.2⟩
  · rw [if_neg hkinds, or_self]
    exact ⟨Or.inl, fun h => h.resolve_right fun hfit => hkinds ⟨hfit.1, hfit.2.1⟩⟩

/-- What an array is and no array is named like, is the root. -/
lemma fits_plain (hwant : Descriptor.isArray want = false) (h : m.Fits (0x5b :: elem) want) :
    want = ClassName.object := by
  rcases fits_array.mp h with rfl | h | ⟨wanted, rfl, -⟩
  · cases hwant
  · exact h
  · cases hwant

/-- **Assignability of arrays is transitive** where no class is named like an array. -/
lemma Visited.fits_trans (hm : m.Visited path) {e₁ e₂ e₃ : Text} (h₁ : Descriptor.Field e₁)
    (h₂ : Descriptor.Field e₂) (h₃ : Descriptor.Field e₃) (hp₁ : m.LoadsPlain e₁)
    (hp₂ : m.LoadsPlain e₂) (hp₃ : m.LoadsPlain e₃) (h : m.Fits (0x5b :: e₁) (0x5b :: e₂))
    (h' : m.Fits (0x5b :: e₂) (0x5b :: e₃)) : m.Fits (0x5b :: e₁) (0x5b :: e₃) := by
  induction h₁ generalizing e₂ e₃ with
  | @letter b hb =>
      rcases fits_elements.mp h with rfl | ⟨hk, -, -⟩
      · exact h'
      · exact absurd hk (Descriptor.kind?_letter hb)
  | @named n₁ hn₁ _ =>
      rcases fits_elements.mp h with rfl | ⟨hk₁, hk₂, helem⟩
      · exact h'
      rcases fits_elements.mp h' with rfl | ⟨-, hk₃, helem'⟩
      · exact h
      rw [hm.elementsFit_named hn₁] at helem
      refine fits_elements.mpr (Or.inr ⟨hk₁, hk₃, (hm.elementsFit_named hn₁).mpr ⟨helem.1, ?_⟩⟩)
      rcases h₂.ref_cases hk₂ with ⟨x₂, rfl, -⟩ | ⟨n₂, hn₂, rfl⟩
      · exact absurd (hp₁.not_array hm hn₁ helem.2)
          (by simp [Descriptor.classOf_array, Descriptor.isArray])
      · rw [Descriptor.classOf_named hn₂] at helem
        exact helem.2.trans ((hm.elementsFit_named hn₂).mp helem').2
  | @array x₁ hx₁ ih =>
      rcases fits_elements.mp h with rfl | ⟨hk₁, hk₂, helem⟩
      · exact h'
      rcases fits_elements.mp h' with rfl | ⟨-, hk₃, helem'⟩
      · exact h
      rw [elementsFit_array] at helem
      refine fits_elements.mpr (Or.inr ⟨hk₁, hk₃, elementsFit_array.mpr ?_⟩)
      -- no class but the root is above an array
      have htop : ∀ {n}, n ≠ [] → m.LoadsPlain (0x4c :: (n ++ [0x3b])) → ∀ {x},
          m.Fits (0x5b :: x) n → n = ClassName.object := fun hn hp _ hfits =>
        fits_plain (hp.not_array hm hn (.refl _)) hfits
      rcases h₂.ref_cases hk₂ with ⟨x₂, rfl, hx₂⟩ | ⟨n₂, hn₂, rfl⟩
      · rw [Descriptor.classOf_array] at helem
        rw [elementsFit_array] at helem'
        rcases h₃.ref_cases hk₃ with ⟨x₃, rfl, hx₃⟩ | ⟨n₃, hn₃, rfl⟩
        · exact ih hx₂ hx₃ hp₁.element hp₂.element hp₃.element helem helem'
        · rw [Descriptor.classOf_named hn₃] at helem' ⊢
          rw [htop hn₃ hp₃ helem']
          exact fits_object
      · rw [Descriptor.classOf_named hn₂] at helem
        rw [hm.elementsFit_named hn₂, htop hn₂ hp₂ helem] at helem'
        rw [helem'.2.object]
        exact fits_object

/-- An array of arrays is one of another type if its arrays are. -/
lemma fits_arrays (hk : Descriptor.kind? wanted = some .ref) :
    m.Fits (0x5b :: 0x5b :: elem) (0x5b :: wanted)
      ↔ m.Fits (0x5b :: elem) (Descriptor.classOf wanted) := by
  rw [fits_elements, elementsFit_array]
  constructor
  · rintro (rfl | ⟨-, -, h⟩)
    · exact fits_array.mpr (Or.inl rfl)
    · exact h
  · exact fun h => Or.inr ⟨rfl, hk, h⟩

/-- An array of objects is one of another type if their class is a subclass. -/
lemma Visited.fits_classes (hm : m.Visited path) {cls' : Text} (hcls : cls ≠ []) (hcls' : cls' ≠ [])
    (hrun : (Exec.loadClass cls).run m = (.ok cid, m')) :
    m.Fits (0x5b :: 0x4c :: (cls ++ [0x3b])) (0x5b :: 0x4c :: (cls' ++ [0x3b]))
      ↔ m'.isSubclass cid cls' = true := by
  rw [fits_elements, hm.elementsFit_named hcls, Descriptor.classOf_named hcls',
    hm.isSubclass_loaded hrun]
  constructor
  · rintro (heq | ⟨-, -, -, hb⟩)
    · obtain rfl : cls = cls' := by simpa using heq
      exact .refl cls
    · exact hb
  · exact fun hb => Or.inr ⟨rfl, rfl, ⟨cid, m', hrun⟩, hb⟩

/-- An array of numbers is one of their type only. -/
lemma fits_letter {b : UInt8} (hb : b ∈ Text.ofString "ZBCSIJFD") :
    (m.Fits (0x5b :: [b]) (0x5b :: elem) ↔ elem = [b])
      ∧ (m.Fits (0x5b :: elem) (0x5b :: [b]) ↔ elem = [b]) := by
  have hk := Descriptor.kind?_letter hb
  exact ⟨by rw [fits_elements, or_iff_left (fun h => hk h.1), eq_comm],
    by rw [fits_elements, or_iff_left (fun h => hk h.2.1)]⟩

end

/-! ## Values -/

/-- **A value belongs to a class.** -/
def IsInstance (m : Machine) (v : Value) (cls : Text) : Prop :=
  ((Exec.isInstance v cls).run m).1 = .ok true

section

variable {v : Value} {cls : Text}

lemma isInstance_object (m : Machine) (v : Value) : m.IsInstance v ClassName.object := by
  unfold IsInstance Exec.isInstance
  rw [if_pos (by rfl)]
  rfl

/-- An array belongs to the classes that its type fits. -/
lemma isInstance_array {a : ArrayId} : m.IsInstance (.array a) cls ↔ cls = ClassName.object
    ∨ ∃ x, m.arrays[a]? = some x ∧ m.Fits x.desc cls := by
  unfold IsInstance Exec.isInstance
  by_cases hobject : cls = ClassName.object
  · subst hobject
    rw [if_pos (by rfl)]
    exact iff_of_true rfl (Or.inl rfl)
  rw [if_neg (by simpa using hobject), or_iff_right hobject]
  dsimp only
  rw [Exec.run_get_bind, Exec.run_bind]
  cases m.arrays[a]? with
  | none => exact iff_of_false (fun h => by cases h) (by simp)
  | some x =>
      simp only [Option.some.injEq, exists_eq_left']
      rfl

/-- Another value belongs to the classes that its class is a subclass of. -/
lemma isInstance_other (hv : ∀ a, v ≠ .array a) : m.IsInstance v cls ↔ cls = ClassName.object
    ∨ ∃ id m', (Exec.classOf v).run m = (.ok id, m') ∧ m'.isSubclass id cls = true := by
  unfold IsInstance Exec.isInstance
  by_cases hobject : cls = ClassName.object
  · subst hobject
    rw [if_pos (by rfl)]
    exact iff_of_true rfl (Or.inl rfl)
  rw [if_neg (by simpa using hobject), or_iff_right hobject]
  split
  · next a => exact absurd rfl (hv a)
  · generalize Exec.classOf v = x
    exact run_subclassOf x m cls

/-- **What a value belongs to is closed upwards**, for a value that is no array. -/
lemma Visited.isInstance_belongs (hm : m.Visited path) (hv : ∀ a, v ≠ .array a) {above : Text}
    (h : m.IsInstance v cls) (hb : path.Belongs cls above) : m.IsInstance v above := by
  rcases (isInstance_other hv).mp h with rfl | ⟨id, m', hrun, hsub⟩
  · rw [hb.object]
    exact isInstance_object m v
  refine (isInstance_other hv).mpr (Or.inr ⟨id, m', hrun, ?_⟩)
  have hm' : m'.Visited path := by
    have hkeeps : Exec.Keeps (fun m m' => m.Visited path → m'.Visited path) (Exec.classOf v) :=
      Exec.keeps_classOf v
    simpa only [hrun] using hkeeps m hm
  cases hd : m'.classes[id]? with
  | some d =>
      rw [hm'.isSubclass_iff hd] at hsub ⊢
      exact hsub.trans hb
  | none =>
      -- what is of no class belongs to the root alone
      have hroot : cls = ClassName.object := by simpa [isSubclass, reaches, hd] using hsub
      subst hroot
      rw [hb.object]
      simp [isSubclass]

end

/-! ## Joins -/

open Hierarchy ClassSource in
/-- **A value that belongs to one of two classes belongs to what they have in common.** -/
lemma Visited.isInstance_commonSuper (hm : m.Visited path) {src : ClassSource} {h : Hierarchy}
    (hsrc : src.resolve? = some path.resolve) (hh : Shows src src.entryOf h) {a b c : Text} {v : Value}
    (hc : ((commonSuper src a b).run h).1 = some c) (hv : m.IsInstance v a ∨ m.IsInstance v b) :
    m.IsInstance v c := by
  rcases hh.commonSuper hc with ⟨hac, hbc⟩ | rfl
  case inr => exact isInstance_object m v
  have hbelongs : ∀ {x}, ReflTransGen (ClassView.Extends src.entryOf) x c → path.Belongs x c :=
    fun hx => Or.inr (hx.lift id fun _ _ => ClassPath.derives_of_extends hsrc)
  by_cases harray : ∃ i, v = .array i
  · obtain ⟨i, rfl⟩ := harray
    by_cases hab : a = b
    · subst hab
      obtain rfl : a = c := Option.some.inj ((run_commonSuper_self a h).symm.trans hc)
      exact hv.elim id id
    -- an array belongs to the root and to arrays, and these have only the root in common
    have hroot : ∀ x, (x = a ∨ x = b) → m.IsInstance (.array i) x → c = ClassName.object := by
      rintro x hx hinst
      rcases isInstance_array.mp hinst with rfl | ⟨y, hy, hfits⟩
      · exact (hbelongs (by rcases hx with rfl | rfl <;> assumption)).object
      obtain ⟨elem, helem⟩ := Descriptor.isArray_iff.mp
        (hm.sound.typed y (Array.mem_of_getElem? hy))
      rw [helem] at hfits
      by_cases hxarray : Descriptor.isArray x = true
      · have harrays : Descriptor.isArray a = true ∨ Descriptor.isArray b = true := by
          rcases hx with rfl | rfl
          · exact Or.inl hxarray
          · exact Or.inr hxarray
        have hcommon : ((commonSuper src a b).run h).1 = some ClassName.object :=
          run_commonSuper_array hab harrays h
        exact Option.some.inj (hc.symm.trans hcommon)
      · obtain rfl := fits_plain (by simpa using hxarray) hfits
        exact (hbelongs (by rcases hx with rfl | rfl <;> assumption)).object
    rw [hv.elim (hroot a (Or.inl rfl)) (hroot b (Or.inr rfl))]
    exact isInstance_object m _
  · have hno : ∀ i, v ≠ .array i := fun i hi => harray ⟨i, hi⟩
    exact hv.elim (fun h => hm.isInstance_belongs hno h (hbelongs hac))
      fun h => hm.isInstance_belongs hno h (hbelongs hbc)

/-- A cast to a class that the value belongs to goes through. -/
lemma IsInstance.cast {v : Value} {cls : Text} (h : m.IsInstance v cls) (call : Caller) :
    ((Exec.answer call (.cast v cls)).run m).1 = .ok none := by
  unfold IsInstance at h
  unfold Exec.answer
  dsimp only
  rw [Exec.run_bind]
  generalize (Exec.isInstance v cls).run m = r at h ⊢
  obtain ⟨r, m'⟩ := r
  cases h
  rfl

/-! ## The preorder -/

open Hierarchy in
/-- **Assignability in a state of a machine.**  Loaded classes are subclasses of themselves and of what is
above what they are subclasses of; arrays fit themselves, the root, and, class by class and level by level,
what their elements fit, while numbers fit only their own type.  What two classes have in common, whatever
was asked or recorded before, is above the values of both. -/
structure Assignability (path : ClassPath) (m : Machine) : Prop where
  class_self : ∀ id c, m.classes[id]? = some c → m.isSubclass id c.file.name = true
  class_trans : ∀ id c id' d name, m.classes[id]? = some c → m.classes[id']? = some d →
    m.isSubclass id d.file.name = true → m.isSubclass id' name = true → m.isSubclass id name = true
  array_self : ∀ e, m.Fits (0x5b :: e) (0x5b :: e)
  array_object : ∀ e, m.Fits (0x5b :: e) ClassName.object
  array_trans : ∀ e₁ e₂ e₃, Descriptor.Field e₁ → Descriptor.Field e₂ → Descriptor.Field e₃ →
    m.LoadsPlain e₁ → m.LoadsPlain e₂ → m.LoadsPlain e₃ →
    m.Fits (0x5b :: e₁) (0x5b :: e₂) → m.Fits (0x5b :: e₂) (0x5b :: e₃) →
      m.Fits (0x5b :: e₁) (0x5b :: e₃)
  array_class : ∀ cls cls' id m', cls ≠ [] → cls' ≠ [] →
    (Exec.loadClass cls).run m = (.ok id, m') →
      (m.Fits (0x5b :: 0x4c :: (cls ++ [0x3b])) (0x5b :: 0x4c :: (cls' ++ [0x3b]))
        ↔ m'.isSubclass id cls' = true)
  array_array : ∀ e e', Descriptor.kind? e' = some .ref →
    (m.Fits (0x5b :: 0x5b :: e) (0x5b :: e') ↔ m.Fits (0x5b :: e) (Descriptor.classOf e'))
  array_letter : ∀ b ∈ Text.ofString "ZBCSIJFD", ∀ e,
    (m.Fits (0x5b :: [b]) (0x5b :: e) ↔ e = [b]) ∧ (m.Fits (0x5b :: e) (0x5b :: [b]) ↔ e = [b])
  join : ∀ (src : ClassSource) (asks : List Ask) (a b c : Text) (v : Value),
    src.resolve? = some path.resolve → (∀ x ∈ asks, x.Recorded src) →
    ((commonSuper src a b).run ((asks.mapM (Ask.run src)).run {}).2).1 = some c →
    m.IsInstance v a ∨ m.IsInstance v b →
      m.IsInstance v c ∧ ∀ call, ((Exec.answer call (.cast v c)).run m).1 = .ok none

open Hierarchy in
/-- **Assignability is a preorder**, in every state of a machine, and joins are compatible with it. -/
theorem Visited.assignability (hm : m.Visited path) : Assignability path m where
  class_self id c hc := (hm.isSubclass_iff hc).mpr (.refl _)
  class_trans id c id' d name hc hd h h' := by
    rw [hm.isSubclass_iff hc] at h ⊢
    exact h.trans ((hm.isSubclass_iff hd).mp h')
  array_self e := fits_array.mpr (Or.inl rfl)
  array_object e := fits_object
  array_trans _ _ _ h₁ h₂ h₃ hp₁ hp₂ hp₃ := hm.fits_trans h₁ h₂ h₃ hp₁ hp₂ hp₃
  array_class _ _ _ _ hcls hcls' hrun := hm.fits_classes hcls hcls' hrun
  array_array _ _ hk := fits_arrays hk
  array_letter _ hb _ := fits_letter hb
  join src asks a b c v hsrc hasks hc hv := by
    have hh : Consistent src ((asks.mapM (Ask.run src)).run {}).2 :=
      consistent_empty.learnsAll (Ask.learns_all fun x hx => Ask.allowed_faithful (hasks x hx))
    have hinst := hm.isInstance_commonSuper hsrc hh.shows hc hv
    exact ⟨hinst, hinst.cast⟩

/-! ### A class that is named like an array -/

/-- A machine with one more class. -/
def withClass (m : Machine) (c : Class) (super : Option ClassId) : Machine :=
  { m with classes := m.classes.push (Exec.link m c super []) }

lemma size_withClass (m : Machine) (c : Class) (super : Option ClassId) :
    (m.withClass c super).classes.size = m.classes.size + 1 :=
  Array.size_push _

lemma classNamed?_withClass (m : Machine) (c : Class) (super : Option ClassId) (name : Text) :
    (m.withClass c super).classNamed? name
      = (m.classNamed? name).or (if c.name == name then some m.classes.size else none) :=
  Array.findIdx?_push

/-- The state after a class was loaded at once. -/
lemma Visited.withClass {file : Class} {data : Bytes} {super : Option ClassId} (hm : m.Visited path)
    (hplain : m.instrumenter? = none) (hnew : m.classNamed? file.name = none)
    (hdata : path.resolve file.name = .ok data) (hdecode : Class.decode data = .ok file)
    (hinterfaces : file.interfaces = [])
    (hsuper : (file.super = [] ∧ super = none)
      ∨ (file.super ≠ [] ∧ ∃ s, super = some s ∧ m.classNamed? file.super = some s)) :
    (m.withClass file super).Visited path := by
  rw [← hm.sound.path] at hdata
  exact hm.load (Exec.run_loadWithin_new 0 hplain hnew hdata hdecode hinterfaces hsuper)

/-- A class that declares nothing. -/
def bare (name super : Text) : Class := { name, super }

/-- Classes of which one is named like an array of another one. -/
def nested : List Class :=
  [bare "[Lt/B;" ClassName.object, bare "t/A" "[Lt/B;", bare "t/D" ClassName.object, bare "t/B" "t/D"]

/-- A class path with these classes. -/
def nestedPath : ClassPath where
  memory := nested.filterMap fun c => c.encode.toOption.map fun data => (c.name, data)

/-- A machine that has loaded the root and these classes. -/
def nestedClasses (root : Class) : Machine :=
  ((((({ path := nestedPath } : Machine).withClass root none).withClass
    (bare "[Lt/B;" ClassName.object) (some 0)).withClass (bare "t/A" "[Lt/B;") (some 1)).withClass
    (bare "t/D" ClassName.object) (some 0)).withClass (bare "t/B" "t/D") (some 3)

/-- The machine when it has made an object of the last class. -/
def nestedMachine (root : Class) : Machine := { nestedClasses root with objects := #[{ cls := 4 }] }

lemma classNamed?_fresh (name : Text) : ({ path := nestedPath } : Machine).classNamed? name = none := by
  simp [classNamed?]

lemma nested_holdable : ∀ c ∈ nested, c.Holdable := by decide +kernel

lemma nested_free : ∀ c ∈ nested, c.name ∉ Builtins.headers.map (·.1) := by
  rw [Builtins.headerSpellings.eq_encode]
  decide +kernel

/-- The class path has these classes. -/
lemma nested_found : ∀ c ∈ nested, ∃ data, nestedPath.resolve c.name = .ok data
    ∧ Class.decode data = .ok c := by
  -- the encoding of a class is found under its name, since the names differ
  have hmemory : ∀ {cs : List Class}, (cs.map (·.name)).Nodup → ∀ c ∈ cs, ∀ data, c.encode = .ok data →
      (cs.filterMap fun c => c.encode.toOption.map fun data => (c.name, data)).lookup c.name
        = some data := by
    intro cs hnodup c hc data hdata
    induction cs with
    | nil => cases hc
    | cons d cs ih =>
        rw [List.map_cons, List.nodup_cons] at hnodup
        rw [List.filterMap_cons]
        rcases List.mem_cons.mp hc with rfl | hc
        · simp [hdata, Except.toOption]
        · have hne : c.name ≠ d.name := fun h => hnodup.1 (h ▸ List.mem_map_of_mem hc)
          split
          · exact ih hnodup.2 hc
          · next entry hentry =>
              obtain ⟨data', -, rfl⟩ := Option.map_eq_some_iff.mp hentry
              rw [List.lookup_cons, beq_eq_false_iff_ne.mpr hne]
              exact ih hnodup.2 hc
  intro c hc
  obtain ⟨data, hdata⟩ := (nested_holdable c hc).written
  refine ⟨data, ?_, (nested_holdable c hc).decode_eq hdata⟩
  exact ClassPath.resolveIn_of_memory (Builtins.lookup_encoded (nested_free c hc))
    (hmemory (by decide +kernel) c hc data hdata)

/-- **The machine is in one of its states.** -/
lemma exists_nested : ∃ root, root.name = ClassName.object ∧ (nestedMachine root).Visited nestedPath := by
  obtain ⟨data, root, hlookup, hdecode, hname, hsuper, hinterfaces⟩ := Builtins.lookup_encoded_object
  have hroot : nestedPath.resolve root.name = .ok data := by
    rw [hname, ClassPath.resolve, ClassPath.resolveIn, hlookup]
  have hfound := nested_found
  simp only [nested, List.forall_mem_cons, List.not_mem_nil, false_implies, implies_true,
    and_true] at hfound
  obtain ⟨⟨_, hr₁, hd₁⟩, ⟨_, hr₂, hd₂⟩, ⟨_, hr₃, hd₃⟩, ⟨_, hr₄, hd₄⟩⟩ := hfound
  refine ⟨root, hname, ?_⟩
  have h₀ : ({ path := nestedPath } : Machine).Visited nestedPath := .fresh rfl rfl rfl
  have hsuper' : ∀ {m : Machine} {c : Class} {s : ClassId}, c.super ≠ [] →
      m.classNamed? c.super = some s → (c.super = [] ∧ some s = none)
        ∨ (c.super ≠ [] ∧ ∃ i, some s = some i ∧ m.classNamed? c.super = some i) :=
    fun hne hs => Or.inr ⟨hne, _, rfl, hs⟩
  have h₁ := h₀.withClass rfl (classNamed?_fresh _) hroot hdecode hinterfaces (Or.inl ⟨hsuper, rfl⟩)
  refine ((((h₁.withClass rfl ?_ hr₁ hd₁ rfl (hsuper' (by decide) ?_)).withClass rfl ?_ hr₂ hd₂ rfl
    (hsuper' (by decide) ?_)).withClass rfl ?_ hr₃ hd₃ rfl (hsuper' (by decide) ?_)).withClass rfl ?_ hr₄
    hd₄ rfl (hsuper' (by decide) ?_)).change ⟨rfl, fun _ => rfl⟩ (fun _ => rfl) fun h => h
  all_goals
    simp only [classNamed?_withClass, size_withClass, hname, classNamed?_fresh]
    decide +kernel

/-- What is found on the machine. -/
lemma nested_subclasses {root : Class} (hname : root.name = ClassName.object) :
    (∀ cls ∈ [(Text.ofString "t/A", 2), (Text.ofString "t/B", 4), (Text.ofString "t/D", 3)],
        (nestedMachine root).classNamed? cls.1 = some cls.2)
      ∧ (nestedMachine root).isSubclass 2 "[Lt/B;" = true
      ∧ (nestedMachine root).isSubclass 4 "t/D" = true
      ∧ (nestedMachine root).isSubclass 2 "[Lt/D;" = false := by
  refine ⟨?_, ?_⟩
  · change ∀ cls ∈ [(Text.ofString "t/A", 2), (Text.ofString "t/B", 4), (Text.ofString "t/D", 3)],
      (nestedClasses root).classNamed? cls.1 = some cls.2
    simp only [nestedClasses, classNamed?_withClass, size_withClass, hname, classNamed?_fresh]
    decide +kernel
  · obtain ⟨name, super⟩ := root
    obtain rfl : name = ClassName.object := hname
    exact ⟨rfl, rfl, rfl⟩

open Hierarchy in
/-- The theorem at this machine: an object of `t/B` belongs to what `t/B` and `t/D` have in common. -/
theorem nested_assignability : ∃ m : Machine, m.Visited nestedPath ∧ Assignability nestedPath m
    ∧ m.IsInstance (.object 1) "t/B"
    ∧ ((commonSuper (nestedPath.source {} [] []) "t/B" "t/D").run {}).1 = some (Text.ofString "t/D")
    ∧ m.IsInstance (.object 1) "t/D" := by
  obtain ⟨root, hname, hm⟩ := exists_nested
  have hassigns := hm.assignability
  have hsub : (nestedMachine root).isSubclass 4 "t/B" = true := hassigns.class_self 4 _ rfl
  have hclass : (Exec.classOf (.object 1)).run (nestedMachine root) = (.ok 4, nestedMachine root) := rfl
  have hinst : (nestedMachine root).IsInstance (.object 1) "t/B" :=
    (isInstance_other (by simp)).mpr (Or.inr ⟨4, _, hclass, hsub⟩)
  have hcommon : ((commonSuper (nestedPath.source {} [] []) "t/B" "t/D").run {}).1
      = some (Text.ofString "t/D") := by
    have hextends : ∀ c ∈ nested, c.name ≠ ClassName.object → c.super ≠ [] →
        ClassView.Extends (ClassSource.entryOf (nestedPath.source {} [] [])) c.name c.super := by
      intro c hc hne hsuper
      obtain ⟨data, hdata, hdecode⟩ := nested_found c hc
      refine ⟨hne, ?_⟩
      rw [ClassSource.entryOf_of_find (ClassSource.find_of_data rfl hdata hdecode)]
      simp [ClassEntry.super?, ClassFacts.ofClass, nonEmpty, hsuper]
    have hD := ClassView.Chain.step (hextends (bare "t/D" ClassName.object) (by simp [nested]) (by decide)
      (by decide)) .root
    have hB := ClassView.Chain.step (hextends (bare "t/B" "t/D") (by simp [nested]) (by decide)
      (by decide)) hD
    obtain ⟨h₁, hwB, hh₁⟩ := climbOn_chain hB (shows_empty _) []
    obtain ⟨h₂, hwD, -⟩ := climbOn_chain hD hh₁ []
    exact (run_commonSuper (by decide) (by decide) (by decide) hwB hwD).trans (by decide +kernel)
  refine ⟨nestedMachine root, hm, hassigns, hinst, hcommon, ?_⟩
  exact (hassigns.join _ [] _ _ _ _ rfl (by simp) hcommon (Or.inl hinst)).1

/-- **Assignability of arrays is not transitive** where a class is named like an array: an array of its
subclass fits arrays of it, which are taken for arrays of arrays, and these fit what that one does not. -/
theorem nested_not_transitive : ∃ m : Machine, m.Visited nestedPath
    ∧ (∀ cls ∈ [Text.ofString "t/A", Text.ofString "t/B", Text.ofString "t/D"],
        ∃ id m', (Exec.loadClass cls).run m = (.ok id, m'))
    ∧ m.Fits "[Lt/A;" "[[Lt/B;" ∧ m.Fits "[[Lt/B;" "[[Lt/D;" ∧ ¬ m.Fits "[Lt/A;" "[[Lt/D;" := by
  obtain ⟨root, hname, hm⟩ := exists_nested
  obtain ⟨hnamed, hnested, hextends, hnot⟩ := nested_subclasses hname
  generalize nestedMachine root = m at hm hnamed hnested hextends hnot
  simp only [List.forall_mem_cons, List.not_mem_nil, false_implies, implies_true, and_true] at hnamed
  have hA := Exec.run_loadClass_named hnamed.1
  have hB := Exec.run_loadClass_named hnamed.2.1
  have hD := Exec.run_loadClass_named hnamed.2.2
  -- the types, by their elements
  have htypeA : Text.ofString "[Lt/A;" = 0x5b :: 0x4c :: (Text.ofString "t/A" ++ [0x3b]) := by decide
  have htypeB : Text.ofString "[Lt/B;" = 0x5b :: 0x4c :: (Text.ofString "t/B" ++ [0x3b]) := by decide
  have htypeD : Text.ofString "[Lt/D;" = 0x5b :: 0x4c :: (Text.ofString "t/D" ++ [0x3b]) := by decide
  have harrayB : Text.ofString "[[Lt/B;" = 0x5b :: Text.ofString "[Lt/B;" := by decide
  have harrayD : Text.ofString "[[Lt/D;" = 0x5b :: Text.ofString "[Lt/D;" := by decide
  have hfits : ∀ wanted, Descriptor.kind? wanted = some .ref →
      0x4c :: (Text.ofString "t/A" ++ [0x3b]) ≠ wanted →
        (m.Fits "[Lt/A;" (0x5b :: wanted) ↔ m.isSubclass 2 (Descriptor.classOf wanted) = true) := by
    intro wanted hk hne
    rw [htypeA, fits_elements, or_iff_right hne, hm.elementsFit_named (by decide),
      hm.isSubclass_loaded hA]
    exact ⟨fun h => h.2.2.2, fun h => ⟨rfl, hk, ⟨_, _, hA⟩, h⟩⟩
  refine ⟨m, hm, ?_, ?_, ?_, ?_⟩
  · simp only [List.forall_mem_cons, List.not_mem_nil, false_implies, implies_true, and_true]
    exact ⟨⟨_, _, hA⟩, ⟨_, _, hB⟩, ⟨_, _, hD⟩⟩
  · rw [harrayB, hfits _ (by decide) (by decide)]
    exact hnested
  · rw [harrayB, harrayD, htypeB, fits_arrays (by decide), htypeD, Descriptor.classOf_array,
      hm.fits_classes (by decide) (by decide) hB]
    exact hextends
  · rw [harrayD, hfits _ (by decide) (by decide)]
    exact fun h => absurd (h.symm.trans hnot) (by decide)

end Machine

end Suspension
