import Suspension.Proofs.Frame.Settled

/-!
# The name of the null constant

To the analysis `null` is the class of the null constant.  A class that really has this name, or an
array of it, would be taken for the constant; where no such class is in sight, **every other class name
may stand for any reference**.

* `NamesNull` — a class name that is `null`, or an array of it.
* `Method.AvoidsNull`, `ClassSource.AvoidsNull`, `Hierarchy.AvoidsNull` — no class is named so.
* `Classes.notNull` — the classes in which every reference belongs to every class but `null`.
-/

namespace Suspension

/-- **A class name that means the null constant**: the name itself, or that of an array of it. -/
inductive NamesNull : Text → Prop where
  | null : NamesNull ClassName.null
  | array {c : Text} (hk : Descriptor.kind? (Descriptor.element c) = some .ref)
      (h : NamesNull (Descriptor.classOf (Descriptor.element c))) : NamesNull c

namespace NamesNull

/-- A name that is neither `null` nor an array. -/
lemma not_of_plain {c : Text} (hne : c ≠ ClassName.null) (hc : Descriptor.isArray c = false) :
    ¬ NamesNull c := by
  intro h
  cases h with
  | null => exact hne rfl
  | array hk _ => simp [Descriptor.element, hc, Descriptor.kind?] at hk

lemma not_object : ¬ NamesNull ClassName.object := not_of_plain (by decide) (by decide)

lemma not_string : ¬ NamesNull ClassName.string := not_of_plain (by decide) (by decide)

lemma not_throwable : ¬ NamesNull ClassName.throwable := not_of_plain (by decide) (by decide)

/-- An array means the constant when its element descriptor does. -/
lemma of_array {elem : Text} (h : NamesNull (Text.ofString "[" ++ elem)) :
    Descriptor.kind? elem = some .ref ∧ NamesNull (Descriptor.classOf elem) := by
  have hbracket : Text.ofString "[" = [0x5b] := by decide
  rw [hbracket, List.singleton_append] at h
  have helem : Descriptor.element (0x5b :: elem) = elem := rfl
  generalize hc : 0x5b :: elem = c at h helem
  cases h with
  | null =>
      have hnull : ClassName.null = [0x6e, 0x75, 0x6c, 0x6c] := by decide
      rw [hnull] at hc
      exact absurd (List.cons.inj hc).1 (by decide)
  | array hk h =>
      rw [helem] at hk h
      exact ⟨hk, h⟩

/-- An array of a class means the constant only when the class does. -/
lemma of_classArray {c : Text} (h : NamesNull (Text.ofString "[" ++ Descriptor.ofClass c)) :
    NamesNull c := by
  obtain ⟨-, h⟩ := of_array h
  have hL : Text.ofString "L" = [0x4c] := by decide
  have hsemi : Text.ofString ";" = [0x3b] := by decide
  unfold Descriptor.ofClass at h
  split at h
  · next harr =>
      cases c with
      | nil => simp [Descriptor.isArray] at harr
      | cons b rest =>
          have hb : b = 0x5b := by simpa [Descriptor.isArray] using harr
          subst hb
          exact h
  · next harr =>
      rw [hL, hsemi, List.singleton_append, List.cons_append] at h
      simp only [Descriptor.classOf, beq_self_eq_true, List.getLast?_concat, Bool.true_and,
        List.length_append, List.length_singleton, decide_eq_true_eq, List.dropLast_concat] at h
      split at h
      · exact h
      · next hlen =>
          have hnil : c = [] := List.length_eq_zero_iff.mp (by omega)
          subst hnil
          exact absurd h (not_of_plain (by decide) (by decide))

/-- What an array of a class holds is known by a name that does not mean the constant. -/
lemma not_element {c : Text} (h : ¬ NamesNull c) :
    ∃ d, Frame.elementType (.ref c) = .ref d ∧ ¬ NamesNull d := by
  by_cases hk : Descriptor.kind? (Descriptor.element c) = some .ref
  · refine ⟨Descriptor.classOf (Descriptor.element c), ?_, fun hn => h (.array hk hn)⟩
    simp [Frame.elementType, SlotType.typeName, SlotType.ofDesc, hk]
  · exact ⟨_, by simp [Frame.elementType, SlotType.typeName, hk], not_object⟩

end NamesNull

/-! ## Methods and classes without such names -/

/-- **A method mentions no class named `null`**: not as a class and not in a descriptor. -/
structure Method.AvoidsNull (owner : Text) (m : Method) : Prop where
  owner : ¬ NamesNull owner
  types : ∀ i ∈ m.code, ∀ t, i.operand = .type t →
    ¬ NamesNull t ∧ ¬ NamesNull (Text.ofString "[" ++ t)
  fields : ∀ i ∈ m.code, ∀ x, i.operand = .member x → ¬ NamesNull (Descriptor.classOf x.desc)
  results : ∀ i ∈ m.code, ∀ x, i.operand = .member x → ∀ d, Descriptor.parseMethod x.desc = .ok d →
    ¬ NamesNull (Descriptor.classOf d.result)
  params : ∀ d, Descriptor.parseMethod m.desc = .ok d → ∀ t ∈ d.params,
    ¬ NamesNull (Descriptor.classOf t)
  ranges : ∀ r ∈ m.ranges, ¬ NamesNull r.type

/-- **No class of a source extends a class named `null`.** -/
def ClassSource.AvoidsNull (src : ClassSource) : Prop :=
  ∀ f, src.resolve? = some f → ∀ cls data c, f cls = .ok data →
    Hierarchy.readClass cls data = .ok c → ¬ NamesNull c.super

/-- **No class that is known extends a class named `null`.** -/
structure Hierarchy.AvoidsNull (h : Hierarchy) : Prop where
  known : ∀ {cls : Text} {f : ClassFacts}, h.classes.lookup cls = some (.known f) → ¬ NamesNull f.super
  kept : ∀ {cls s : Text}, h.supers.lookup cls = some s → ¬ NamesNull s

/-- The classes in which every reference belongs to every class but `null`: what is said about slots
is then which kind of value they hold, and which hold null. -/
def Classes.notNull : Classes where
  inst _ c := ¬ NamesNull c
  inst_object _ := NamesNull.not_object
  not_inst_null _ h := h .null

lemma ClassSource.AvoidsNull.agrees {src : ClassSource} (h : src.AvoidsNull) :
    src.Agrees Classes.notNull :=
  fun f hf cls data c hdata hc _ _ _ => h f hf cls data c hdata hc

lemma Hierarchy.AvoidsNull.agrees {h : Hierarchy} (ha : h.AvoidsNull) : h.Agrees Classes.notNull :=
  ⟨fun hl _ _ _ => ha.known hl, fun hl _ _ _ => ha.kept hl⟩

end Suspension
