import Mathlib.Data.List.TakeDrop
import Suspension.Descriptor
import Suspension.Proofs.Text.Utf8

/-!
# The texts inside descriptors

Descriptors are cut at bytes of ASCII only, and put together from such bytes and class names.  So **what
is read from a well-formed descriptor is well formed**, and so is what is made of well-formed names.

* `Descriptor.splitField_eq_ok` — where a field descriptor ends.
* `Descriptor.valid_parseMethod`, `Descriptor.kind_param` — the parameters and the result of a method.
* `Descriptor.valid_classOf`, `Descriptor.valid_element`, `Descriptor.valid_ofClass` — class names.
-/

namespace Suspension

namespace Descriptor

open Utf8

variable {desc s field rest result : Text} {d : Method}

/-- A list is cut in front of the first element that does not pass. -/
lemma of_span_eq {p : UInt8 → Bool} {name : Text} {b : UInt8} (h : s.span p = (name, b :: rest)) :
    s = name ++ b :: rest ∧ p b = false := by
  rw [List.span_eq_takeWhile_dropWhile] at h
  obtain ⟨rfl, hdrop⟩ := Prod.mk.inj h
  refine ⟨?_, ?_⟩
  · rw [← hdrop, List.takeWhile_append_dropWhile]
  · have hhead := List.head?_dropWhile_not p s
    rw [hdrop] at hhead
    simpa using hhead

/-- The letters that are descriptors by themselves are bytes of ASCII, and denote values. -/
lemma kind_of_isBaseType {b : UInt8} (hb : isBaseType b = true) :
    b.toNat < 0x80 ∧ kind? [b] ≠ none := by
  simp only [isBaseType, Bool.or_eq_true, beq_iff_eq] at hb
  rcases hb with (((((((rfl | rfl) | rfl) | rfl) | rfl) | rfl) | rfl) | rfl) <;> decide

/-- **A field descriptor ends with a byte of ASCII**, and denotes values. -/
lemma splitField_eq_ok (h : splitField s = .ok (field, rest)) :
    (∃ pre b, b.toNat < 0x80 ∧ field = pre ++ [b] ∧ s = pre ++ b :: rest) ∧ kind? field ≠ none := by
  induction s generalizing field rest with
  | nil => cases h
  | cons b s ih =>
      unfold splitField at h
      split at h
      · next hbase =>
          cases h
          obtain ⟨hb, hkind⟩ := kind_of_isBaseType hbase
          exact ⟨⟨[], b, hb, rfl, rfl⟩, hkind⟩
      split at h
      · next hclass =>
          obtain rfl : b = 0x4c := by simpa using hclass
          split at h
          · cases h
          next name semicolon after hspan =>
          split at h
          · cases h
          cases h
          obtain ⟨rfl, hsemicolon⟩ := of_span_eq hspan
          obtain rfl : semicolon = 0x3b := by simpa using hsemicolon
          exact ⟨⟨0x4c :: name, 0x3b, by decide, rfl, rfl⟩, by simp [kind?]⟩
      split at h
      · next harray =>
          obtain rfl : b = 0x5b := by simpa using harray
          split at h
          · next elem after helem =>
              cases h
              obtain ⟨⟨pre, b, hb, rfl, rfl⟩, -⟩ := ih helem
              exact ⟨⟨0x5b :: pre, b, hb, rfl, rfl⟩, by simp [kind?]⟩
          · cases h
      · cases h

/-- The parts of a well-formed text are well formed. -/
lemma valid_splitField (h : splitField s = .ok (field, rest)) (hs : valid s = true) :
    valid field = true ∧ valid rest = true := by
  obtain ⟨⟨pre, b, hb, rfl, rfl⟩, -⟩ := splitField_eq_ok h
  obtain ⟨hpre, hrest⟩ := valid_cut hb hs
  refine ⟨?_, hrest⟩
  rw [valid_append hpre]
  exact valid_of_ascii (by simpa using hb)

/-- The parameters denote values; and they are well formed with what follows, if the text is. -/
lemma splitParams_eq_ok {fuel : Nat} {params : List Text}
    (h : splitParams fuel s = .ok (some (params, result))) :
    (∀ p ∈ params, kind? p ≠ none) ∧
      (valid s = true → (∀ p ∈ params, valid p = true) ∧ valid result = true) := by
  induction fuel generalizing s params with
  | zero => cases h
  | succ fuel ih =>
      unfold splitParams at h
      split at h
      · cases h
      next b s =>
      split at h
      · next hclose =>
          cases h
          obtain rfl : b = 0x29 := by simpa using hclose
          refine ⟨by simp, fun hs => ⟨by simp, ?_⟩⟩
          exact (valid_cut (s := []) (b := 0x29) (by decide) hs).2
      split at h
      · cases h
      next field after hfield =>
      split at h
      · cases h
      · cases h
      · next fields result' hrest =>
          cases h
          obtain ⟨hkinds, hvalid⟩ := ih hrest
          refine ⟨List.forall_mem_cons.mpr ⟨(splitField_eq_ok hfield).2, hkinds⟩, fun hs => ?_⟩
          obtain ⟨hf, hafter⟩ := valid_splitField hfield hs
          obtain ⟨hfields, hresult⟩ := hvalid hafter
          exact ⟨List.forall_mem_cons.mpr ⟨hf, hfields⟩, hresult⟩

/-- A method descriptor begins with its parameters. -/
lemma parseMethod_eq_ok (h : parseMethod desc = .ok d) :
    ∃ s, desc = 0x28 :: s ∧ splitParams desc.length s = .ok (some (d.params, d.result)) := by
  unfold parseMethod at h
  split at h
  case h_2 => cases h
  next b s =>
  split at h
  · cases h
  next hopen =>
  simp only [Bool.or_eq_true, bne_iff_ne, ne_eq, decide_eq_true_eq, not_or, not_not] at hopen
  obtain ⟨rfl, -⟩ := hopen
  split at h
  · cases h
  · cases h
  · next hparams =>
      split at h
      · cases h
        exact ⟨s, rfl, hparams⟩
      · cases h

/-- **Every parameter denotes values.** -/
lemma kind_param (h : parseMethod desc = .ok d) : ∀ p ∈ d.params, kind? p ≠ none := by
  obtain ⟨s, -, hs⟩ := parseMethod_eq_ok h
  exact (splitParams_eq_ok hs).1

/-- **Parameters and result of a well-formed descriptor** are well formed. -/
lemma valid_parseMethod (h : parseMethod desc = .ok d) (hdesc : valid desc = true) :
    (∀ p ∈ d.params, valid p = true) ∧ valid d.result = true := by
  obtain ⟨s, rfl, hs⟩ := parseMethod_eq_ok h
  exact (splitParams_eq_ok hs).2 (valid_cut (s := []) (b := 0x28) (by decide) hdesc).2

/-! ## Class names -/

/-- The class that a descriptor denotes has a name. -/
lemma classOf_ne_nil {k : Kind} (h : kind? desc = some k) : classOf desc ≠ [] := by
  unfold classOf
  split
  · next b rest =>
      split
      · next hclass =>
          simp only [Bool.and_eq_true, decide_eq_true_eq] at hclass
          intro hnil
          have := congrArg List.length hnil
          simp only [List.length_dropLast, List.length_nil] at this
          omega
      · simp
  · cases h

lemma valid_classOf (h : valid desc = true) : valid (classOf desc) = true := by
  unfold classOf
  split
  · next b rest =>
      split
      · next hclass =>
          simp only [Bool.and_eq_true, beq_iff_eq] at hclass
          obtain ⟨⟨rfl, hlast⟩, -⟩ := hclass
          obtain ⟨name, rfl⟩ := List.getLast?_eq_some_iff.mp hlast
          have hrest := (valid_cut (s := []) (b := 0x4c) (by decide) h).2
          rw [List.dropLast_concat]
          exact (valid_cut (b := 0x3b) (by decide) hrest).1
      · exact h
  · exact h

lemma valid_element (h : valid desc = true) : valid (element desc) = true := by
  unfold element
  split
  · next harray =>
      unfold isArray at harray
      split at harray
      · next b rest =>
          obtain rfl : b = 0x5b := by simpa using harray
          exact (valid_cut (s := []) (b := 0x5b) (by decide) h).2
      · cases harray
  · rfl

lemma valid_ofClass (h : valid desc = true) : valid (ofClass desc) = true := by
  unfold ofClass
  split
  · exact h
  · rw [List.append_assoc, valid_append (by decide), valid_append h]
    decide

end Descriptor

end Suspension
