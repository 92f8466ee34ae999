import Mathlib.Data.Finset.Card
import Suspension.Builtins
import Suspension.Proofs.Assembly.Counting
import Suspension.Proofs.Codec.RoundTrip

/-!
# Names that the machine leaves free

The machine has a few classes of its own, which no class path can replace.  Their text is short, so there
are **not many of them, and names that they do not have are easily found**: some length is not that of any
of their names.

* `Builtins.length_encoded_le` — the number of classes.
* `Builtins.exists_free` — free names, outside the core package and in it.
-/

namespace Suspension

namespace Text

/-- A character has at most four bytes. -/
lemma length_flatMap_encodeChar_le (cs : List Char) :
    (cs.flatMap String.utf8EncodeChar).length ≤ 4 * cs.length := by
  rw [List.length_flatMap]
  induction cs with
  | nil => exact Nat.zero_le _
  | cons c cs ih =>
      have hc : (String.utf8EncodeChar c).length ≤ 4 := by
        rw [String.length_utf8EncodeChar]
        exact Char.utf8Size_le_four c
      rw [List.map_cons, List.sum_cons, List.length_cons]
      omega

lemma length_ofString_ofList_le (cs : List Char) :
    (ofString (String.ofList cs)).length ≤ 4 * cs.length := by
  unfold ofString
  rw [String.toList_ofList]
  exact length_flatMap_encodeChar_le cs

end Text

namespace Quoted

lemma Written.length_le {i : Utf8.Item} {cs : List Char} (h : Written i cs) : cs.length ≤ 10 := by
  cases h <;> simp

/-- A written text is not much longer. -/
lemma length_encode_le (t : Text) : (encode t).length ≤ 40 * t.length + 2 := by
  have hitem : ∀ n ∈ (Utf8.items t).map (fun i => (escapeItem i).length), n ≤ 40 := by
    intro n hn
    obtain ⟨i, -, rfl⟩ := List.mem_map.mp hn
    obtain ⟨cs, hcs, hwritten⟩ := exists_written_item i
    have hlength := Text.length_flatMap_encodeChar_le cs
    have hten := hwritten.length_le
    rw [hcs, Utf8.encode]
    omega
  have hbody : ((Utf8.items t).flatMap escapeItem).length ≤ (Utf8.items t).length * 40 := by
    have hsum := List.sum_le_card_nsmul _ _ hitem
    rw [List.length_map] at hsum
    rw [List.length_flatMap]
    exact hsum
  have hitems : (Utf8.items t).length ≤ t.length := Utf8.length_itemsFrom_le 0 t
  have hquote : (Text.ofString "\"").length = 1 := by decide
  simp only [encode, List.length_append]
  omega

end Quoted

namespace Builtins

section

set_option maxRecDepth 20000

lemma length_objectSource_le : objectSource.length ≤ 10000 :=
  Nat.le_trans (Text.length_ofString_ofList_le _) (by decide)

lemma length_stringSource_le : stringSource.length ≤ 10000 :=
  Nat.le_trans (Text.length_ofString_ofList_le _) (by decide)

lemma length_builderSource_le : builderSource.length ≤ 10000 :=
  Nat.le_trans (Text.length_ofString_ofList_le _) (by decide)

lemma length_systemSource_le : systemSource.length ≤ 10000 :=
  Nat.le_trans (Text.length_ofString_ofList_le _) (by decide)

lemma length_throwableSource_le : throwableSource.length ≤ 10000 :=
  Nat.le_trans (Text.length_ofString_ofList_le _) (by decide)

lemma length_threadSource_le : threadSource.length ≤ 10000 :=
  Nat.le_trans (Text.length_ofString_ofList_le _) (by decide)

lemma length_reflectionSource_le : reflectionSource.length ≤ 10000 :=
  Nat.le_trans (Text.length_ofString_ofList_le _) (by decide)

lemma length_stackSource_le : stackSource.length ≤ 10000 :=
  Nat.le_trans (Text.length_ofString_ofList_le _) (by decide)

lemma length_coroutineSource_le : coroutineSource.length ≤ 10000 :=
  Nat.le_trans (Text.length_ofString_ofList_le _) (by decide)

end

lemma length_coreSource_le : coreSource.length ≤ 90000 := by
  have hobject := length_objectSource_le
  have hstring := length_stringSource_le
  have hbuilder := length_builderSource_le
  have hsystem := length_systemSource_le
  have hthrowable := length_throwableSource_le
  have hthread := length_threadSource_le
  have hreflection := length_reflectionSource_le
  have hstack := length_stackSource_le
  have hcoroutine := length_coroutineSource_le
  simp only [coreSource, List.length_append]
  omega

lemma length_constructorSource_le {super desc : Text} {params : Nat} (hsuper : super.length ≤ 200)
    (hdesc : desc.length ≤ 200) (hparams : params ≤ 2) :
    (constructorSource super params desc).length ≤ 30000 := by
  have hwords : (Text.ofString "  (method \"<init>\" ").length ≤ 100
      ∧ (Text.ofString " (flags public) (code aload 0").length ≤ 100
      ∧ (Text.ofString " invokespecial ").length ≤ 100 ∧ (Text.ofString " \"<init>\" ").length ≤ 100
      ∧ (Text.ofString " return))\n").length ≤ 100 := by
    decide
  have hloads : ((List.range params).flatMap
      fun i => Text.ofString " aload " ++ Text.ofNat (i + 1)).length ≤ 100 := by
    interval_cases params <;> decide
  have hsuper' := Quoted.length_encode_le super
  have hdesc' := Quoted.length_encode_le desc
  simp only [constructorSource, List.length_append]
  omega

lemma length_exceptionSource_le {name super : Text} (hname : name.length ≤ 200)
    (hsuper : super.length ≤ 200) : (exceptionSource name super).length ≤ 120000 := by
  have hwords : (Text.ofString "(class ").length ≤ 100 ∧ (Text.ofString " (super ").length ≤ 100
      ∧ (Text.ofString ") (flags public)\n").length ≤ 100 ∧ (Text.ofString ")\n").length ≤ 100 := by
    decide
  have hname' := Quoted.length_encode_le name
  have hsuper' := Quoted.length_encode_le super
  have hplain : (constructorSource super 0 "()V").length ≤ 30000 :=
    length_constructorSource_le hsuper (by decide) (by decide)
  have hmessage : (constructorSource super 1 "(Lcore/String;)V").length ≤ 30000 :=
    length_constructorSource_le hsuper (by decide) (by decide)
  have hcause : (constructorSource super 2 "(Lcore/String;Lcore/Throwable;)V").length ≤ 30000 :=
    length_constructorSource_le hsuper (by decide) (by decide)
  simp only [exceptionSource, List.length_append]
  omega

/-- **The machine has few classes of its own.** -/
lemma length_encoded_le : encoded.length ≤ 2 ^ 21 := by
  have hclasses : classes.length ≤ source.length + 1 := by
    unfold classes
    cases h : Assembly.classes source with
    | error e => exact Nat.zero_le _
    | ok cs => exact Assembly.length_classes_le h
  have hencoded : encoded.length ≤ classes.length := List.length_filterMap_le _ _
  have hshort : ∀ e ∈ exceptions, e.1.length ≤ 200 ∧ e.2.length ≤ 200 := by
    simp only [exceptions, List.forall_mem_cons, List.not_mem_nil, false_implies, implies_true, and_true]
    and_intros
    all_goals exact Nat.le_trans (Text.length_ofString_ofList_le _) (by decide)
  have hexceptions : (exceptions.flatMap fun e => exceptionSource e.1 e.2).length
      ≤ exceptions.length * 120000 := by
    have hall : ∀ n ∈ exceptions.map fun e => (exceptionSource e.1 e.2).length,
        n ≤ 120000 := by
      intro n hn
      obtain ⟨e, he, rfl⟩ := List.mem_map.mp hn
      exact length_exceptionSource_le (hshort e he).1 (hshort e he).2
    have hsum := List.sum_le_card_nsmul _ _ hall
    rw [List.length_map] at hsum
    rw [List.length_flatMap]
    exact hsum
  have hsource : source.length ≤ 90000 + exceptions.length * 120000 :=
    Nat.le_trans (Nat.le_of_eq List.length_append) (Nat.add_le_add length_coreSource_le hexceptions)
  have hfifteen : exceptions.length = 15 := rfl
  omega

/-- Some length, and the one `d` above it, are not those of given names. -/
lemma exists_free_length (names : List Text) (d : Nat) :
    ∃ k ≤ 2 * names.length, ∀ name ∈ names, name.length ≠ k + 1 ∧ name.length ≠ k + 1 + d := by
  -- more lengths than names with these lengths
  let taken := names.toFinset.image (·.length - 1) ∪ names.toFinset.image (·.length - (1 + d))
  have htaken : taken.card < (Finset.range (2 * names.length + 1)).card := by
    have hnames : names.toFinset.card ≤ names.length := names.toFinset_card_le
    have hcard : taken.card ≤ names.toFinset.card + names.toFinset.card :=
      (Finset.card_union_le _ _).trans (Nat.add_le_add Finset.card_image_le Finset.card_image_le)
    rw [Finset.card_range]
    omega
  obtain ⟨k, hk, hfree⟩ := Finset.exists_mem_notMem_of_card_lt_card htaken
  refine ⟨k, Nat.le_of_lt_succ (Finset.mem_range.mp hk), fun name hname => ⟨?_, ?_⟩⟩
  · intro hlength
    refine hfree (Finset.mem_union_left _ (Finset.mem_image.mpr
      ⟨name, List.mem_toFinset.mpr hname, ?_⟩))
    rw [hlength, Nat.add_sub_cancel]
  · intro hlength
    refine hfree (Finset.mem_union_right _ (Finset.mem_image.mpr
      ⟨name, List.mem_toFinset.mpr hname, ?_⟩))
    rw [hlength, Nat.add_assoc, Nat.add_sub_cancel]

/-- **Free names** that can be written, outside the core package and in it. -/
lemma exists_free : ∃ cls : Text, cls ≠ [] ∧ Text.startsWith cls "core/" = false
    ∧ (Text.Holdable cls ∧ encoded.lookup cls = none)
    ∧ (Text.Holdable (Text.ofString "core/" ++ cls)
        ∧ encoded.lookup (Text.ofString "core/" ++ cls) = none) := by
  have hencoded := length_encoded_le
  generalize encoded = builtins at hencoded ⊢
  obtain ⟨k, hk, hfree⟩ := exists_free_length (builtins.map (·.1)) 5
  rw [List.length_map] at hk
  have hlookup : ∀ {name : Text}, name.length = k + 1 ∨ name.length = k + 1 + 5 →
      builtins.lookup name = none := by
    intro name hname
    refine List.lookup_eq_none_iff.mpr fun entry hentry => bne_iff_ne.mpr ?_
    rintro rfl
    obtain ⟨hne, hne'⟩ := hfree _ (List.mem_map_of_mem hentry)
    exact hname.elim hne hne'
  have hascii : ∀ b ∈ List.replicate (k + 1) (97 : UInt8), b.toNat < 0x80 := by
    intro b hb
    rw [List.eq_of_mem_replicate hb]
    decide
  have hcorename : (Text.ofString "core/").length = 5 ∧ ∀ b ∈ Text.ofString "core/", b.toNat < 0x80 := by
    decide +kernel
  have hlength : (List.replicate (k + 1) (97 : UInt8)).length = k + 1 := List.length_replicate
  have hlength' : (Text.ofString "core/" ++ List.replicate (k + 1) 97).length = k + 1 + 5 := by
    rw [List.length_append, hlength, hcorename.1, Nat.add_comm]
  refine ⟨List.replicate (k + 1) 97, List.cons_ne_nil _ _, rfl,
    ⟨⟨Utf8.valid_of_ascii hascii, by omega⟩, hlookup (Or.inl hlength)⟩,
    ⟨Utf8.valid_of_ascii (List.forall_mem_append.mpr ⟨hcorename.2, hascii⟩), ?_⟩,
    hlookup (Or.inr hlength')⟩
  omega

end Builtins

end Suspension
