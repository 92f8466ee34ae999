import Mathlib.Data.List.TakeWhile
import Suspension.Proofs.Text.Descriptor

/-!
# The grammar of descriptors

A descriptor is read by a scanner that looks at one letter at a time.  Here the language is written down
as a **grammar**, without any reading, and the scanner accepts exactly what the grammar derives.

* `Descriptor.Field` — field descriptors.
* `Descriptor.Spells` — a text spells parameters and a result.
* `Descriptor.splitField_eq_ok_iff`, `Descriptor.splitParams_eq_ok_iff` — what is read off the front.
* `Descriptor.parseMethod_spells` — a method descriptor is read exactly if it is one, in the only way.

A class name may hold parentheses, brackets and letters of every kind; that a field descriptor tells its
own end is what makes a list of them unambiguous.
-/

namespace Suspension

namespace Descriptor

/-- **Field descriptors**: one of eight letters, `L`, a name and `;`, or `[` in front of another. -/
inductive Field : Text → Prop where
  | letter {b : UInt8} (hb : b ∈ Text.ofString "ZBCSIJFD") : Field [b]
  | named {name : Text} (hne : name ≠ []) (hname : 0x3b ∉ name) : Field (0x4c :: (name ++ [0x3b]))
  | array {elem : Text} (h : Field elem) : Field (0x5b :: elem)

/-- **A text spells the parameters and the result of a method.** -/
structure Spells (d : Method) (s : Text) : Prop where
  params : ∀ p ∈ d.params, Field p
  result : d.result = Text.ofString "V" ∨ Field d.result
  text : s = Text.ofString "(" ++ d.params.flatten ++ Text.ofString ")" ++ d.result

variable {s field rest result : Text} {params : List Text} {d : Method}

/-! ## Fields -/

lemma isBaseType_iff {b : UInt8} : isBaseType b = true ↔ b ∈ Text.ofString "ZBCSIJFD" := by
  have hletters : Text.ofString "ZBCSIJFD" = [0x5a, 0x42, 0x43, 0x53, 0x49, 0x4a, 0x46, 0x44] := by
    decide
  simp [hletters, isBaseType, or_assoc]

/-- **One field descriptor off the front** is one that the text begins with. -/
lemma splitField_eq_ok_iff : splitField s = .ok (field, rest) ↔ Field field ∧ s = field ++ rest := by
  constructor
  · intro h
    induction s generalizing field rest with
    | nil => cases h
    | cons b s ih =>
        unfold splitField at h
        split at h
        · next hbase =>
            cases h
            exact ⟨.letter (isBaseType_iff.mp hbase), rfl⟩
        split at h
        · next hclass =>
            obtain rfl : b = 0x4c := by simpa using hclass
            split at h
            · cases h
            next name semicolon after hspan =>
            split at h
            · cases h
            next hne =>
            cases h
            -- the name ends at the first semicolon, so it has none
            have hname : 0x3b ∉ name := by
              intro hmem
              rw [List.span_eq_takeWhile_dropWhile] at hspan
              have htake : s.takeWhile (· != 0x3b) = name := congrArg Prod.fst hspan
              have := List.mem_takeWhile_imp (htake ▸ hmem)
              simp at this
            obtain ⟨rfl, hsemicolon⟩ := of_span_eq hspan
            obtain rfl : semicolon = 0x3b := by simpa using hsemicolon
            exact ⟨.named (by simpa using hne) hname, by simp⟩
        split at h
        · next harray =>
            obtain rfl : b = 0x5b := by simpa using harray
            split at h
            · next elem after helem =>
                cases h
                obtain ⟨hfield, rfl⟩ := ih helem
                exact ⟨.array hfield, rfl⟩
            · cases h
        · cases h
  · rintro ⟨hfield, rfl⟩
    induction hfield with
    | letter hb =>
        have hbase := isBaseType_iff.mpr hb
        simp [splitField, hbase]
    | @named name hne hname =>
        have hstop : ∀ b ∈ name, (b != 0x3b) = true := by
          intro b hb
          rw [bne_iff_ne]
          rintro rfl
          exact hname hb
        have hspan : (name ++ 0x3b :: rest).span (· != 0x3b) = (name, 0x3b :: rest) := by
          rw [List.span_eq_takeWhile_dropWhile, List.takeWhile_append_of_pos hstop,
            List.dropWhile_append_of_pos hstop]
          simp
        have hbase : isBaseType 0x4c = false := by decide
        have htext : 0x4c :: (name ++ [0x3b]) ++ rest = 0x4c :: (name ++ 0x3b :: rest) := by simp
        rw [htext, splitField, if_neg (by simp [hbase]), if_pos (by rfl), hspan]
        simp [hne]
    | array _ ih =>
        have hbase : isBaseType 0x5b = false := by decide
        simp [splitField, hbase, ih]

/-- **A text is one field descriptor** exactly if the grammar derives it. -/
lemma isField_iff : isField s = true ↔ Field s := by
  unfold isField
  constructor
  · intro h
    split at h
    · next field rest hsplit =>
        obtain rfl : rest = [] := by simpa using h
        obtain ⟨hfield, rfl⟩ := splitField_eq_ok_iff.mp hsplit
        simpa using hfield
    · cases h
  · intro h
    have hsplit : splitField s = .ok (s, []) := splitField_eq_ok_iff.mpr ⟨h, by simp⟩
    simp [hsplit]

/-- A result is `V` or a field descriptor. -/
lemma isResult_iff : isResult s = true ↔ s = Text.ofString "V" ∨ Field s := by
  have hvoid : Text.ofString "V" = [0x56] := by decide
  simp [isResult, isField_iff, hvoid]

/-- A field descriptor begins with a letter of its own, which is no closing parenthesis. -/
lemma Field.exists_head (h : Field field) : ∃ b t, field = b :: t ∧ b ≠ 0x29 := by
  cases h with
  | @letter b hb =>
      refine ⟨b, [], rfl, ?_⟩
      rintro rfl
      exact absurd (isBaseType_iff.mpr hb) (by decide)
  | named => exact ⟨_, _, rfl, by decide⟩
  | array => exact ⟨_, _, rfl, by decide⟩

/-! ## Parameters -/

/-- **The parameters up to the parenthesis**, as long as the count covers the text. -/
lemma splitParams_eq_ok_iff {fuel : Nat} (hfuel : s.length < fuel) :
    splitParams fuel s = .ok (some (params, result))
      ↔ (∀ p ∈ params, Field p) ∧ s = params.flatten ++ 0x29 :: result := by
  constructor
  · intro h
    clear hfuel
    induction fuel generalizing s params with
    | zero => cases h
    | succ fuel ih =>
        unfold splitParams at h
        split at h
        · cases h
        next b s =>
        split at h
        · next hclose =>
            cases h
            obtain rfl : b = 0x29 := by simpa using hclose
            exact ⟨by simp, rfl⟩
        split at h
        · cases h
        next field after hfield =>
        split at h
        · cases h
        · cases h
        · next fields result' hrest =>
            cases h
            obtain ⟨hf, htext⟩ := splitField_eq_ok_iff.mp hfield
            obtain ⟨hall, rfl⟩ := ih hrest
            exact ⟨List.forall_mem_cons.mpr ⟨hf, hall⟩, by simp [htext]⟩
  · rintro ⟨hall, rfl⟩
    induction params generalizing fuel with
    | nil =>
        cases fuel with
        | zero => omega
        | succ fuel => simp [splitParams]
    | cons p params ih =>
        cases fuel with
        | zero => omega
        | succ fuel =>
            obtain ⟨hp, hparams⟩ := List.forall_mem_cons.mp hall
            have hsplit : splitField ((p :: params).flatten ++ 0x29 :: result)
                = .ok (p, params.flatten ++ 0x29 :: result) :=
              splitField_eq_ok_iff.mpr ⟨hp, by simp⟩
            -- a parameter takes at least one letter off the text
            obtain ⟨b, t, rfl, hb⟩ := hp.exists_head
            have hshort : (params.flatten ++ 0x29 :: result).length < fuel := by
              simp at hfuel ⊢
              omega
            have hrest := ih hparams hshort
            simp only [List.flatten_cons, List.cons_append, List.append_assoc] at hsplit ⊢
            simp [splitParams, hb, hsplit, hrest]

/-! ## Methods -/

/-- **A method descriptor is read as what it spells.** -/
lemma parseMethod_eq_ok_iff : parseMethod s = .ok d ↔ Spells d s := by
  have hopen : Text.ofString "(" = [0x28] := by decide
  have hclose : Text.ofString ")" = [0x29] := by decide
  constructor
  · intro h
    obtain ⟨t, rfl, hparams⟩ := parseMethod_eq_ok h
    obtain ⟨hall, rfl⟩ := (splitParams_eq_ok_iff (by simp)).mp hparams
    refine ⟨hall, ?_, by simp [hopen, hclose]⟩
    -- the result has been looked at behind the parameters
    rw [← isResult_iff]
    simp only [parseMethod, hparams] at h
    by_contra hbad
    rw [if_neg hbad] at h
    split at h <;> cases h
  · rintro ⟨hall, hresult, rfl⟩
    obtain ⟨params, result⟩ := d
    have hshort : (params.flatten ++ 0x29 :: result).length
        < (0x28 :: (params.flatten ++ 0x29 :: result)).length := by simp
    have hparams := (splitParams_eq_ok_iff hshort).mpr ⟨hall, rfl⟩
    have hlong : ¬ (params.flatten ++ 0x29 :: result).length < 2 := by
      have hne : result ≠ [] := by
        rcases hresult with hvoid | hfield
        · rw [show result = Text.ofString "V" from hvoid]
          decide
        · obtain ⟨b, t, ht, -⟩ := hfield.exists_head
          rw [show result = b :: t from ht]
          exact List.cons_ne_nil b t
      have := List.length_pos_iff.mpr hne
      simp only [List.length_append, List.length_cons]
      omega
    have htext : Text.ofString "(" ++ params.flatten ++ Text.ofString ")" ++ result
        = 0x28 :: (params.flatten ++ 0x29 :: result) := by
      simp [hopen, hclose]
    change parseMethod (Text.ofString "(" ++ params.flatten ++ Text.ofString ")" ++ result) = _
    rw [htext, parseMethod, hparams]
    simp only [isResult_iff.mpr hresult]
    rw [if_neg (by simpa using hlong)]
    rfl

/-- **The language of descriptors.**  A text is read as a method descriptor exactly if it spells one, as
what it spells, of which there is only one; the number of parameters is that of the descriptor, and -1
exactly for a text that is none; and the field descriptors are those of the grammar. -/
theorem parseMethod_spells (s : Text) :
    (∀ d, parseMethod s = .ok d ↔ Spells d s) ∧ Subsingleton {d // Spells d s}
      ∧ (∀ n : Nat, argCount s = n ↔ ∃ d, Spells d s ∧ d.params.length = n)
      ∧ (argCount s = -1 ↔ ¬ ∃ d, Spells d s) ∧ (isField s = true ↔ Field s) := by
  refine ⟨fun d => parseMethod_eq_ok_iff, ?_, fun n => ?_, ?_, isField_iff⟩
  · refine ⟨fun ⟨d, hd⟩ ⟨d', hd'⟩ => Subtype.ext ?_⟩
    exact Except.ok.inj ((parseMethod_eq_ok_iff.mpr hd).symm.trans (parseMethod_eq_ok_iff.mpr hd'))
  all_goals
    simp only [← parseMethod_eq_ok_iff, argCount]
    cases hparse : parseMethod s with
    | error e => simp
    | ok d => simp; try omega

/-- Parentheses in a class name end no parameter. -/
example : parseMethod (Text.ofString "(La)b;[[J)V")
    = .ok ⟨[Text.ofString "La)b;", Text.ofString "[[J"], Text.ofString "V"⟩ := by
  decide

end Descriptor

end Suspension
