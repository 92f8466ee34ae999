import Suspension.Proofs.Assembly.Reading

/-!
# Labels by their names

**The numbers that labels get.**  While a method is read a label has the number of its first mention;
when the method is complete that number is exchanged for the place of the definition.

* `Assembly.placeIn` — the place of a label in a list, as a word.
* `Assembly.LabelTable.Holds` — the labels that a table knows, in order of mention and of definition.
* `Assembly.LabelTable.Holds.mention`, `define` — one more label.
* `Assembly.LabelTable.Holds.undefined?`, `place` — the complete table.
* `Assembly.Numbered` — what is read, with the numbers of any later table.
-/

namespace Suspension

namespace Assembly

variable {ids ids' ds scope : List Label} {id : Label} {t : LabelTable}

/-- **The place of a label in a list**, as a word. -/
def placeIn (ids : List Label) (id : Label) : Label := UInt32.ofNat (ids.idxOf id)

/-- A list that goes on leaves the places as they are. -/
lemma placeIn_of_initial (hpre : ids <+: ids') (hid : id ∈ ids) : placeIn ids' id = placeIn ids id := by
  rw [placeIn, placeIn, hpre.idxOf_eq_of_mem hid]

/-- There are no more labels than words. -/
lemma length_le_of_nodup (h : ids.Nodup) : ids.length ≤ 2 ^ 32 := by
  have hinj : (ids.map UInt32.toNat).Nodup := h.map fun _ _ => UInt32.toNat_inj.mp
  have hsub : ids.map UInt32.toNat ⊆ List.range (2 ^ 32) := by
    intro n hn
    obtain ⟨id, -, rfl⟩ := List.mem_map.mp hn
    exact List.mem_range.mpr id.toNat_lt
  have hlength := (hinj.subperm hsub).length_le
  rwa [List.length_map, List.length_range] at hlength

lemma placeIn_toNat (h : ids.Nodup) (hid : id ∈ ids) : (placeIn ids id).toNat = ids.idxOf id := by
  have hlt := List.idxOf_lt_length_of_mem hid
  have hle := length_le_of_nodup h
  rw [placeIn, UInt32.toNat_ofNat_of_lt' (by simp only [UInt32.size]; omega)]

lemma placeIn_inj (h : ids.Nodup) {a b : Label} (ha : a ∈ ids) (hb : b ∈ ids) :
    placeIn ids a = placeIn ids b ↔ a = b := by
  rw [← UInt32.toNat_inj, placeIn_toNat h ha, placeIn_toNat h hb]
  exact List.idxOf_inj ha

namespace LabelTable

/-- **The labels that a table knows**, all of a scope: `ids` in order of mention, `ds` in order of
definition. -/
structure Holds (t : LabelTable) (scope ids ds : List Label) : Prop where
  names : t.names.map Prod.fst = ids.map Instruction.labelName
  nodup : ids.Nodup
  inScope : ∀ id ∈ ids, id ∈ scope
  defined : ∀ id ∈ ds, id ∈ ids
  order : t.order = ds.map (placeIn ids)

lemma holds_empty (scope : List Label) : ({} : LabelTable).Holds scope [] [] :=
  ⟨rfl, List.nodup_nil, by simp, by simp, rfl⟩

lemma Holds.find? (h : t.Holds scope ids ds) (id : Label) :
    t.find? (Instruction.labelName id) = if id ∈ ids then some (ids.idxOf id) else none := by
  have hnames : t.find? (Instruction.labelName id) = ids.findIdx? (· == id) := by
    have hmap : t.find? (Instruction.labelName id)
        = (t.names.map Prod.fst).findIdx? (· == Instruction.labelName id) := by
      rw [List.findIdx?_map]
      rfl
    rw [hmap, h.names, List.findIdx?_map]
    congr 1
    funext x
    rw [Bool.eq_iff_iff]
    simp [Token.labelName_injective.eq_iff]
  rw [hnames]
  split
  · next hid => exact List.findIdx?_eq_some_of_exists ⟨id, hid, by simp⟩
  · next hid =>
      rw [List.findIdx?_eq_none_iff]
      intro x hx
      simp only [beq_eq_false_iff_ne]
      rintro rfl
      exact hid hx

/-- The order of definition is told by later places. -/
lemma Holds.order_of_prefix (h : t.Holds scope ids ds) (hpre : ids <+: ids') :
    t.order = ds.map (placeIn ids') := by
  rw [h.order]
  exact List.map_congr_left fun id hid => (placeIn_of_initial hpre (h.defined id hid)).symm

/-- **A label is mentioned.** -/
lemma Holds.mention (h : t.Holds scope ids ds) (hid : id ∈ scope) (line : Nat) :
    ∃ ids', ids <+: ids' ∧ id ∈ ids' ∧ (t.mention (Instruction.labelName id) line).1 = placeIn ids' id
      ∧ (t.mention (Instruction.labelName id) line).2.Holds scope ids' ds := by
  have hfind := h.find? id
  unfold LabelTable.mention
  split at hfind
  · next hmem =>
      rw [hfind]
      exact ⟨ids, List.prefix_rfl, hmem, rfl, h⟩
  · next hmem =>
      rw [hfind]
      have hlength : t.names.length = ids.length := by
        have := congrArg List.length h.names
        rwa [List.length_map, List.length_map] at this
      have hpre : ids <+: ids ++ [id] := List.prefix_append ids [id]
      refine ⟨ids ++ [id], hpre, by simp, ?_, ?_⟩
      · simp only [placeIn, hlength, List.idxOf_append_of_notMem hmem]
        simp
      · refine ⟨by simp [h.names], ?_, ?_, fun x hx => ?_, h.order_of_prefix hpre⟩
        · rw [List.nodup_append]
          refine ⟨h.nodup, by simp, ?_⟩
          rintro a ha b hb rfl
          exact hmem (List.mem_singleton.mp hb ▸ ha)
        · intro x hx
          rcases List.mem_append.mp hx with hx | hx
          · exact h.inScope x hx
          · rwa [List.mem_singleton.mp hx]
        · exact List.mem_append_left _ (h.defined x hx)

/-- **A label is defined.** -/
lemma Holds.define (h : t.Holds scope ids ds) (hid : id ∈ scope) (hnew : id ∉ ds) (line : Nat) :
    ∃ ids' t', ids <+: ids' ∧ t.define (Instruction.labelName id) line = .ok (placeIn ids' id, t')
      ∧ id ∈ ids' ∧ t'.Holds scope ids' (ds ++ [id]) := by
  obtain ⟨ids', hpre, hmem, hnumber, hholds⟩ := h.mention hid line
  unfold LabelTable.define
  generalize t.mention (Instruction.labelName id) line = r at hnumber hholds
  obtain ⟨number, t'⟩ := r
  simp only at hnumber hholds
  subst hnumber
  have hfresh : t'.order.contains (placeIn ids' id) = false := by
    rw [List.contains_eq_mem, decide_eq_false_iff_not, hholds.order]
    intro hmem'
    obtain ⟨x, hx, hplace⟩ := List.mem_map.mp hmem'
    exact hnew ((placeIn_inj hholds.nodup (hholds.defined x hx) hmem).mp hplace ▸ hx)
  refine ⟨ids', { t' with order := t'.order ++ [placeIn ids' id] }, hpre, ?_, hmem, ?_⟩
  · simp only [hfresh, Bool.false_eq_true, if_false]
  · refine ⟨hholds.names, hholds.nodup, hholds.inScope, ?_, ?_⟩
    · intro x hx
      rcases List.mem_append.mp hx with hx | hx
      · exact hholds.defined x hx
      · rwa [List.mem_singleton.mp hx]
    · simp [hholds.order]

/-- **Every label is defined.** -/
lemma Holds.undefined? (h : t.Holds scope ids ds) (hall : ∀ id ∈ scope, id ∈ ds) :
    t.undefined? = none := by
  have hnone : ∀ (names : List (Text × Nat)) (i : Nat),
      (∀ j, i ≤ j → j < i + names.length → UInt32.ofNat j ∈ t.order) →
      firstUndefined? t.order names i = none := by
    intro names
    induction names with
    | nil => intro i _; rfl
    | cons entry names ih =>
        intro i hi
        have hfirst : t.order.contains (UInt32.ofNat i) = true := by
          rw [List.contains_eq_mem, decide_eq_true_eq]
          exact hi i (le_refl i) (by simp)
        simp only [firstUndefined?, hfirst, if_true]
        exact ih (i + 1) fun j hj hj' => hi j (by omega) (by simp; omega)
  refine hnone t.names 0 fun j _ hj => ?_
  have hlength : t.names.length = ids.length := by
    have := congrArg List.length h.names
    rwa [List.length_map, List.length_map] at this
  have hj : j < ids.length := by omega
  rw [h.order, List.mem_map]
  refine ⟨ids[j], hall _ (h.inScope _ (List.getElem_mem hj)), ?_⟩
  rw [placeIn, List.Nodup.idxOf_getElem h.nodup]

/-- **The place of a definition.** -/
lemma Holds.place (h : t.Holds scope ids ds) (hid : id ∈ ds) :
    t.place (placeIn ids id) = placeIn ds id := by
  have hfind : t.order.findIdx? (· == placeIn ids id) = some (ds.idxOf id) := by
    have hlt := List.idxOf_lt_length_of_mem hid
    rw [h.order, List.findIdx?_eq_some_iff_getElem]
    refine ⟨by simpa using hlt, by simp, fun j hj => ?_⟩
    have hother : ds[j] ≠ id := by
      have hne : (ds[j] == id) = false := List.not_of_lt_findIdx hj
      simpa using hne
    rw [List.getElem_map, Bool.not_eq_true, beq_eq_false_iff_ne]
    exact fun heq => hother ((placeIn_inj h.nodup (h.defined _ (List.getElem_mem _))
      (h.defined _ hid)).mp heq)
  rw [LabelTable.place, hfind]
  rfl

end LabelTable

/-! ## References -/

section Numbered

variable {α β γ : Type} {f : (Label → Label) → α} {g : (Label → Label) → β}

/-- **What is read, with the numbers of any later table.** -/
def Numbered (scope ids ds : List Label) (f : (Label → Label) → α) (r : α × LabelTable) : Prop :=
  ∃ ids', ids <+: ids' ∧ r.2.Holds scope ids' ds ∧ ∀ ids'', ids' <+: ids'' → r.1 = f (placeIn ids'')

/-- What has no labels. -/
lemma Numbered.const (h : t.Holds scope ids ds) (a : α) : Numbered scope ids ds (fun _ => a) (a, t) :=
  ⟨ids, List.prefix_rfl, h, fun _ _ => rfl⟩

/-- What is read in two parts. -/
lemma Numbered.combine {ds' : List Label} {a : α} {r : β × LabelTable} (hpre : ids <+: ids')
    (ha : ∀ ids'', ids' <+: ids'' → a = f (placeIn ids'')) (hr : Numbered scope ids' ds' g r)
    (k : α → β → γ) : Numbered scope ids ds' (fun p => k (f p) (g p)) (k a r.1, r.2) := by
  obtain ⟨ids₂, hpre₂, hholds, hr⟩ := hr
  refine ⟨ids₂, hpre.trans hpre₂, hholds, fun ids₃ hpre₃ => ?_⟩
  rw [ha ids₃ (hpre₂.trans hpre₃), hr ids₃ hpre₃]

lemma Numbered.map {r : α × LabelTable} (hr : Numbered scope ids ds f r) (k : α → β) :
    Numbered scope ids ds (fun p => k (f p)) (k r.1, r.2) := by
  obtain ⟨ids', hpre, hholds, hr⟩ := hr
  exact ⟨ids', hpre, hholds, fun ids'' hpre'' => by rw [hr ids'' hpre'']⟩

/-- **One reader after another**, with what each reads. -/
lemma Reads.numbered {after : List Token → Prop} {text text' : Text} {ds' : List Label}
    {p : Parse (α × LabelTable)} {q : LabelTable → Parse (β × LabelTable)}
    (hp : Reads Anything p text (Numbered scope ids ds f))
    (hq : ∀ t' ids', t'.Holds scope ids' ds → Reads after (q t') text' (Numbered scope ids' ds' g))
    (k : α → β → γ) :
    Reads after (do
      let (a, t) ← p
      let (b, t) ← q t
      return (k a b, t)) (text ++ text') (Numbered scope ids ds' fun p => k (f p) (g p)) := by
  refine hp.bind fun r hr => ?_
  obtain ⟨ids', hpre, hholds, ha⟩ := hr
  exact (hq r.2 ids' hholds).map fun r' hr' => hr'.combine hpre ha k

/-- **A reference to a label.** -/
lemma reads_reference (h : t.Holds scope ids ds) (hid : id ∈ scope) :
    Reads Anything (labelRef t) (Text.ofString " " ++ Instruction.labelName id)
      (Numbered scope ids ds fun g => g id) := by
  have hname : Instruction.labelName id = 0x24 :: 0x4c :: Text.ofNat id.toNat := rfl
  refine ⟨_, Token.prints_reference id, fun toks rest htoks hafter => ?_⟩
  obtain ⟨tok, htok, hvalue⟩ := takes_expect _ _ toks rest htoks hafter
  obtain ⟨ids', hpre, hmem, hnumber, hholds⟩ := h.mention hid tok.line
  refine ⟨t.mention (Instruction.labelName id) tok.line, ?_, ids', hpre, hholds, ?_⟩
  · unfold labelRef
    rw [run_bind htok, hvalue, hname]
    rfl
  · intro ids'' hpre''
    rw [hnumber]
    exact (placeIn_of_initial hpre'' hmem).symm

end Numbered

end Assembly

end Suspension
