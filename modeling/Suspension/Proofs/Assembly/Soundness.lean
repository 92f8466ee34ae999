import Suspension.Proofs.Assembly.Forms

/-!
# What the assembler gives

**Whatever is read can be written.**  Every class that a text denotes has flags with words, descriptors
that parse, operands that fit their opcodes and finite constants; its labels are defined once, all that
are mentioned are defined, and they have the numbers 0, 1, 2, … in order of definition.

* `Assembly.Yields` — a fact about everything that a reader may give.
* `Assembly.yields_code` — instructions with a table of their labels.
* `Assembly.Draft.Sound`, `Draft.Sound.finish` — the sections of a method, and the complete method.
* `Assembly.single_sound` — the classes of texts.
-/

namespace Suspension

lemma Flag.named_zero : Named 0 := rfl

lemma Flag.Named.or {a b : UInt32} (ha : Named a) (hb : Named b) : Named (a ||| b) := by
  unfold Named at *
  simp only [← UInt32.toBitVec_inj, UInt32.toBitVec_and, UInt32.toBitVec_or] at *
  rw [BitVec.and_comm, BitVec.and_or_distrib_left, BitVec.and_comm _ a.toBitVec,
    BitVec.and_comm _ b.toBitVec, ha, hb]

lemma Flag.named_word : ∀ w ∈ words, Named w.2 := by
  unfold Named
  decide +kernel

namespace Assembly

variable {α β : Type}

/-- **A fact about everything that a reader may give.** -/
def Yields (p : Parse α) (Q : α → Prop) : Prop := ∀ toks a rest, p toks = .ok (a, rest) → Q a

section Yields

variable {p : Parse α} {f : α → Parse β} {Q : α → Prop} {Q' : β → Prop}

lemma Yields.pure {a : α} (h : Q a) : Yields (pure a) Q := by
  intro toks b rest hb
  cases hb
  exact h

lemma yields_throw (e : Problem) : Yields (throw e) Q := by
  intro toks b rest hb
  cases hb

/-- What is read in two steps. -/
lemma exists_of_bind {toks rest : List Token} {b : β} (h : (p >>= f) toks = .ok (b, rest)) :
    ∃ a toks', p toks = .ok (a, toks') ∧ f a toks' = .ok (b, rest) := by
  have hbind : (p >>= f) toks = (p toks >>= fun x => f x.1 x.2) := rfl
  rw [hbind] at h
  cases hp : p toks with
  | error e => rw [hp] at h; cases h
  | ok r =>
      rw [hp] at h
      exact ⟨r.1, r.2, rfl, h⟩

lemma Yields.bind (h : Yields p Q) (h' : ∀ a, Q a → Yields (f a) Q') : Yields (p >>= f) Q' := by
  intro toks b rest hb
  obtain ⟨a, toks', ha, hb⟩ := exists_of_bind hb
  exact h' a (h toks a toks' ha) toks' b rest hb

lemma Yields.mono {Q' : α → Prop} (h : Yields p Q) (hQ : ∀ a, Q a → Q' a) : Yields p Q' :=
  fun toks a rest ha => hQ a (h toks a rest ha)

lemma yields_any (p : Parse α) : Yields p fun _ => True := fun _ _ _ _ => trivial

/-- Nothing is known of what is read first. -/
lemma Yields.after (p : Parse α) (h : ∀ a, Yields (f a) Q') : Yields (p >>= f) Q' :=
  (yields_any p).bind fun a _ => h a

lemma Yields.ite {q : Parse α} {c : Prop} [Decidable c] (hp : Yields p Q) (hq : Yields q Q) :
    Yields (if c then p else q) Q := by
  split
  · exact hp
  · exact hq

/-- A reader whose faults are reported differently. -/
lemma Yields.wrap {q : Parse α} (h : Yields p Q) (hq : ∀ toks r, q toks = .ok r → p toks = .ok r) :
    Yields q Q := fun toks a rest ha => h toks a rest (hq toks (a, rest) ha)

end Yields

/-! ## Flags and floats -/

lemma yields_flags : Yields flags Flag.Named := by
  have hall : ∀ n acc, Flag.Named acc → Yields (flagsUpTo n acc) Flag.Named := by
    intro n
    induction n with
    | zero => exact fun acc hacc => .pure hacc
    | succ n ih =>
        intro acc hacc
        refine .after atClose fun closes => ?_
        cases closes with
        | true => exact .pure hacc
        | false =>
            refine .after (expect .ident) fun tok => ?_
            split
            · next bit hbit =>
                obtain ⟨l, l', hwords, -⟩ := List.lookup_eq_some_iff.mp hbit
                have hmem : (tok.value, bit) ∈ Flag.words := by rw [hwords]; simp
                exact ih _ (hacc.or (Flag.named_word _ hmem))
            · exact yields_throw _
  exact .after get fun toks => hall toks.length 0 Flag.named_zero

lemma yields_float (f : FloatFormat) (hf : f.Narrow) : Yields (float f) f.IsFinite := by
  refine .after (expect .number) fun tok => ?_
  split
  · next hvalue => exact .pure (FloatFormat.isFinite_of_float? hf hvalue)
  · exact yields_throw _

/-! ## Labels -/

namespace LabelTable

variable {t t' t'' : LabelTable} {id : Label}

/-- A label that a table has a name for. -/
def Knows (t : LabelTable) (id : Label) : Prop := ∃ j < t.names.length, id = UInt32.ofNat j

/-- **More names, the same definitions.** -/
structure Grows (t t' : LabelTable) : Prop where
  names : t.names.length ≤ t'.names.length
  order : t'.order = t.order

lemma Grows.refl (t : LabelTable) : t.Grows t := ⟨le_refl _, rfl⟩

lemma Grows.trans (h : t.Grows t') (h' : t'.Grows t'') : t.Grows t'' :=
  ⟨h.names.trans h'.names, h'.order.trans h.order⟩

lemma Knows.mono (h : t.Knows id) (hle : t.names.length ≤ t'.names.length) : t'.Knows id := by
  obtain ⟨j, hj, rfl⟩ := h
  exact ⟨j, by omega, rfl⟩

lemma mention_grows (t : LabelTable) (name : Text) (line : Nat) :
    t.Grows (t.mention name line).2 ∧ (t.mention name line).2.Knows (t.mention name line).1 := by
  unfold mention
  split
  · next i hi =>
      refine ⟨.refl t, i, ?_, rfl⟩
      exact (List.findIdx?_eq_some_iff_getElem.mp hi).1
  · exact ⟨⟨by simp, rfl⟩, t.names.length, by simp, rfl⟩

/-- **A definition** is a label that was not defined before. -/
lemma define_grows {name : Text} {line : Nat} (h : t.define name line = .ok (id, t')) :
    t.names.length ≤ t'.names.length ∧ t'.Knows id ∧ t'.order = t.order ++ [id] ∧ id ∉ t.order := by
  obtain ⟨hgrows, hknows⟩ := t.mention_grows name line
  unfold define at h
  generalize t.mention name line = r at h hgrows hknows
  obtain ⟨id', t₁⟩ := r
  simp only at h
  split at h
  · cases h
  · next hfresh =>
      cases h
      refine ⟨hgrows.names, hknows, by rw [← hgrows.order], ?_⟩
      rw [← hgrows.order]
      simpa using hfresh

end LabelTable

lemma yields_reference (t : LabelTable) :
    Yields (labelRef t) fun r => t.Grows r.2 ∧ r.2.Knows r.1 := by
  refine .after (expect .ident) fun tok => ?_
  split
  · exact .pure (t.mention_grows tok.value tok.line)
  · exact yields_throw _

/-! ## Code -/

/-- The labels of an operand. -/
def operandLabels (o : Operand) : List Label := Code.mentioned ⟨.nop, o⟩

lemma yields_entries (n : Nat) (t : LabelTable) :
    Yields (tableEntries n t) fun r => t.Grows r.2 ∧ ∀ id ∈ r.1, r.2.Knows id := by
  induction n generalizing t with
  | zero => exact .pure ⟨.refl t, by simp⟩
  | succ n ih =>
      refine .after get fun toks => ?_
      dsimp only
      split
      · exact yields_throw _
      split
      · exact .after next fun _ => .pure ⟨.refl t, by simp⟩
      refine (yields_reference t).bind fun r hr => ?_
      refine (ih r.2).bind fun r' hr' => .pure ⟨hr.1.trans hr'.1, ?_⟩
      intro id hid
      rcases List.mem_cons.mp hid with rfl | hid
      · exact hr.2.mono hr'.1.names
      · exact hr'.2 id hid

/-- **An operand** is of its kind, finite, and its labels are known. -/
lemma yields_operand (t : LabelTable) (kind : OperandKind) :
    Yields (operand t kind) fun r => r.1.kind = kind ∧ r.1.IsFinite ∧ t.Grows r.2
      ∧ ∀ id ∈ operandLabels r.1, r.2.Knows id := by
  have hplain : ∀ {o : Operand}, o.kind = kind → o.IsFinite → operandLabels o = [] →
      Yields (pure (o, t)) fun r => r.1.kind = kind ∧ r.1.IsFinite ∧ t.Grows r.2
        ∧ ∀ id ∈ operandLabels r.1, r.2.Knows id :=
    fun hkind hfinite hlabels => .pure ⟨hkind, hfinite, .refl t, by simp [hlabels]⟩
  cases kind with
  | none => exact hplain rfl trivial rfl
  | int => exact .after _ fun v => hplain rfl trivial rfl
  | long => exact .after _ fun v => hplain rfl trivial rfl
  | float =>
      refine (yields_float .single FloatFormat.narrow_single).bind fun bits hbits => hplain rfl ?_ rfl
      have hnat : (UInt32.ofNat bits).toNat = bits := UInt32.toNat_ofNat_of_lt' hbits.1
      rw [Operand.IsFinite, hnat]
      exact hbits
  | double =>
      refine (yields_float .double FloatFormat.narrow_double).bind fun bits hbits => hplain rfl ?_ rfl
      have hnat : (UInt64.ofNat bits).toNat = bits := UInt64.toNat_ofNat_of_lt' hbits.1
      rw [Operand.IsFinite, hnat]
      exact hbits
  | text => exact .after _ fun s => hplain rfl trivial rfl
  | slot => exact .after _ fun n => hplain rfl trivial rfl
  | increment => exact .after _ fun n => .after _ fun d => hplain rfl trivial rfl
  | label =>
      refine (yields_reference t).bind fun r hr => .pure ⟨rfl, trivial, hr.1, ?_⟩
      simpa [operandLabels, Code.mentioned] using hr.2
  | table =>
      refine .after _ fun low => .after _ fun toks => ?_
      refine (yields_entries _ t).bind fun r hr => ?_
      refine (yields_reference r.2).bind fun r' hr' => .pure ⟨rfl, trivial, hr.1.trans hr'.1, ?_⟩
      intro id hid
      rcases List.mem_cons.mp hid with rfl | hid
      · exact hr'.2
      · exact (hr.2 id hid).mono hr'.1.names
  | member => exact .after _ fun _ => .after _ fun _ => .after _ fun _ => hplain rfl trivial rfl
  | type => exact .after _ fun s => hplain rfl trivial rfl

lemma operandKind_all : ∀ op ∈ Opcode.all, op.operandKind?.isSome = true := by decide

/-- **An instruction** that is no mark. -/
lemma yields_instruction (t : LabelTable) (tok : Token) :
    Yields (instruction t tok) fun r => r.1.Writable ∧ r.1.markedLabel? = none ∧ t.Grows r.2
      ∧ ∀ id ∈ Code.mentioned r.1, r.2.Knows id := by
  unfold instruction
  split
  · exact yields_throw _
  · exact yields_throw _
  · next op hlabel hop =>
      intro toks r rest hr
      have hmem : op ∈ Opcode.all := List.mem_of_find?_eq_some hop
      obtain ⟨kind, hkind⟩ := Option.isSome_iff_exists.mp (operandKind_all op hmem)
      rw [hkind, Option.getD_some] at hr
      dsimp only at hr
      split at hr
      · cases hr
      · next v t' rest' hoperand =>
          cases hr
          obtain ⟨hk, hfinite, hgrows, hknows⟩ := yields_operand t kind toks _ _ hoperand
          refine ⟨⟨by rw [hkind, hk], hfinite⟩, ?_, hgrows, hknows⟩
          unfold Instruction.markedLabel?
          split
          · next heq _ => exact absurd heq hlabel
          · rfl

/-- **Instructions with the table of their labels.** -/
structure Coded (t : LabelTable) (r : List Instruction × LabelTable) : Prop where
  names : t.names.length ≤ r.2.names.length
  writable : ∀ i ∈ r.1, i.Writable
  knows : ∀ i ∈ r.1, ∀ id ∈ Code.mentioned i, r.2.Knows id
  order : r.2.order = t.order ++ r.1.filterMap Instruction.markedLabel?
  nodup : t.order.Nodup → r.2.order.Nodup

lemma yields_round (t : LabelTable) : Yields (codeRound t) fun r => Coded t ([r.1], r.2) := by
  refine .after next fun tok => ?_
  split
  · split
    · next id t' hdefine =>
        obtain ⟨hnames, hknows, horder, hnew⟩ := LabelTable.define_grows hdefine
        refine .pure ⟨hnames, ?_, ?_, horder, ?_⟩
        · simp only [List.mem_singleton, forall_eq]
          exact ⟨rfl, trivial⟩
        · simpa [Code.mentioned, Instruction.mark] using hknows
        · intro hnodup
          rw [horder, List.nodup_append]
          refine ⟨hnodup, by simp, ?_⟩
          rintro a ha b hb rfl
          exact hnew (List.mem_singleton.mp hb ▸ ha)
    · exact yields_throw _
  · refine (yields_instruction t tok).mono fun r hr => ?_
    obtain ⟨hwritable, hmark, hgrows, hknows⟩ := hr
    refine ⟨hgrows.names, by simpa using hwritable, by simpa using hknows, ?_, ?_⟩
    · simp [hgrows.order, hmark]
    · rw [hgrows.order]
      exact id
  · exact yields_throw _

/-- **The instructions of a code section.** -/
lemma yields_code (t : LabelTable) : Yields (code t) (Coded t) := by
  have hall : ∀ n t, Yields (codeUpTo n t) (Coded t) := by
    intro n
    induction n with
    | zero => exact fun t => .pure ⟨le_refl _, by simp, by simp, by simp, fun h => h⟩
    | succ n ih =>
        intro t
        rw [codeUpTo_succ]
        refine .after atClose fun closes => ?_
        cases closes with
        | true => exact .pure ⟨le_refl _, by simp, by simp, by simp, fun h => h⟩
        | false =>
            refine (yields_round t).bind fun r hr => (ih r.2).bind fun r' hr' => .pure ?_
            refine ⟨hr.names.trans hr'.names, ?_, ?_, ?_, fun h => hr'.nodup (hr.nodup h)⟩
            · exact List.forall_mem_cons.mpr ⟨hr.writable r.1 (by simp), hr'.writable⟩
            · refine List.forall_mem_cons.mpr ⟨fun id hid => ?_, hr'.knows⟩
              exact (hr.knows r.1 (by simp) id hid).mono hr'.names
            · have horder := hr'.order
              rw [hr.order, List.append_assoc, ← List.filterMap_append, List.singleton_append] at horder
              exact horder
  exact .after get fun toks => hall toks.length t

/-! ## Renumbering -/

section Renumbering

variable {m : Method} {g : Label → Label}

/-- An injective map leaves the places as they are. -/
lemma idxOf_map {ι κ : Type} [BEq ι] [LawfulBEq ι] [BEq κ] [LawfulBEq κ] {g : ι → κ} {l : List ι}
    (hinj : ∀ a ∈ l, ∀ b ∈ l, g a = g b → a = b) {a : ι} (ha : a ∈ l) :
    (l.map g).idxOf (g a) = l.idxOf a := by
  induction l with
  | nil => cases ha
  | cons b l ih =>
      by_cases hab : b = a
      · subst hab
        simp
      · have hg : g b ≠ g a := fun heq => hab (hinj b List.mem_cons_self a ha heq)
        have ha' : a ∈ l := (List.mem_cons.mp ha).resolve_left fun heq => hab heq.symm
        rw [List.map_cons, List.idxOf_cons_ne _ hg, List.idxOf_cons_ne _ hab,
          ih (fun x hx y hy => hinj x (List.mem_cons_of_mem b hx) y (List.mem_cons_of_mem b hy)) ha']

lemma marks_relabel (g : Label → Label) (m : Method) : (relabel g m).code.marks = m.code.marks.map g := by
  have hmark : ∀ i : Instruction, (relabelInstruction g i).markedLabel? = i.markedLabel?.map g := by
    rintro ⟨op, o⟩
    cases op <;> cases o <;> rfl
  simp only [relabel_eq, Code.marks, Array.toList_map, List.filterMap_map, List.map_filterMap]
  congr 1
  funext i
  exact hmark i

lemma mentioned_relabel (g : Label → Label) (i : Instruction) :
    Code.mentioned (relabelInstruction g i) = (Code.mentioned i).map g := by
  obtain ⟨op, o⟩ := i
  cases o <;> rfl

lemma writable_relabel {i : Instruction} (h : i.Writable) : (relabelInstruction g i).Writable := by
  obtain ⟨op, o⟩ := i
  obtain ⟨hkind, hfinite⟩ := h
  cases o <;> exact ⟨hkind, hfinite⟩

/-- **A body with other labels** is as good, if different labels stay different. -/
lemma closed_relabel (h : m.Closed)
    (hinj : ∀ a ∈ m.code.marks, ∀ b ∈ m.code.marks, g a = g b → a = b) : (relabel g m).Closed := by
  have hmem : ∀ {id}, id ∈ m.code.marks → g id ∈ (relabel g m).code.marks := fun hid => by
    rw [marks_relabel]
    exact List.mem_map_of_mem hid
  refine ⟨?_, ?_, ?_, ?_, ?_⟩
  · rw [marks_relabel]
    exact h.once.map_on fun a ha b hb => hinj a ha b hb
  · intro i hi
    rw [relabel_eq, Array.toList_map] at hi
    obtain ⟨j, hj, rfl⟩ := List.mem_map.mp hi
    exact writable_relabel (h.instructions j hj)
  · intro i hi id hid
    rw [relabel_eq, Array.toList_map] at hi
    obtain ⟨j, hj, rfl⟩ := List.mem_map.mp hi
    rw [mentioned_relabel] at hid
    obtain ⟨id', hid', rfl⟩ := List.mem_map.mp hid
    exact hmem (h.mentioned j hj id' hid')
  · intro r hr
    obtain ⟨r', hr', rfl⟩ := List.mem_map.mp hr
    have hlabels := h.ranges r' hr'
    simp only [Code.rangeLabels, List.forall_mem_cons] at hlabels ⊢
    exact ⟨hmem hlabels.1, hmem hlabels.2.1, hmem hlabels.2.2.1, by simp⟩
  · intro v hv
    obtain ⟨v', hv', rfl⟩ := List.mem_map.mp hv
    exact ⟨hmem (h.localVars v' hv').1, hmem (h.localVars v' hv').2⟩

lemma placeIn_injOn (h : m.Closed) : ∀ a ∈ m.code.marks, ∀ b ∈ m.code.marks,
    placeIn m.code.marks a = placeIn m.code.marks b → a = b :=
  fun _ ha _ hb => (placeIn_inj h.once ha hb).mp

/-- **Labels that are numbered in order keep their numbers.** -/
lemma renumbered_renumbered (h : m.Closed) : m.renumbered.renumbered = m.renumbered := by
  rw [Method.renumbered, Method.renumbered, marks_relabel, relabel_relabel]
  refine relabel_congr h fun id hid => ?_
  rw [Function.comp_apply, placeIn, idxOf_map (placeIn_injOn h) hid]
  rfl

end Renumbering

/-! ## Methods -/

lemma yields_catch (t : LabelTable) :
    Yields (catchForm t) fun r => t.Grows r.2 ∧ ∀ id ∈ Code.rangeLabels r.1, r.2.Knows id := by
  refine (yields_reference t).bind fun start hstart => ?_
  refine (yields_reference start.2).bind fun stop hstop => ?_
  refine (yields_reference stop.2).bind fun handler hhandler => ?_
  have hlabels : ∀ type, t.Grows handler.2 ∧ ∀ id ∈ Code.rangeLabels
      ⟨type, start.1, stop.1, handler.1⟩, handler.2.Knows id := by
    refine fun type => ⟨hstart.1.trans (hstop.1.trans hhandler.1), ?_⟩
    simp only [Code.rangeLabels, List.forall_mem_cons]
    exact ⟨hstart.2.mono (hstop.1.trans hhandler.1).names, hstop.2.mono hhandler.1.names, hhandler.2,
      by simp⟩
  refine .after next fun tok => ?_
  split
  · exact .pure (hlabels _)
  split
  · exact .pure (hlabels _)
  · exact yields_throw _

lemma yields_local (t : LabelTable) :
    Yields (localForm t) fun r => t.Grows r.2 ∧ r.2.Knows r.1.start ∧ r.2.Knows r.1.stop := by
  refine .after string fun name => .after string fun desc => ?_
  refine (yields_reference t).bind fun start hstart => ?_
  refine (yields_reference start.2).bind fun stop hstop => ?_
  exact .after word fun index =>
    .pure ⟨hstart.1.trans hstop.1, hstart.2.mono hstop.1.names, hstop.2⟩

/-- **What holds of a method while its sections are read.** -/
structure Draft.Sound (params : Nat) (desc : Text) (d : Draft) : Prop where
  desc : d.method.desc = desc
  flags : Flag.Named d.method.flags
  params : d.method.paramAnnotations = [] ∨ d.method.paramAnnotations.length = params
  annotated : ∀ i names, d.method.paramAnnotations[i]? = some names → names ≠ [] → i < 2 ^ 32
  writable : ∀ i ∈ d.method.code.toList, i.Writable
  mentioned : ∀ i ∈ d.method.code.toList, ∀ id ∈ Code.mentioned i, d.table.Knows id
  ranges : ∀ r ∈ d.method.ranges, ∀ id ∈ Code.rangeLabels r, d.table.Knows id
  localVars : ∀ v ∈ d.method.localVars, d.table.Knows v.start ∧ d.table.Knows v.stop
  order : d.table.order = d.method.code.marks
  nodup : d.table.order.Nodup

/-- Annotations of one more parameter. -/
lemma annotateParam_sound {params i : Nat} {anns : List (List Text)} (names : List Text)
    (hi : i < 2 ^ 32) (hparams : anns = [] ∨ anns.length = params)
    (hannotated : ∀ j names, anns[j]? = some names → names ≠ [] → j < 2 ^ 32) :
    (annotateParam params i names anns).length = params
      ∧ ∀ j names', (annotateParam params i names anns)[j]? = some names' → names' ≠ [] → j < 2 ^ 32 := by
  unfold annotateParam
  dsimp only
  split
  · refine ⟨by simp, fun j names' hj hne => ?_⟩
    simp only [List.getElem?_modify, Option.map_eq_map, Option.map_eq_some_iff] at hj
    obtain ⟨entry, hentry, rfl⟩ := hj
    split at hne
    · omega
    · exact absurd (List.eq_of_mem_replicate (List.mem_of_getElem? hentry)) hne
  · next hsome =>
      have hlength := hparams.resolve_left (by simpa using hsome)
      refine ⟨by simp [hlength], fun j names' hj hne => ?_⟩
      simp only [List.getElem?_modify, Option.map_eq_map, Option.map_eq_some_iff] at hj
      obtain ⟨entry, hentry, rfl⟩ := hj
      split at hne
      · omega
      · exact hannotated j entry hentry hne

/-- **One section of a method.** -/
lemma yields_methodSection {params : Nat} {desc : Text} {d : Draft} (h : d.Sound params desc) (kw : Token) :
    Yields (methodSection params d kw) (Draft.Sound params desc) := by
  obtain ⟨hdesc, hflags, hparams, hannotated, hwritable, hmentioned, hranges, hlocals, horder, hnodup⟩ := h
  unfold methodSection
  refine .ite ?_ (.ite ?_ (.ite ?_ (.ite ?_ (.ite ?_ (.ite ?_ (.ite ?_ (.ite ?_ (.ite ?_ ?_))))))))
  · exact yields_flags.bind fun flags hnamed => .pure
      ⟨hdesc, hnamed, hparams, hannotated, hwritable, hmentioned, hranges, hlocals, horder, hnodup⟩
  · exact .after strings fun names => .pure
      ⟨hdesc, hflags, hparams, hannotated, hwritable, hmentioned, hranges, hlocals, horder, hnodup⟩
  · exact .after strings fun names => .pure
      ⟨hdesc, hflags, hparams, hannotated, hwritable, hmentioned, hranges, hlocals, horder, hnodup⟩
  · refine .after word fun i => .ite (yields_throw _) (.after strings fun names => .pure ?_)
    obtain ⟨hlength, hbound⟩ := annotateParam_sound names i.toNat_lt hparams hannotated
    exact ⟨hdesc, hflags, Or.inr hlength, hbound, hwritable, hmentioned, hranges, hlocals, horder, hnodup⟩
  · exact .after word fun n => .pure
      ⟨hdesc, hflags, hparams, hannotated, hwritable, hmentioned, hranges, hlocals, horder, hnodup⟩
  · exact .after word fun n => .pure
      ⟨hdesc, hflags, hparams, hannotated, hwritable, hmentioned, hranges, hlocals, horder, hnodup⟩
  · refine Yields.bind (Yields.wrap (yields_code d.table) ?_) fun r hr => .pure ?_
    · intro toks r hr
      split at hr
      · cases hr
      · next hcode =>
          cases hr
          exact hcode
    · have hcode : (d.method.code ++ r.1.toArray).toList = d.method.code.toList ++ r.1 := by simp
      refine ⟨hdesc, hflags, hparams, hannotated, ?_, ?_, ?_, ?_, ?_, hr.nodup hnodup⟩
      · rw [hcode]
        exact List.forall_mem_append.mpr ⟨hwritable, hr.writable⟩
      · rw [hcode]
        exact List.forall_mem_append.mpr
          ⟨fun i hi id hid => (hmentioned i hi id hid).mono hr.names, hr.knows⟩
      · exact fun x hx id hid => (hranges x hx id hid).mono hr.names
      · exact fun v hv => ⟨(hlocals v hv).1.mono hr.names, (hlocals v hv).2.mono hr.names⟩
      · simp only [hr.order, horder, Code.marks, hcode, List.filterMap_append]
  · refine (yields_catch d.table).bind fun r hr => .pure ?_
    obtain ⟨hgrows, hknows⟩ := hr
    refine ⟨hdesc, hflags, hparams, hannotated, hwritable, ?_, ?_, ?_, hgrows.order.trans horder,
      hgrows.order ▸ hnodup⟩
    · exact fun i hi id hid => (hmentioned i hi id hid).mono hgrows.names
    · refine List.forall_mem_append.mpr ⟨fun x hx id hid => (hranges x hx id hid).mono hgrows.names, ?_⟩
      simpa using hknows
    · exact fun v hv => ⟨(hlocals v hv).1.mono hgrows.names, (hlocals v hv).2.mono hgrows.names⟩
  · refine (yields_local d.table).bind fun r hr => .pure ?_
    obtain ⟨hgrows, hknows⟩ := hr
    refine ⟨hdesc, hflags, hparams, hannotated, hwritable, ?_, ?_, ?_, hgrows.order.trans horder,
      hgrows.order ▸ hnodup⟩
    · exact fun i hi id hid => (hmentioned i hi id hid).mono hgrows.names
    · exact fun x hx id hid => (hranges x hx id hid).mono hgrows.names
    · refine List.forall_mem_append.mpr
        ⟨fun v hv => ⟨(hlocals v hv).1.mono hgrows.names, (hlocals v hv).2.mono hgrows.names⟩, ?_⟩
      simpa using hknows
  · exact yields_throw _

/-- The sections of a method. -/
lemma yields_methodSections {params : Nat} {desc : Text} (n : Nat) {d : Draft} (h : d.Sound params desc) :
    Yields (methodSections params n d) (Draft.Sound params desc) := by
  induction n generalizing d with
  | zero => exact .pure h
  | succ n ih =>
      refine .after atClose fun closes => ?_
      cases closes with
      | true => exact .pure h
      | false =>
          refine .after _ fun _ => .after _ fun kw => ?_
          exact (yields_methodSection h kw).bind fun d' hd' => .after _ fun _ => ih hd'

/-- Every label that a complete table knows is defined. -/
lemma LabelTable.mem_order {t : LabelTable} (h : t.undefined? = none) {id : Label} (hid : t.Knows id) :
    id ∈ t.order := by
  have hall : ∀ (names : List (Text × Nat)) (i : Nat), firstUndefined? t.order names i = none →
      ∀ j, i ≤ j → j < i + names.length → UInt32.ofNat j ∈ t.order := by
    intro names
    induction names with
    | nil => intro i _ j hj hj'; simp at hj'; omega
    | cons entry names ih =>
        intro i hnone j hj hj'
        simp only [firstUndefined?] at hnone
        split at hnone
        · next hmem =>
            rcases Nat.eq_or_lt_of_le hj with rfl | hlt
            · simpa using hmem
            · exact ih (i + 1) hnone j hlt (by simp at hj'; omega)
        · cases hnone
  obtain ⟨j, hj, rfl⟩ := hid
  exact hall t.names 0 h j (Nat.zero_le j) (by omega)

/-- The body of a complete draft. -/
lemma Draft.Sound.closed {params : Nat} {desc : Text} {d : Draft} (h : d.Sound params desc)
    (hnone : d.table.undefined? = none) : d.method.Closed := by
  have hmem : ∀ {id}, d.table.Knows id → id ∈ d.method.code.marks := fun hid =>
    h.order ▸ LabelTable.mem_order hnone hid
  exact ⟨h.order ▸ h.nodup, h.writable, fun i hi id hid => hmem (h.mentioned i hi id hid),
    fun r hr id hid => hmem (h.ranges r hr id hid),
    fun v hv => ⟨hmem (h.localVars v hv).1, hmem (h.localVars v hv).2⟩⟩

/-- A method whose labels are numbered in order. -/
def InOrder (m : Method) : Prop := m.Writable ∧ m.renumbered = m

/-- The place of a definition. -/
lemma LabelTable.place_eq {t : LabelTable} {id : Label} (hid : id ∈ t.order) :
    t.place id = placeIn t.order id := by
  have hfind : t.order.findIdx? (· == id) = some (t.order.idxOf id) :=
    List.findIdx?_eq_some_of_exists ⟨id, hid, by simp⟩
  rw [LabelTable.place, hfind]
  rfl

/-- **What a complete draft becomes**: all labels are defined, and get the places of their definitions. -/
lemma Draft.finish_eq {d : Draft} {params : Nat} {m : Method} (h : d.finish params = .ok m) :
    d.table.undefined? = none
      ∧ ∃ maxLocals maxStack, m = { relabel d.table.place d.method with maxLocals, maxStack } := by
  unfold Draft.finish at h
  split at h
  · cases h
  next hnone =>
  refine ⟨hnone, ?_⟩
  dsimp only at h
  generalize hlocals : (if d.hasLocals = true then relabel d.table.place d.method
    else { relabel d.table.place d.method with
      maxLocals := inferLocals (relabel d.table.place d.method) params }) = m₁ at h
  have hm₁ : ∃ maxLocals, m₁ = { relabel d.table.place d.method with maxLocals } := by
    subst hlocals
    split
    · exact ⟨_, rfl⟩
    · exact ⟨_, rfl⟩
  obtain ⟨maxLocals, rfl⟩ := hm₁
  split at h
  · cases h
    exact ⟨_, _, rfl⟩
  split at h
  · cases h
  · cases h
    exact ⟨_, _, rfl⟩

/-- **A complete method** can be written, and its labels are numbered in order. -/
lemma Draft.Sound.finish {d : Draft} {desc : Text} {parsed : Descriptor.Method} {m : Method}
    (hparsed : Descriptor.parseMethod desc = .ok parsed) (h : d.Sound parsed.params.length desc)
    (hfinish : d.finish parsed.params.length = .ok m) : InOrder m := by
  obtain ⟨hnone, hm⟩ := Draft.finish_eq hfinish
  have hclosed := h.closed hnone
  have hplace : relabel d.table.place d.method = d.method.renumbered := by
    refine relabel_congr hclosed fun id hid => ?_
    rw [LabelTable.place_eq (h.order ▸ hid), h.order]
  rw [hplace] at hm
  obtain ⟨maxLocals, maxStack, rfl⟩ := hm
  have hrenumbered := closed_relabel hclosed (placeIn_injOn hclosed)
  have hcount : ∀ m : Method, m.desc = desc → m.paramCount = parsed.params.length := by
    intro m hm
    rw [Method.paramCount, hm, hparsed]
  refine ⟨⟨h.flags, ⟨parsed, ?_⟩, ?_, h.annotated, fun _ => ?_⟩, ?_⟩
  · rw [← hparsed, ← h.desc]
    rfl
  · have hparams := h.params
    rwa [← hcount { d.method.renumbered with maxLocals, maxStack } h.desc] at hparams
  · exact ⟨hrenumbered.once, hrenumbered.instructions, hrenumbered.mentioned, hrenumbered.ranges,
      hrenumbered.localVars⟩
  · have hagain := renumbered_renumbered hclosed
    have hwith : ∀ m : Method, Method.renumbered { m with maxLocals, maxStack }
        = { m.renumbered with maxLocals, maxStack } := fun _ => rfl
    rw [hwith, hagain]

lemma Draft.sound_start (params : Nat) (name desc : Text) :
    Draft.Sound params desc { method := { name, desc } } :=
  ⟨rfl, Flag.named_zero, Or.inl rfl, by simp, by simp, by simp, by simp, by simp, rfl, List.nodup_nil⟩

lemma yields_method : Yields method InOrder := by
  refine .after string fun name => .after string fun desc => ?_
  split
  · exact yields_throw _
  · next parsed hparsed =>
      have hstart := Draft.sound_start parsed.params.length name desc
      refine .after get fun toks => (yields_methodSections _ hstart).bind fun d hd => ?_
      split
      · next m hm => exact .pure (hd.finish hparsed hm)
      · exact yields_throw _

/-! ## Classes -/

/-- **What holds of a class while its sections are read.** -/
structure ClassSound (c : Class) : Prop where
  flags : Flag.Named c.flags
  fields : ∀ f ∈ c.fields, Flag.Named f.flags
  methods : ∀ m ∈ c.methods, InOrder m

lemma yields_classSection {c : Class} (h : ClassSound c) (kw : Token) :
    Yields (classSection c kw) ClassSound := by
  obtain ⟨hflags, hfields, hmethods⟩ := h
  unfold classSection
  refine .ite ?_ (.ite ?_ (.ite ?_ (.ite ?_ (.ite ?_ (.ite ?_ ?_)))))
  · exact .after string fun _ => .pure ⟨hflags, hfields, hmethods⟩
  · exact .after strings fun _ => .pure ⟨hflags, hfields, hmethods⟩
  · exact .after strings fun _ => .pure ⟨hflags, hfields, hmethods⟩
  · exact yields_flags.bind fun flags hnamed => .pure ⟨hnamed, hfields, hmethods⟩
  · have hfield : Yields field fun f => Flag.Named f.flags :=
      .after string fun _ => .after string fun _ => yields_flags.bind fun _ hnamed => .pure hnamed
    exact hfield.bind fun f hf => .pure
      ⟨hflags, List.forall_mem_append.mpr ⟨hfields, by simpa using hf⟩, hmethods⟩
  · refine Yields.bind (Yields.wrap yields_method ?_) fun m hm => .pure
      ⟨hflags, hfields, List.forall_mem_append.mpr ⟨hmethods, by simpa using hm⟩⟩
    intro toks r hr
    split at hr
    · cases hr
    · next hmethod =>
        cases hr
        exact hmethod
  · exact yields_throw _

lemma yields_classForm : Yields classForm ClassSound := by
  have hsections : ∀ n c, ClassSound c → Yields (classSections n c) ClassSound := by
    intro n
    induction n with
    | zero => exact fun c hc => .pure hc
    | succ n ih =>
        intro c hc
        refine .after atClose fun closes => ?_
        cases closes with
        | true => exact .pure hc
        | false =>
            refine .after _ fun _ => .after _ fun kw => ?_
            exact (yields_classSection hc kw).bind fun c' hc' => .after _ fun _ => ih c' hc'
  refine .after _ fun _ => .after _ fun _ => .after string fun name => .after get fun toks => ?_
  exact (hsections _ _ ⟨Flag.named_zero, by simp, by simp⟩).bind fun c hc => .after _ fun _ => .pure hc

/-- **The classes of texts** can be written, and their labels are numbered in order. -/
theorem single_sound {src : Text} {c : Class} (h : single src = .ok c) : ClassSound c := by
  have hforms : ∀ n, Yields (classForms n) fun cs => ∀ c ∈ cs, ClassSound c := by
    intro n
    induction n with
    | zero => exact .pure (by simp)
    | succ n ih =>
        refine .after get fun toks => .ite (.pure (by simp)) ?_
        exact yields_classForm.bind fun c hc => ih.bind fun cs hcs =>
          .pure (List.forall_mem_cons.mpr ⟨hc, hcs⟩)
  have hclasses : ∀ cs, classes src = .ok cs → ∀ c ∈ cs, ClassSound c := by
    intro cs hcs
    unfold classes at hcs
    split at hcs
    · cases hcs
    split at hcs
    · cases hcs
    next htokens =>
    cases hcs
    unfold ofTokens at htokens
    split at htokens
    · cases htokens
    · cases htokens
    · next hrun =>
        cases htokens
        exact hforms _ _ _ _ hrun
  unfold single at h
  split at h
  · cases h
  · next hone =>
      cases h
      exact hclasses _ hone c (by simp)
  · cases h

end Assembly

end Suspension
