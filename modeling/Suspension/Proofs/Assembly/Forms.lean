import Suspension.Proofs.Assembly.Body

/-!
# Classes that are read back

**What is read of a printed class.**  Whatever has an element of its own in the text is read back; what the
printer leaves out gets its default: the superclass, annotations of parameters that are all empty, and the
measures of a method without body.  Labels are numbered in order of definition.

* `Method.Writable`, `Class.Writable` — the classes whose text can be read.
* `Method.reread`, `Class.reread` — what is read.
* `Assembly.reads_method`, `Assembly.single_disassemble` — the text of a method and of a class.
-/

namespace Suspension

/-- Flags that all have a word. -/
def Flag.Named (flags : UInt32) : Prop := flags &&& Flag.named = flags

instance : DecidablePred Flag.Named := fun _ => inferInstanceAs (Decidable (_ = _))

namespace Method

/-- The number of parameters that the descriptor declares. -/
def paramCount (m : Method) : Nat :=
  match Descriptor.parseMethod m.desc with
  | .ok d => d.params.length
  | .error _ => 0

/-- The labels by their places in the body. -/
def renumbered (m : Method) : Method := Assembly.relabel (Assembly.placeIn m.code.marks) m

/-- **A body that can be written**: labels are defined once and before all others are mentioned. -/
@[mk_iff]
structure Closed (m : Method) : Prop where
  once : m.code.marks.Nodup
  instructions : ∀ i ∈ m.code.toList, i.Writable
  mentioned : ∀ i ∈ m.code.toList, ∀ id ∈ Code.mentioned i, id ∈ m.code.marks
  ranges : ∀ r ∈ m.ranges, ∀ id ∈ Code.rangeLabels r, id ∈ m.code.marks
  localVars : ∀ v ∈ m.localVars, v.start ∈ m.code.marks ∧ v.stop ∈ m.code.marks

instance (m : Method) : Decidable m.Closed :=
  -- labels are words, but not all words are to be tried
  have (ids : List Label) : Decidable (∀ id ∈ ids, id ∈ m.code.marks) := List.decidableBAll _ ids
  decidable_of_iff _ (closed_iff m).symm

/-- **A method whose text can be read.** -/
@[mk_iff]
structure Writable (m : Method) : Prop where
  flags : Flag.Named m.flags
  desc : ∃ d, Descriptor.parseMethod m.desc = .ok d
  params : m.paramAnnotations = [] ∨ m.paramAnnotations.length = m.paramCount
  /-- the number of an annotated parameter is a word of 32 bits, as are all counts that are read from class
  files (`Method.Holdable`) and all numbers of parameters that are read from texts -/
  annotated : ∀ i names, m.paramAnnotations[i]? = some names → names ≠ [] → i < 2 ^ 32
  body : m.hasBody = true → m.Closed

lemma annotated_iff {anns : List (List Text)} {bound : Nat} :
    (∀ i names, anns[i]? = some names → names ≠ [] → i < bound) ↔ ∀ names ∈ anns.drop bound, names = [] := by
  constructor
  · intro h names hmem
    obtain ⟨i, hi⟩ := List.mem_iff_getElem?.mp hmem
    rw [List.getElem?_drop] at hi
    by_contra hne
    have := h _ names hi hne
    omega
  · intro h i names hi hne
    by_contra hge
    refine hne (h names (List.mem_iff_getElem?.mpr ⟨i - bound, ?_⟩))
    rw [List.getElem?_drop, Nat.add_sub_cancel' (by omega)]
    exact hi

instance (m : Method) : Decidable m.Writable :=
  have : Decidable (∃ d, Descriptor.parseMethod m.desc = .ok d) :=
    match h : Descriptor.parseMethod m.desc with
    | .ok d => isTrue ⟨d, rfl⟩
    | .error _ => isFalse (by simp)
  have : Decidable (∀ i names, m.paramAnnotations[i]? = some names → names ≠ [] → i < 2 ^ 32) :=
    decidable_of_iff _ annotated_iff.symm
  decidable_of_iff _ (writable_iff m).symm

/-- The annotations of the parameters, if there are any. -/
def presentAnnotations (m : Method) : List (List Text) :=
  if m.paramAnnotations.all List.isEmpty then [] else m.paramAnnotations

/-- **What is read of a method's text.** -/
def reread (m : Method) : Method :=
  if m.hasBody then { m.renumbered with paramAnnotations := m.presentAnnotations }
  else { m with
    paramAnnotations := m.presentAnnotations
    maxLocals := UInt32.ofNat (m.paramCount + m.receiverCount)
    maxStack := 0, code := #[], ranges := [], localVars := [] }

end Method

namespace Class

/-- **A class whose text can be read.** -/
@[mk_iff]
structure Writable (c : Class) : Prop where
  flags : Flag.Named c.flags
  fields : ∀ f ∈ c.fields, Flag.Named f.flags
  methods : ∀ m ∈ c.methods, m.Writable

instance (c : Class) : Decidable c.Writable := decidable_of_iff _ (writable_iff c).symm

/-- **What is read of a class's text.** -/
def reread (c : Class) : Class :=
  { c with
    super := if c.super.isEmpty && c.name != ClassName.object then ClassName.object else c.super
    methods := c.methods.map Method.reread }

end Class

namespace Assembly

open Token

/-! ## Sections -/

section Sections

variable {σ α : Type} {sections : Nat → σ → Parse σ} {sect : σ → Token → Parse σ}

/-- Sections of the same kind. -/
lemma Passes.flatMap {xs : List α} {f : α → Text} {P : List α → σ → Prop}
    (h : ∀ pre x, x ∈ xs → Passes sections (f x) (P pre) (P (pre ++ [x]))) :
    Passes sections (xs.flatMap f) (P []) (P xs) := by
  have hall : ∀ ys pre, (∀ x ∈ ys, x ∈ xs) → Passes sections (ys.flatMap f) (P pre) (P (pre ++ ys)) := by
    intro ys
    induction ys with
    | nil => exact fun pre _ => .nil fun s hs => by rwa [List.append_nil]
    | cons x ys ih =>
        intro pre hys
        rw [List.flatMap_cons]
        have hrest := ih (pre ++ [x]) fun y hy => hys y (List.mem_cons_of_mem x hy)
        rw [List.append_assoc, List.singleton_append] at hrest
        exact (h pre x (hys x List.mem_cons_self)).append hrest
  exact hall xs [] fun _ hx => hx

/-- A section that sets what it is about. -/
lemma Passes.set (hsections : IsSections sections sect) {indent keyword : String} {text : Text}
    (hopening : IsOpening indent keyword) {s s' : σ}
    (h : ∀ tok, tok.value = Text.ofString keyword → Reads AtClose (sect s tok) text fun x => x = s') :
    Passes sections (formText indent keyword text) (fun x => x = s) fun x => x = s' := by
  refine Passes.form hsections hopening ?_
  rintro _ rfl tok htok
  exact h tok htok

/-- Quoted names up to the end of a form. -/
lemma reads_quotedNames (names : List Text) :
    Reads AtClose strings (Text.ofString " " ++ quotedNames names) fun a => a = names := by
  refine Reads.join ?_
  rw [List.flatMap_map]
  exact reads_strings names

/-- A section of flags, left out when none is set. -/
lemma Passes.flags (hsections : IsSections sections sect) {indent keyword : String}
    (hopening : IsOpening indent keyword) {flags : UInt32} (hflags : Flag.Named flags)
    (f : UInt32 → σ) (h : ∀ tok, tok.value = Text.ofString keyword →
      sect (f 0) tok = do return f (← Assembly.flags)) :
    Passes sections (Assembly.optional (flags != 0) (sectionLine indent keyword (flagWords flags)))
      (fun x => x = f 0) fun x => x = f flags := by
  refine .optional (fun _ => ?_) fun hnone => ?_
  · rw [sectionLine_eq]
    refine .set hsections hopening fun tok htok => ?_
    rw [h tok htok]
    exact (reads_flags flags hflags).map fun _ hread => by rw [hread]
  · obtain rfl : flags = 0 := by simpa using hnone
    exact fun _ hs => hs

/-- A section of names, left out when there are none. -/
lemma Passes.names (hsections : IsSections sections sect) {indent keyword : String}
    (hopening : IsOpening indent keyword) (names : List Text) (f : List Text → σ)
    (h : ∀ tok, tok.value = Text.ofString keyword → sect (f []) tok = do return f (← strings)) :
    Passes sections (Assembly.optional (!names.isEmpty) (sectionLine indent keyword (quotedNames names)))
      (fun x => x = f []) fun x => x = f names := by
  refine .optional (fun _ => ?_) fun hnone => ?_
  · rw [sectionLine_eq]
    refine .set hsections hopening fun tok htok => ?_
    rw [h tok htok]
    exact (reads_quotedNames names).map fun _ hread => by rw [hread]
  · obtain rfl : names = [] := by simpa using hnone
    exact fun _ hs => hs

end Sections

/-! ## Annotations of parameters -/

lemma isSections_method (params : Nat) : IsSections (methodSections params) (methodSection params) :=
  ⟨fun _ => rfl, fun _ _ => rfl⟩

/-- The annotations of the first `i` parameters, as the reader keeps them. -/
def annotationsUpTo (anns : List (List Text)) (i : Nat) : List (List Text) :=
  if (anns.take i).all List.isEmpty then []
  else anns.take i ++ List.replicate (anns.length - i) []

variable {anns : List (List Text)} {i : Nat}

/-- A parameter with annotations. -/
lemma annotateParam_step (hi : i < anns.length) (hsome : anns[i] ≠ []) :
    annotateParam anns.length i anns[i] (annotationsUpTo anns i) = annotationsUpTo anns (i + 1) := by
  have hfilled : (if (annotationsUpTo anns i).isEmpty then List.replicate anns.length []
      else annotationsUpTo anns i) = anns.take i ++ List.replicate (anns.length - i) [] := by
    unfold annotationsUpTo
    by_cases hall : (anns.take i).all List.isEmpty = true
    · have hzeros : anns.take i = List.replicate i [] := by
        rw [List.eq_replicate_iff]
        exact ⟨by simp; omega, fun x hx => List.isEmpty_iff.mp (List.all_eq_true.mp hall x hx)⟩
      rw [if_pos hall, List.isEmpty_nil, if_pos rfl, hzeros, List.replicate_append_replicate]
      congr 1
      omega
    · have hne : anns.take i ≠ [] := by
        rintro hnil
        rw [hnil] at hall
        exact hall rfl
      rw [if_neg hall, if_neg (by simp [hne])]
  have hlength : (anns.take i).length = i := by simp; omega
  have hnext : ¬ (anns.take (i + 1)).all List.isEmpty = true := by
    rw [← List.take_append_getElem hi, List.all_append]
    simp only [List.all_cons, List.isEmpty_iff, hsome, Bool.and_eq_true, false_and, and_false,
      not_false_eq_true]
  have hrest : anns.length - i = (anns.length - (i + 1)) + 1 := by omega
  -- the entry of the parameter is empty so far
  have hmodify : ∀ k, (anns.take i ++ [] :: List.replicate k []).modify i (· ++ anns[i])
      = anns.take i ++ anns[i] :: List.replicate k [] := by
    intro k
    rw [List.modify_eq_take_cons_drop (by simp; omega), List.take_left' hlength,
      List.getElem_append_right (by omega)]
    simp [hlength, List.drop_append]
  unfold annotateParam
  simp only [hfilled]
  rw [hrest, List.replicate_succ, hmodify, annotationsUpTo, if_neg hnext,
    ← List.take_append_getElem hi, List.append_assoc, List.singleton_append]

lemma annotationsUpTo_skip (hi : i < anns.length) (hnone : anns[i] = []) :
    annotationsUpTo anns (i + 1) = annotationsUpTo anns i := by
  have hrest : anns.length - i = (anns.length - (i + 1)) + 1 := by omega
  unfold annotationsUpTo
  rw [← List.take_append_getElem hi, hnone, List.all_append, hrest, List.replicate_succ,
    List.append_assoc]
  simp

lemma annotationsUpTo_all (anns : List (List Text)) :
    annotationsUpTo anns anns.length = if anns.all List.isEmpty then [] else anns := by
  simp [annotationsUpTo]

section Method

variable {m : Method} {d : Draft}

/-- One line of annotations. -/
lemma passes_paramLine {params i : Nat} (hi : i < params) (hi' : i < 2 ^ 32) (names : List Text) :
    Passes (methodSections params) (sectionLine "\n    " "param-annotation"
      (Text.ofNat i ++ Text.ofString " " ++ quotedNames names)) (fun x => x = d) fun x => x =
      { d with method := { d.method with
        paramAnnotations := annotateParam params i names d.method.paramAnnotations } } := by
  have hword : (UInt32.ofNat i).toNat = i := UInt32.toNat_ofNat_of_lt' hi'
  rw [sectionLine_eq, List.append_assoc, ← List.append_assoc (Text.ofString " ")]
  refine .set (isSections_method params) ⟨by decide, by decide⟩ fun tok htok => ?_
  have hsect : methodSection params d tok = (do
      let i ← word
      if params ≤ i.toNat then throw (.parameterOutOfRange tok.line i.toNat)
      let names ← strings
      return { d with method :=
        { d.method with paramAnnotations := annotateParam params i.toNat names d.method.paramAnnotations } })
        := by
    unfold methodSection
    rw [htok]
    rfl
  rw [hsect]
  have hread := reads_word (UInt32.ofNat i)
  rw [hword] at hread
  refine hread.bind ?_
  rintro _ rfl
  rw [hword, if_neg (by omega)]
  exact (reads_quotedNames names).map fun _ hnames => by rw [hnames]

/-- A draft with annotations of its parameters. -/
def annotated (d : Draft) (anns : List (List Text)) : Draft :=
  { d with method := { d.method with paramAnnotations := anns } }

/-- **All lines of annotations.** -/
lemma passes_paramLines (d : Draft) (hbound : ∀ i names, anns[i]? = some names → names ≠ [] → i < 2 ^ 32) :
    Passes (methodSections anns.length) (paramLines anns 0) (fun x => x = annotated d [])
      fun x => x = annotated d (annotationsUpTo anns anns.length) := by
  have hall : ∀ (rest : List (List Text)) (i : Nat), rest = anns.drop i → i ≤ anns.length →
      Passes (methodSections anns.length) (paramLines rest i)
        (fun x => x = annotated d (annotationsUpTo anns i))
        fun x => x = annotated d (annotationsUpTo anns anns.length) := by
    intro rest
    induction rest with
    | nil =>
        intro i hrest hi
        obtain rfl : i = anns.length := by
          have := List.drop_eq_nil_iff.mp hrest.symm
          omega
        exact .nil fun _ hs => hs
    | cons names rest ih =>
        intro i hrest hi
        have hlt : i < anns.length := by
          by_contra hge
          rw [List.drop_of_length_le (by omega)] at hrest
          cases hrest
        rw [List.drop_eq_getElem_cons hlt] at hrest
        obtain ⟨rfl, htail⟩ := List.cons.inj hrest
        refine .append (.optional (fun hsome => ?_) fun hnone => ?_) (ih (i + 1) htail (by omega))
        · have hne : anns[i] ≠ [] := by simpa using hsome
          have hline := passes_paramLine (d := annotated d (annotationsUpTo anns i)) hlt
            (hbound i anns[i] (List.getElem?_eq_getElem hlt) hne) anns[i]
          simp only [annotated, annotateParam_step hlt hne] at hline
          exact hline
        · have hempty : anns[i] = [] := by simpa using hnone
          rw [annotationsUpTo_skip hlt hempty]
          exact fun _ hs => hs
  exact hall anns 0 rfl (Nat.zero_le _)

/-! ## Bodies -/

/-- **A draft of a body** whose labels are those of its table. -/
structure Drafted (scope ds : List Label) (m : Method) (d : Draft) : Prop where
  hasLocals : d.hasLocals = true
  hasStack : d.hasStack = true
  numbered : Numbered scope [] ds (fun g => relabel g m) (d.method, d.table)

/-- The section of the code. -/
lemma passes_code {params : Nat} (h : m.Closed) (hranges : m.ranges = []) (hvars : m.localVars = []) :
    Passes (methodSections params) (formText "\n    " "code" (m.code.toList.flatMap codeLine))
      (fun x => x = { method := { m with code := #[] }, hasLocals := true, hasStack := true })
      (Drafted m.code.marks m.code.marks m) := by
  refine .form (isSections_method params) ⟨by decide, by decide⟩ ?_
  rintro _ rfl tok htok
  generalize hd : ({ method := { m with code := #[] }, hasLocals := true, hasStack := true } : Draft) = d
  obtain ⟨q, hq, hsect⟩ : ∃ q : Parse (List Instruction × LabelTable),
      (∀ toks r, code d.table toks = .ok r → q toks = .ok r) ∧
        methodSection params d tok = (do
          let r ← q
          return { d with
            method := { d.method with code := d.method.code ++ r.1.toArray }
            table := r.2 }) := by
    unfold methodSection
    rw [htok]
    refine ⟨_, ?_, rfl⟩
    intro toks r hr
    simp only [hr]
  rw [hsect]
  have hcode : Reads AtClose (code d.table) (m.code.toList.flatMap codeLine)
      (Numbered m.code.marks [] m.code.marks fun g => m.code.toList.map (relabelInstruction g)) := by
    subst hd
    have hread := readsUpTo_code (LabelTable.holds_empty m.code.marks) h.instructions h.mentioned
      (by simpa [Code.marks] using h.once)
    exact hread.start 0
  refine (hcode.wrap hq).map fun r hr => ?_
  subst hd
  refine ⟨rfl, rfl, ?_⟩
  obtain ⟨ids', hpre, hholds, hr⟩ := hr
  refine ⟨ids', hpre, hholds, fun ids'' hpre'' => ?_⟩
  have hmap : #[] ++ (m.code.toList.map (relabelInstruction (placeIn ids''))).toArray
      = m.code.map (relabelInstruction (placeIn ids'')) := by
    rw [Array.empty_append, ← Array.toList_map, Array.toArray_toList]
  simp only [hr ids'' hpre'', relabel, hranges, hvars, hmap]
  rfl

/-- A range is added to a draft. -/
lemma passes_catch {params : Nat} {scope ds : List Label} {r : ExceptionRange}
    (hscope : ∀ id ∈ Code.rangeLabels r, id ∈ scope) (rs : List ExceptionRange) :
    Passes (methodSections params) (catchLine r) (Drafted scope ds { m with ranges := rs })
      (Drafted scope ds { m with ranges := rs ++ [r] }) := by
  rw [catchLine_eq]
  refine .form (isSections_method params) ⟨by decide, by decide⟩ fun d hd tok htok => ?_
  have hsect : methodSection params d tok = (do
      let r ← catchForm d.table
      return { d with
        method := { d.method with ranges := d.method.ranges ++ [r.1] }
        table := r.2 }) := by
    unfold methodSection
    rw [htok]
    rfl
  rw [hsect]
  obtain ⟨hlocals, hstack, ids, -, hholds, hmethod⟩ := hd
  refine ((reads_catch hholds hscope).map fun x hx => ?_).of_anything
  obtain ⟨ids', hpre, hholds', hx⟩ := hx
  refine ⟨hlocals, hstack, ids', List.nil_prefix, hholds', fun ids'' hpre'' => ?_⟩
  have hd : d.method = relabel (placeIn ids'') { m with ranges := rs } := hmethod ids'' (hpre.trans hpre'')
  simp only [hx ids'' hpre'', hd, relabel, List.map_append]
  rfl

/-- The name of a local is added to a draft. -/
lemma passes_local {params : Nat} {scope ds : List Label} {v : LocalVar} (hstart : v.start ∈ scope)
    (hstop : v.stop ∈ scope) (vs : List LocalVar) :
    Passes (methodSections params) (localLine v) (Drafted scope ds { m with localVars := vs })
      (Drafted scope ds { m with localVars := vs ++ [v] }) := by
  rw [localLine_eq]
  refine .form (isSections_method params) ⟨by decide, by decide⟩ fun d hd tok htok => ?_
  have hsect : methodSection params d tok = (do
      let r ← localForm d.table
      return { d with
        method := { d.method with localVars := d.method.localVars ++ [r.1] }
        table := r.2 }) := by
    unfold methodSection
    rw [htok]
    rfl
  rw [hsect]
  obtain ⟨hlocals, hstack, ids, -, hholds, hmethod⟩ := hd
  refine ((reads_local hholds hstart hstop).map fun x hx => ?_).of_anything
  obtain ⟨ids', hpre, hholds', hx⟩ := hx
  refine ⟨hlocals, hstack, ids', List.nil_prefix, hholds', fun ids'' hpre'' => ?_⟩
  have hd : d.method = relabel (placeIn ids'') { m with localVars := vs } :=
    hmethod ids'' (hpre.trans hpre'')
  simp only [hx ids'' hpre'', hd, relabel, List.map_append]
  rfl

/-- The largest number of locals, or of operands. -/
lemma passes_measure {params : Nat} {indent keyword : String} (hopening : IsOpening indent keyword)
    {d : Draft} (n : UInt32) (f : UInt32 → Draft)
    (h : ∀ tok, tok.value = Text.ofString keyword → methodSection params d tok = do return f (← word)) :
    Passes (methodSections params) (sectionLine indent keyword (Text.ofNat n.toNat)) (fun x => x = d)
      fun x => x = f n := by
  rw [sectionLine_eq]
  refine .set (isSections_method params) hopening fun tok htok => ?_
  rw [h tok htok]
  exact ((reads_word n).map fun _ hread => by rw [hread]).of_anything

/-- **The sections of a body.** -/
lemma passes_body {params : Nat} (h : m.Closed) :
    Passes (methodSections params) (bodyLines m)
      (fun x => x = { method := { m with
        maxLocals := 0, maxStack := 0, code := #[], ranges := [], localVars := [] } })
      (Drafted m.code.marks m.code.marks m) := by
  have hcode : (Text.ofString "\n    (code" ++ m.code.toList.flatMap codeLine ++ Text.ofString ")")
      = formText "\n    " "code" (m.code.toList.flatMap codeLine) := rfl
  have htext : bodyLines m = sectionLine "\n    " "locals" (Text.ofNat m.maxLocals.toNat)
      ++ (sectionLine " " "stack" (Text.ofNat m.maxStack.toNat)
      ++ (formText "\n    " "code" (m.code.toList.flatMap codeLine)
      ++ (m.ranges.flatMap catchLine ++ m.localVars.flatMap localLine))) := by
    rw [← hcode]
    simp only [bodyLines, List.append_assoc]
  rw [htext]
  refine (passes_measure ⟨by decide, by decide⟩ m.maxLocals (fun n => ⟨{ m with
    maxLocals := n, maxStack := 0, code := #[], ranges := [], localVars := [] }, {}, true, false⟩)
    fun tok htok => ?_).append ?_
  · unfold methodSection
    rw [htok]
    rfl
  refine (passes_measure ⟨by decide, by decide⟩ m.maxStack (fun n => ⟨{ m with
    maxStack := n, code := #[], ranges := [], localVars := [] }, {}, true, true⟩)
    fun tok htok => ?_).append ?_
  · unfold methodSection
    rw [htok]
    rfl
  have hbare : ({ m with ranges := [], localVars := [] } : Method).Closed :=
    ⟨h.once, h.instructions, h.mentioned, by simp, by simp⟩
  have hcatch : Passes (methodSections params) (m.ranges.flatMap catchLine)
      (Drafted m.code.marks m.code.marks { m with ranges := [], localVars := [] })
      (Drafted m.code.marks m.code.marks { m with localVars := [] }) :=
    Passes.flatMap (P := fun rs => Drafted m.code.marks m.code.marks { m with ranges := rs, localVars := [] })
      fun rs r hr => passes_catch (m := { m with localVars := [] }) (h.ranges r hr) rs
  have hlocal : Passes (methodSections params) (m.localVars.flatMap localLine)
      (Drafted m.code.marks m.code.marks { m with localVars := [] })
      (Drafted m.code.marks m.code.marks m) :=
    Passes.flatMap (P := fun vs => Drafted m.code.marks m.code.marks { m with localVars := vs })
      fun vs v hv => passes_local (h.localVars v hv).1 (h.localVars v hv).2 vs
  exact (passes_code hbare rfl rfl).append (hcatch.append hlocal)

/-! ## Methods -/

lemma relabel_eq (g : Label → Label) (m : Method) : relabel g m = { m with
    code := m.code.map (relabelInstruction g)
    ranges := m.ranges.map (relabelRange g)
    localVars := m.localVars.map (relabelVar g) } := rfl

/-- Labels are exchanged twice. -/
lemma relabel_relabel (f g : Label → Label) (m : Method) :
    relabel f (relabel g m) = relabel (f ∘ g) m := by
  have hinstruction : relabelInstruction f ∘ relabelInstruction g = relabelInstruction (f ∘ g) := by
    funext ⟨op, o⟩
    cases o <;> simp [relabelInstruction, relabelOperand]
  have hrange : relabelRange f ∘ relabelRange g = relabelRange (f ∘ g) := rfl
  have hvar : relabelVar f ∘ relabelVar g = relabelVar (f ∘ g) := rfl
  simp only [relabel_eq, Array.map_map, List.map_map, hinstruction, hrange, hvar]

/-- Only the labels of the body matter. -/
lemma relabel_congr (h : m.Closed) {f g : Label → Label} (hall : ∀ id ∈ m.code.marks, f id = g id) :
    relabel f m = relabel g m := by
  have hcode : m.code.map (relabelInstruction f) = m.code.map (relabelInstruction g) := by
    refine Array.map_congr_left fun i hi => ?_
    have hmentioned := h.mentioned i (Array.mem_toList_iff.mpr hi)
    obtain ⟨op, o⟩ := i
    cases o with
    | label id => simp [relabelInstruction, relabelOperand, hall id (hmentioned id (by simp [Code.mentioned]))]
    | table low labels default =>
        have hlabels : labels.map f = labels.map g := List.map_congr_left fun id hid =>
          hall id (hmentioned id (by simp [Code.mentioned, hid]))
        simp only [relabelInstruction, relabelOperand, hlabels,
          hall default (hmentioned default (by simp [Code.mentioned]))]
    | _ => rfl
  have hranges : m.ranges.map (relabelRange f) = m.ranges.map (relabelRange g) := by
    refine List.map_congr_left fun r hr => ?_
    have hr := h.ranges r hr
    simp only [Code.rangeLabels, List.forall_mem_cons] at hr
    simp [relabelRange, hall _ hr.1, hall _ hr.2.1, hall _ hr.2.2.1]
  have hvars : m.localVars.map (relabelVar f) = m.localVars.map (relabelVar g) := by
    refine List.map_congr_left fun v hv => ?_
    simp [relabelVar, hall _ (h.localVars v hv).1, hall _ (h.localVars v hv).2]
  simp only [relabel_eq, hcode, hranges, hvars]

/-- **A complete body.** -/
lemma Drafted.finish (h : m.Closed) (hd : Drafted m.code.marks m.code.marks m d) (params : Nat) :
    d.finish params = .ok m.renumbered := by
  obtain ⟨hlocals, hstack, ids, -, hholds, hmethod⟩ := hd
  have hmethod : d.method = relabel (placeIn ids) m := hmethod ids List.prefix_rfl
  have hplace : relabel d.table.place d.method = m.renumbered := by
    rw [hmethod, relabel_relabel]
    exact relabel_congr h fun id hid => hholds.place hid
  unfold Draft.finish
  rw [hholds.undefined? fun _ hid => hid]
  simp only [hplace, hlocals, hstack, if_true, Bool.true_or]

/-- The sections that every method has. -/
def headText (m : Method) : Text :=
  optional (m.flags != 0) (sectionLine "\n    " "flags" (flagWords m.flags))
    ++ (optional (!m.throws.isEmpty) (sectionLine "\n    " "throws" (quotedNames m.throws))
    ++ (optional (!m.annotations.isEmpty) (sectionLine "\n    " "annotation" (quotedNames m.annotations))
    ++ paramLines m.paramAnnotations 0))

/-- The measures, the code and what belongs to it left out. -/
def bare (m : Method) : Method :=
  { m with maxLocals := 0, maxStack := 0, code := #[], ranges := [], localVars := [] }

/-- **The sections that every method has** are read back. -/
lemma passes_head (h : m.Writable) :
    Passes (methodSections m.paramCount) (headText m)
      (fun x => x = { method := { name := m.name, desc := m.desc } })
      fun x => x = { method := { bare m with paramAnnotations := m.presentAnnotations } } := by
  refine (Passes.flags (isSections_method m.paramCount) ⟨by decide, by decide⟩ h.flags
    (fun flags => { method := { name := m.name, desc := m.desc, flags } }) fun tok htok => ?_).append ?_
  · unfold methodSection
    rw [htok]
    rfl
  refine (Passes.names (isSections_method m.paramCount) ⟨by decide, by decide⟩ m.throws
    (fun throws => { method := { name := m.name, desc := m.desc, flags := m.flags, throws } })
    fun tok htok => ?_).append ?_
  · unfold methodSection
    rw [htok]
    rfl
  refine (Passes.names (isSections_method m.paramCount) ⟨by decide, by decide⟩ m.annotations
    (fun names => { method := { name := m.name, desc := m.desc, flags := m.flags, throws := m.throws,
                                annotations := names } }) fun tok htok => ?_).append ?_
  · unfold methodSection
    rw [htok]
    rfl
  rcases h.params with hnone | hlength
  · rw [hnone]
    refine .nil fun d hd => ?_
    rw [hd, bare, Method.presentAnnotations, hnone]
    rfl
  · have hlines := passes_paramLines { method := bare m } h.annotated
    rw [annotationsUpTo_all, hlength] at hlines
    exact hlines

/-- A method without body has the locals that the caller fills. -/
lemma finish_bare (m : Method) {anns : List (List Text)} {params : Nat} :
    Draft.finish { method := { bare m with paramAnnotations := anns } } params = .ok { m with
      paramAnnotations := anns
      maxLocals := UInt32.ofNat (params + m.receiverCount)
      maxStack := 0, code := #[], ranges := [], localVars := [] } := by
  have hempty : (bare m).code.isEmpty = true := rfl
  have hlocals : inferLocals { bare m with paramAnnotations := anns } params
      = UInt32.ofNat (params + m.receiverCount) := rfl
  have hrelabel : ∀ g, relabel g { bare m with paramAnnotations := anns }
      = { bare m with paramAnnotations := anns } := fun _ => by simp [relabel, bare]
  have hundefined : LabelTable.undefined? {} = none := rfl
  unfold Draft.finish
  simp only [hundefined, hrelabel, hlocals, hempty, Bool.false_eq_true, if_false, Bool.or_true, if_true]
  rfl

/-- **A method.** -/
lemma reads_method (h : m.Writable) :
    Reads AtClose method ((Text.ofString " " ++ Quoted.encode m.name)
      ++ ((Text.ofString " " ++ Quoted.encode m.desc) ++ (headText m ++ optional m.hasBody (bodyLines m))))
      fun x => x = m.reread := by
  obtain ⟨d, hd⟩ := h.desc
  have hcount : d.params.length = m.paramCount := by rw [Method.paramCount, hd]
  refine (reads_string m.name).bind ?_
  rintro _ rfl
  refine (reads_string m.desc).bind ?_
  rintro _ rfl
  rw [hd]
  simp only [hcount]
  suffices hdraft : ∃ Q, Passes (methodSections m.paramCount) (headText m ++ optional m.hasBody (bodyLines m))
      (fun x => x = { method := { name := m.name, desc := m.desc } }) Q
      ∧ ∀ d, Q d → d.finish m.paramCount = .ok m.reread by
    obtain ⟨Q, hpasses, hfinish⟩ := hdraft
    rw [← bind_assoc]
    refine ((hpasses.readsUpTo (isSections_method m.paramCount) rfl).start 1).check fun d hd => ?_
    exact ⟨m.reread, by rw [hfinish d hd], rfl⟩
  by_cases hbody : m.hasBody = true
  · let m' : Method := { m with paramAnnotations := m.presentAnnotations }
    have hclosed : m'.Closed :=
      have h := h.body hbody
      ⟨h.once, h.instructions, h.mentioned, h.ranges, h.localVars⟩
    refine ⟨Drafted m'.code.marks m'.code.marks m', ?_, fun d hd => ?_⟩
    · rw [hbody]
      exact (passes_head h).append (passes_body hclosed)
    · rw [hd.finish hclosed, Method.reread, if_pos hbody]
      rfl
  · refine ⟨_, (passes_head h).append (.optional (fun hsome => absurd hsome hbody) fun _ _ hs => hs), ?_⟩
    rintro _ rfl
    rw [Method.reread, if_neg hbody]
    exact finish_bare m

end Method

/-! ## Classes -/

lemma isSections_class : IsSections classSections classSection := ⟨fun _ => rfl, fun _ _ => rfl⟩

lemma fieldLine_eq (f : Field) : fieldLine f = formText "\n  " "field"
    ((Text.ofString " " ++ Quoted.encode f.name) ++ ((Text.ofString " " ++ Quoted.encode f.desc)
      ++ optional (f.flags != 0) (Text.ofString " " ++ flagWords f.flags))) := by
  have hopen : Text.ofString "\n  (field " = Text.ofString "\n  " ++ (Text.ofString "("
      ++ (Text.ofString "field" ++ Text.ofString " ")) := rfl
  simp only [fieldLine, formText, hopen, List.append_assoc]

lemma methodLines_eq (m : Method) : methodLines m = formText "\n  " "method"
    ((Text.ofString " " ++ Quoted.encode m.name) ++ ((Text.ofString " " ++ Quoted.encode m.desc)
      ++ (headText m ++ optional m.hasBody (bodyLines m)))) := by
  have hopen : Text.ofString "\n  (method " = Text.ofString "\n  " ++ (Text.ofString "("
      ++ (Text.ofString "method" ++ Text.ofString " ")) := rfl
  simp only [methodLines, formText, headText, hopen, List.append_assoc]

/-- **A field.** -/
lemma reads_field {f : Field} (h : Flag.Named f.flags) :
    Reads AtClose field ((Text.ofString " " ++ Quoted.encode f.name)
      ++ ((Text.ofString " " ++ Quoted.encode f.desc)
      ++ optional (f.flags != 0) (Text.ofString " " ++ flagWords f.flags))) fun x => x = f := by
  refine (reads_string f.name).bind ?_
  rintro _ rfl
  refine (reads_string f.desc).bind ?_
  rintro _ rfl
  have hflags : Reads AtClose flags (optional (f.flags != 0) (Text.ofString " " ++ flagWords f.flags))
      fun x => x = f.flags := by
    by_cases hzero : f.flags = 0
    · rw [hzero]
      have hnone : ReadsUpTo (fun n => flagsUpTo n 0) [] fun x => x = 0 := .stop rfl (fun n => rfl) rfl
      exact hnone.start 0
    · have hsome : (f.flags != 0) = true := by simpa using hzero
      rw [hsome]
      exact reads_flags f.flags h
  exact hflags.map fun _ hread => by rw [hread]

/-- The sections of a class. -/
def classText (c : Class) : Text :=
  optional (!c.super.isEmpty) (sectionLine "\n  " "super" (Quoted.encode c.super))
    ++ (optional (c.flags != 0) (sectionLine "\n  " "flags" (flagWords c.flags))
    ++ (optional (!c.interfaces.isEmpty) (sectionLine "\n  " "implements" (quotedNames c.interfaces))
    ++ (optional (!c.annotations.isEmpty) (sectionLine "\n  " "annotation" (quotedNames c.annotations))
    ++ (c.fields.flatMap fieldLine ++ c.methods.flatMap methodLines))))

lemma disassemble_eq (c : Class) : disassemble c
    = formText "" "class" ((Text.ofString " " ++ Quoted.encode c.name) ++ classText c)
      ++ Text.ofString "\n" := by
  have hopen : Text.ofString "(class " = Text.ofString "" ++ (Text.ofString "("
      ++ (Text.ofString "class" ++ Text.ofString " ")) := rfl
  have hclose : Text.ofString ")\n" = Text.ofString ")" ++ Text.ofString "\n" := rfl
  simp only [disassemble, formText, classText, hopen, hclose, List.append_assoc]

/-- The superclass that a class without a section for it has. -/
def defaultSuper (name : Text) : Text := if name == ClassName.object then [] else ClassName.object

/-- The section of the superclass. -/
lemma passes_super (c : Class) :
    Passes classSections (optional (!c.super.isEmpty) (sectionLine "\n  " "super" (Quoted.encode c.super)))
      (fun x => x = { name := c.name, super := defaultSuper c.name })
      fun x => x = { name := c.name, super := c.reread.super } := by
  refine .optional (fun hsome => ?_) fun hnone => ?_
  · have hne : c.super ≠ [] := by simpa using hsome
    have hkept : c.reread.super = c.super := by simp [Class.reread, hne]
    rw [sectionLine_eq, hkept]
    refine .set isSections_class ⟨by decide, by decide⟩ fun tok htok => ?_
    have hsect : classSection { name := c.name, super := defaultSuper c.name } tok
        = (do return { name := c.name, super := ← string }) := by
      unfold classSection
      rw [htok]
      rfl
    rw [hsect]
    exact ((reads_string c.super).map fun _ hread => by rw [hread]).of_anything
  · have hempty : c.super = [] := by simpa using hnone
    have hdefault : c.reread.super = defaultSuper c.name := by
      by_cases hname : c.name = ClassName.object <;> simp [Class.reread, defaultSuper, hempty, hname]
    rw [hdefault]
    exact fun _ hs => hs

/-- A field is added to a class. -/
lemma passes_field (c : Class) {f : Field} (h : Flag.Named f.flags) (fs : List Field) :
    Passes classSections (fieldLine f) (fun x => x = { c with fields := fs })
      fun x => x = { c with fields := fs ++ [f] } := by
  rw [fieldLine_eq]
  refine .set isSections_class ⟨by decide, by decide⟩ fun tok htok => ?_
  have hsect : classSection { c with fields := fs } tok
      = (do
        let f ← field
        return { c with fields := fs ++ [f] }) := by
    unfold classSection
    rw [htok]
    rfl
  rw [hsect]
  exact (reads_field h).map fun _ hread => by rw [hread]

/-- A method is added to a class. -/
lemma passes_method (c : Class) {m : Method} (h : m.Writable) (ms : List Method) :
    Passes classSections (methodLines m) (fun x => x = { c with methods := ms.map Method.reread })
      fun x => x = { c with methods := (ms ++ [m]).map Method.reread } := by
  rw [methodLines_eq]
  refine .set isSections_class ⟨by decide, by decide⟩ fun tok htok => ?_
  obtain ⟨q, hq, hsect⟩ : ∃ q : Parse Method, (∀ toks r, method toks = .ok r → q toks = .ok r) ∧
      classSection { c with methods := ms.map Method.reread } tok = (do
        let m ← q
        return { c with methods := ms.map Method.reread ++ [m] }) := by
    unfold classSection
    rw [htok]
    refine ⟨_, ?_, rfl⟩
    intro toks r hr
    simp only [hr]
  rw [hsect]
  refine ((reads_method h).wrap hq).map fun _ hread => ?_
  rw [hread, List.map_append]
  rfl

/-- **The sections of a class** are read back. -/
lemma passes_class {c : Class} (h : c.Writable) :
    Passes classSections (classText c) (fun x => x = { name := c.name, super := defaultSuper c.name })
      fun x => x = c.reread := by
  refine (passes_super c).append ?_
  refine (Passes.flags isSections_class ⟨by decide, by decide⟩ h.flags
    (fun flags => { name := c.name, super := c.reread.super, flags }) fun tok htok => ?_).append ?_
  · unfold classSection
    rw [htok]
    rfl
  refine (Passes.names isSections_class ⟨by decide, by decide⟩ c.interfaces
    (fun names => { name := c.name, super := c.reread.super, flags := c.flags, interfaces := names })
    fun tok htok => ?_).append ?_
  · unfold classSection
    rw [htok]
    rfl
  refine (Passes.names isSections_class ⟨by decide, by decide⟩ c.annotations
    (fun names => { name := c.name, super := c.reread.super, flags := c.flags,
                    interfaces := c.interfaces, annotations := names }) fun tok htok => ?_).append ?_
  · unfold classSection
    rw [htok]
    rfl
  have hfields : Passes classSections (c.fields.flatMap fieldLine)
      (fun x => x = { c.reread with fields := [], methods := [] })
      fun x => x = { c.reread with methods := [] } :=
    Passes.flatMap (P := fun fs x => x = { c.reread with fields := fs, methods := [] })
      fun fs f hf => passes_field { c.reread with methods := [] } (h.fields f hf) fs
  have hmethods : Passes classSections (c.methods.flatMap methodLines)
      (fun x => x = { c.reread with methods := [] }) fun x => x = c.reread :=
    Passes.flatMap (P := fun ms x => x = { c.reread with methods := ms.map Method.reread })
      fun ms m hm => passes_method c.reread (h.methods m hm) ms
  exact hfields.append hmethods

/-- A class form behind its first word. -/
def classBehind (kw : Token) : Parse Class := do
  let _ ← (if kw.value == Text.ofString "class" then return ()
    else throw (.keywordExpected kw.line (Text.ofString "class") kw.value) : Parse Unit)
  let name ← string
  classSections ((← get).length + 1) { name, super := defaultSuper name }

lemma classForm_eq : classForm = do
    let _ ← expect .open_
    let kw ← expect .ident
    let c ← classBehind kw
    closeForm
    return c := by
  simp only [classForm, keyword, classBehind, bind_assoc]
  rfl

/-- **A class.** -/
lemma reads_class {c : Class} (h : c.Writable) :
    Reads Anything classForm (disassemble c) fun x => x = c.reread := by
  have hbehind : ∀ tok, tok.value = Text.ofString "class" → Reads AtClose (classBehind tok)
      ((Text.ofString " " ++ Quoted.encode c.name) ++ classText c) fun x => x = c.reread := by
    intro tok htok
    unfold classBehind
    rw [htok, beq_self_eq_true, if_pos rfl, pure_bind]
    refine (reads_string c.name).bind ?_
    rintro _ rfl
    exact ((passes_class h).readsUpTo isSections_class rfl).start 1
  obtain ⟨ws, hws, htakes⟩ := reads_form (⟨by decide, by decide⟩ : IsOpening "" "class") hbehind
  rw [disassemble_eq, classForm_eq]
  refine ⟨ws, ?_, htakes⟩
  have hend := hws.append (prints_blank (by decide : "\n".toList.all (fun c => c == ' ' || c == '\n') = true))
  rwa [List.append_nil] at hend

/-- **The text of a class is read as the class**, with the defaults in place of what was left out. -/
theorem single_disassemble {c : Class} (h : c.Writable) : single (disassemble c) = .ok c.reread := by
  obtain ⟨ws, hws, htakes⟩ := reads_class h
  obtain ⟨toks, hscan, htoks⟩ := hws.scan
  obtain ⟨_, hclass, rfl⟩ := htakes toks [] htoks trivial
  rw [List.append_nil] at hclass
  have hforms : classForms (toks.length + 1) toks = .ok ([c.reread], []) := by
    cases toks with
    | nil => cases hclass
    | cons tok toks =>
        have hrest : classForms (toks.length + 1) [] = .ok ([], []) := rfl
        have hround : classForms (toks.length + 1 + 1) (tok :: toks) = (do
            let c ← classForm
            return c :: (← classForms (toks.length + 1)) : Parse (List Class)) (tok :: toks) := rfl
        rw [List.length_cons, hround, run_bind hclass]
        exact run_bind hrest
  have htokens : ofTokens toks = .ok [c.reread] := by
    unfold ofTokens
    rw [StateT.run, hforms]
  have hclasses : classes (disassemble c) = .ok [c.reread] := by
    unfold classes
    simp only [hscan, htokens]
  unfold single
  simp only [hclasses]

end Assembly

end Suspension
