import Suspension.Proofs.Assembly.Soundness

/-!
# Labels that are told by their names

**What the names in a method form denote.**  The label definitions of a method are numbered 0, 1, 2, …
in the order of the text, and a name stands for the number of its definition wherever it is written: in
jumps, jump tables, ranges and the names of locals, in whatever order the sections come.

* `Assembly.MethodForm` — the tokens of a method form, section by section.
* `Assembly.Consumes` — a fact about everything that a reader may give, and the tokens that it takes.
* `Assembly.Mentions` — what a reader does with the names in its tokens.
* `Assembly.MethodForm.Resolves` — a method has the labels that the names denote;
  `Draft.Reads.resolves` shows it of a complete draft.
* `Assembly.method_form`, `MethodForm.read` — what is accepted is a form, and only one.
-/

namespace Suspension

namespace Token

/-- Whether a word may refer to a label: a dollar sign with something behind it. -/
def isReference (word : Text) : Bool :=
  match word with
  | 0x24 :: _ :: _ => true
  | _ => false

/-- The label that a token names, whether it defines the label or refers to it. -/
def labelName? (t : Token) : Option Text :=
  match t.kind with
  | .label => some t.value
  | .ident => if isReference t.value then some t.value else none
  | _ => none

/-- The label that a token defines. -/
def definedName? (t : Token) : Option Text := if t.kind == .label then some t.value else none

end Token

namespace Assembly

open Token

variable {α β : Type}

/-! ## The tokens of a method form -/

/-- The names of labels in tokens. -/
def labelNames (toks : List Token) : List Text := toks.filterMap labelName?

/-- The names that tokens define. -/
def definedNames (toks : List Token) : List Text := toks.filterMap definedName?

/-- Tokens without a parenthesis. -/
def Flat (toks : List Token) : Prop := ∀ t ∈ toks, t.kind ≠ .open_ ∧ t.kind ≠ .close

instance : DecidablePred Flat := fun toks => List.decidableBAll _ toks

/-- Where a form ends. -/
def AtEnd (toks : List Token) : Prop := ∀ t rest, toks = t :: rest → t.kind = .close

/-- **A section of a form**: in parentheses a keyword, and tokens behind it. -/
structure SectionForm where
  opening : Token
  keyword : Token
  body : List Token
  closing : Token
  opens : opening.kind = .open_
  flat : Flat body
  closes : closing.kind = .close

/-- The tokens of a section. -/
def SectionForm.tokens (s : SectionForm) : List Token :=
  s.opening :: s.keyword :: (s.body ++ [s.closing])

/-- What stands in sections. -/
def bodies (sections : List SectionForm) : List Token := sections.flatMap SectionForm.body

/-- What stands in the sections of one keyword. -/
def bodiesOf (word : Text) (sections : List SectionForm) : List Token :=
  bodies (sections.filter (·.keyword.value == word))

/-- **A method form** behind its keyword. -/
structure MethodForm where
  name : Token
  desc : Token
  sections : List SectionForm

namespace MethodForm

/-- The tokens of a method form. -/
def tokens (f : MethodForm) : List Token := f.name :: f.desc :: f.sections.flatMap SectionForm.tokens

/-- The label names that a form mentions, in the order of the text. -/
def names (f : MethodForm) : List Text := labelNames (bodies f.sections)

/-- The label names that a form defines, in the order of the text. -/
def definitions (f : MethodForm) : List Text := definedNames (bodies f.sections)

/-- The number of the definition of a name. -/
def label (f : MethodForm) (name : Text) : Label := UInt32.ofNat (f.definitions.idxOf name)

end MethodForm

lemma labelNames_append (toks toks' : List Token) :
    labelNames (toks ++ toks') = labelNames toks ++ labelNames toks' := List.filterMap_append

lemma definedNames_append (toks toks' : List Token) :
    definedNames (toks ++ toks') = definedNames toks ++ definedNames toks' := List.filterMap_append

/-- A definition is a mention. -/
lemma definedNames_subset (toks : List Token) : definedNames toks ⊆ labelNames toks := by
  intro n hn
  obtain ⟨t, ht, hdefined⟩ := List.mem_filterMap.mp hn
  refine List.mem_filterMap.mpr ⟨t, ht, ?_⟩
  unfold definedName? at hdefined
  split at hdefined
  · next hkind => rw [labelName?, beq_iff_eq.mp hkind]; exact hdefined
  · cases hdefined

/-! ## Tokens that are taken -/

/-- **A fact about everything that a reader may give**, and about the tokens that it takes. -/
def Consumes (p : Parse α) (Q : List Token → α → Prop) : Prop :=
  ∀ toks a rest, p toks = .ok (a, rest) → ∃ form, toks = form ++ rest ∧ Q form a

section Consumes

variable {p : Parse α} {f : α → Parse β} {Q : List Token → α → Prop} {Q' : List Token → β → Prop}

lemma Consumes.pure {a : α} (h : Q [] a) : Consumes (pure a) Q := by
  intro toks b rest hb
  cases hb
  exact ⟨[], rfl, h⟩

lemma consumes_throw (e : Problem) : Consumes (throw e) Q := by
  intro toks b rest hb
  cases hb

lemma Consumes.bind (h : Consumes p Q)
    (h' : ∀ form a, Q form a → Consumes (f a) fun form' b => Q' (form ++ form') b) :
    Consumes (p >>= f) Q' := by
  intro toks b rest hb
  obtain ⟨a, toks', ha, hf⟩ := exists_of_bind hb
  obtain ⟨form, rfl, hQ⟩ := h toks a toks' ha
  obtain ⟨form', rfl, hQ'⟩ := h' form a hQ toks' b rest hf
  exact ⟨form ++ form', (List.append_assoc _ _ _).symm, hQ'⟩

lemma Consumes.mono {Q' : List Token → α → Prop} (h : Consumes p Q) (hQ : ∀ form a, Q form a → Q' form a) :
    Consumes p Q' := by
  intro toks a rest ha
  obtain ⟨form, htoks, hform⟩ := h toks a rest ha
  exact ⟨form, htoks, hQ form a hform⟩

lemma Consumes.ite {q : Parse α} {c : Prop} [Decidable c] (hp : c → Consumes p Q) (hq : ¬ c → Consumes q Q) :
    Consumes (if c then p else q) Q := by
  split
  · exact hp ‹c›
  · exact hq ‹¬ c›

/-- A reader whose faults are reported differently. -/
lemma Consumes.wrap {q : Parse α} (h : Consumes p Q) (hq : ∀ toks r, q toks = .ok r → p toks = .ok r) :
    Consumes q Q := fun toks a rest ha => h toks a rest (hq toks (a, rest) ha)

lemma consumes_get : Consumes get fun form _ => form = [] := by
  intro toks a rest ha
  cases ha
  exact ⟨[], rfl, rfl⟩

lemma consumes_next : Consumes next fun form t => form = [t] := by
  intro toks a rest ha
  cases toks with
  | nil => cases ha
  | cons t toks =>
      cases ha
      exact ⟨[a], rfl, rfl⟩

lemma consumes_atClose : Consumes atClose fun form _ => form = [] := by
  intro toks a rest ha
  cases toks <;> cases ha <;> exact ⟨[], rfl, rfl⟩

lemma consumes_expect (kind : TokenKind) : Consumes (expect kind) fun form t => form = [t] ∧ t.kind = kind := by
  refine consumes_next.bind ?_
  rintro _ tok rfl
  exact .ite (fun hkind => .pure ⟨rfl, beq_iff_eq.mp hkind⟩) fun _ => consumes_throw _

/-- Nothing is taken before. -/
lemma Consumes.peek (h : Consumes p fun form _ => form = []) (h' : ∀ a, Consumes (f a) Q') :
    Consumes (p >>= f) Q' := by
  refine h.bind ?_
  rintro form a rfl
  exact h' a

end Consumes

/-! ## Readers of other words -/

/-- **Tokens that name no label.** -/
structure Plain (form : List Token) : Prop where
  flat : Flat form
  names : labelNames form = []

lemma plain_nil : Plain [] := ⟨by simp [Flat], rfl⟩

lemma Plain.append {form form' : List Token} (h : Plain form) (h' : Plain form') : Plain (form ++ form') :=
  ⟨List.forall_mem_append.mpr ⟨h.flat, h'.flat⟩, by rw [labelNames_append, h.names, h'.names]; rfl⟩

lemma plain_singleton {t : Token} (h : t.kind = .string ∨ t.kind = .number
    ∨ t.kind = .ident ∧ isReference t.value = false) : Plain [t] := by
  have hname : labelName? t = none := by
    rcases h with h | h | ⟨h, hvalue⟩
    · rw [labelName?, h]
    · rw [labelName?, h]
    · rw [labelName?, h, hvalue]
      rfl
  refine ⟨?_, by simp [labelNames, hname]⟩
  simp only [Flat, List.mem_singleton, forall_eq]
  rcases h with h | h | ⟨h, -⟩ <;> simp [h]

lemma Plain.definitions {form : List Token} (h : Plain form) : definedNames form = [] :=
  List.subset_nil.mp (h.names ▸ definedNames_subset form)

lemma consumes_quoted : Consumes string fun form s => ∃ t : Token, form = [t] ∧ t.kind = .string
    ∧ t.value = s := by
  refine (consumes_expect .string).bind ?_
  rintro form t ⟨rfl, hkind⟩
  exact .pure ⟨t, rfl, hkind, rfl⟩

lemma consumes_string : Consumes string fun form _ => Plain form := by
  refine consumes_quoted.mono ?_
  rintro _ _ ⟨t, rfl, hkind, -⟩
  exact plain_singleton (Or.inl hkind)

/-- A number, whatever is made of it. -/
lemma consumes_number {f : Token → Parse β} (h : ∀ t, Consumes (f t) fun form _ => form = []) :
    Consumes (expect .number >>= f) fun form _ => Plain form := by
  refine (consumes_expect .number).bind ?_
  rintro form t ⟨rfl, hkind⟩
  refine (h t).mono ?_
  rintro form _ rfl
  exact plain_singleton (Or.inr (Or.inl hkind))

lemma consumes_integer (width : Nat) : Consumes (integer width) fun form _ => Plain form := by
  refine consumes_number fun t => ?_
  split
  · exact .pure rfl
  · exact consumes_throw _

lemma consumes_word : Consumes word fun form _ => Plain form := by
  refine consumes_number fun t => ?_
  split
  · exact .pure rfl
  · exact consumes_throw _

lemma consumes_float (f : FloatFormat) : Consumes (float f) fun form _ => Plain form := by
  refine consumes_number fun t => ?_
  split
  · exact .pure rfl
  · exact consumes_throw _

lemma consumes_strings : Consumes strings fun form _ => Plain form := by
  have hall : ∀ n, Consumes (stringsUpTo n) fun form _ => Plain form := by
    intro n
    induction n with
    | zero => exact .pure plain_nil
    | succ n ih =>
        refine consumes_atClose.peek fun closes => .ite (fun _ => .pure plain_nil) fun _ => ?_
        refine consumes_string.bind fun form s hform => ih.bind fun form' more hform' => .pure ?_
        rw [List.append_nil]
        exact hform.append hform'
  exact consumes_get.peek fun toks => hall toks.length

/-- No flag has the name of a label. -/
lemma isReference_flag : ∀ w ∈ Flag.words, isReference w.1 = false := by decide +kernel

/-- No mnemonic is the name of a label. -/
lemma isReference_name : ∀ op ∈ Opcode.all, isReference op.name = false := by decide +kernel

lemma isReference_of_lookup {value : Text} {bit : UInt32} (h : Flag.words.lookup value = some bit) :
    isReference value = false := by
  obtain ⟨l, l', hwords, -⟩ := List.lookup_eq_some_iff.mp h
  exact isReference_flag (value, bit) (by rw [hwords]; simp)

lemma isReference_of_mnemonic {value : Text} {op : Opcode} (h : Opcode.ofMnemonic? value = some op) :
    isReference value = false := by
  have hname := List.find?_some (p := fun op : Opcode => op.name == value) h
  rw [← beq_iff_eq.mp hname]
  exact isReference_name op (List.mem_of_find?_eq_some h)

lemma consumes_flags : Consumes flags fun form _ => Plain form := by
  have hall : ∀ n acc, Consumes (flagsUpTo n acc) fun form _ => Plain form := by
    intro n
    induction n with
    | zero => exact fun acc => .pure plain_nil
    | succ n ih =>
        intro acc
        refine consumes_atClose.peek fun closes => .ite (fun _ => .pure plain_nil) fun _ => ?_
        refine (consumes_expect .ident).bind ?_
        rintro form t ⟨rfl, hkind⟩
        split
        · next bit hbit =>
            have hplain : Plain [t] := plain_singleton (Or.inr (Or.inr ⟨hkind, isReference_of_lookup hbit⟩))
            exact (ih _).mono fun form' _ hform' => hplain.append hform'
        · exact consumes_throw _
  exact consumes_get.peek fun toks => hall toks.length 0

/-! ## Names in a table -/

namespace LabelTable

/-- The names that a table knows, in order of mention. -/
def known (t : LabelTable) : List Text := t.names.map Prod.fst

/-- The number of a name. -/
def number (t : LabelTable) (name : Text) : Label := UInt32.ofNat (t.known.idxOf name)

variable {t t' : LabelTable} {name : Text}

lemma length_known (t : LabelTable) : t.known.length = t.names.length := List.length_map _

/-- A table that goes on leaves the numbers as they are. -/
lemma number_of_prefix (h : t.known <+: t'.known) (hname : name ∈ t.known) :
    t'.number name = t.number name := by
  rw [number, number, h.idxOf_eq_of_mem hname]

lemma find?_eq (t : LabelTable) (name : Text) :
    t.find? name = if name ∈ t.known then some (t.known.idxOf name) else none := by
  have hknown : t.find? name = t.known.findIdx? (· == name) := by
    rw [known, List.findIdx?_map]
    rfl
  rw [hknown]
  split
  · next hname => exact List.findIdx?_eq_some_of_exists ⟨name, hname, by simp⟩
  · next hname =>
      rw [List.findIdx?_eq_none_iff]
      intro x hx
      rw [beq_eq_false_iff_ne]
      rintro rfl
      exact hname hx

/-- **A name is mentioned.** -/
lemma mention_eq (t : LabelTable) (name : Text) (line : Nat) :
    (t.mention name line).1 = (t.mention name line).2.number name
      ∧ (t.mention name line).2.known = (if name ∈ t.known then t.known else t.known ++ [name])
      ∧ (t.mention name line).2.order = t.order := by
  unfold mention
  rw [find?_eq]
  by_cases hname : name ∈ t.known
  · simp only [if_pos hname]
    exact ⟨rfl, trivial, trivial⟩
  · have hknown : ({ t with names := t.names ++ [(name, line)] } : LabelTable).known
        = t.known ++ [name] := by simp [known]
    simp only [if_neg hname]
    refine ⟨?_, hknown, trivial⟩
    rw [number, hknown, List.idxOf_append_of_notMem hname, length_known]
    simp

/-- **Different names have different numbers**, when there are no more names than numbers. -/
lemma number_injOn (h : t.known.length ≤ 2 ^ 32) {a b : Text} (ha : a ∈ t.known) (hb : b ∈ t.known)
    (hab : t.number a = t.number b) : a = b := by
  have hlt : ∀ {x}, x ∈ t.known → (t.number x).toNat = t.known.idxOf x := by
    intro x hx
    have hidx := List.idxOf_lt_length_of_mem hx
    rw [number, UInt32.toNat_ofNat_of_lt' (by simp only [UInt32.size]; omega)]
  refine (List.idxOf_inj ha).mp ?_
  rw [← hlt ha, ← hlt hb, hab]

end LabelTable

/-- **What a reader does with the names in its tokens**: `t` is the table before, `t'` the table behind,
and `ids` are the numbers that it gives to the names. -/
structure Mentions (t : LabelTable) (form : List Token) (ids : List Label) (t' : LabelTable) : Prop where
  flat : Flat form
  grows : t.known <+: t'.known
  known : ∀ n ∈ labelNames form, n ∈ t'.known
  only : ∀ n ∈ t'.known, n ∈ t.known ∨ n ∈ labelNames form
  nodup : t.known.Nodup → t'.known.Nodup
  ids : ids = (labelNames form).map t'.number
  order : t'.order = t.order ++ (definedNames form).map t'.number

section Mentions

variable {t t' t'' : LabelTable} {form form' : List Token} {ids ids' : List Label}

/-- Tokens without a name. -/
lemma Plain.mentions (h : Plain form) (t : LabelTable) : Mentions t form [] t := by
  refine ⟨h.flat, List.prefix_rfl, ?_, fun n hn => Or.inl hn, fun hnodup => hnodup, ?_, ?_⟩
  · simp [h.names]
  · rw [h.names]
    rfl
  · rw [h.definitions]
    simp

/-- **Tokens one after another.** -/
lemma Mentions.append (h : Mentions t form ids t') (h' : Mentions t' form' ids' t'') :
    Mentions t (form ++ form') (ids ++ ids') t'' := by
  have hlater : ∀ {names : List Text}, names ⊆ labelNames form → names.map t'.number = names.map t''.number :=
    fun hsub => List.map_congr_left fun n hn => (LabelTable.number_of_prefix h'.grows
      (h.known n (hsub hn))).symm
  refine ⟨List.forall_mem_append.mpr ⟨h.flat, h'.flat⟩, h.grows.trans h'.grows, ?_, ?_,
    fun hnodup => h'.nodup (h.nodup hnodup), ?_, ?_⟩
  · rw [labelNames_append]
    exact List.forall_mem_append.mpr ⟨fun n hn => h'.grows.subset (h.known n hn), h'.known⟩
  · intro n hn
    rw [labelNames_append, List.mem_append]
    rcases h'.only n hn with hn | hn
    · exact (h.only n hn).imp_right Or.inl
    · exact Or.inr (Or.inr hn)
  · rw [labelNames_append, List.map_append, h.ids, h'.ids, hlater (List.Subset.refl _)]
  · rw [definedNames_append, List.map_append, h'.order, h.order, hlater (definedNames_subset form),
      List.append_assoc]

/-- A token that names a label. -/
lemma mention_mentions (t : LabelTable) {tok : Token} (hflat : Flat [tok])
    (hname : labelName? tok = some tok.value)
    (order : List Label) (horder : order = t.order ++ (definedNames [tok]).map
      (t.mention tok.value tok.line).2.number) :
    Mentions t [tok] [(t.mention tok.value tok.line).1] { (t.mention tok.value tok.line).2 with order } := by
  obtain ⟨hnumber, hknown, -⟩ := t.mention_eq tok.value tok.line
  have hnames : labelNames [tok] = [tok.value] := by simp [labelNames, hname]
  generalize t.mention tok.value tok.line = r at hnumber hknown horder ⊢
  have hsame : ({ r.2 with order } : LabelTable).known = r.2.known := rfl
  refine ⟨hflat, ?_, ?_, ?_, ?_, ?_, horder⟩
  · rw [hsame, hknown]
    split
    · exact List.prefix_rfl
    · exact List.prefix_append _ _
  · rw [hnames, List.forall_mem_singleton, hsame, hknown]
    split
    · assumption
    · simp
  · intro n hn
    rw [hsame, hknown] at hn
    rw [hnames]
    split at hn
    · exact Or.inl hn
    · exact List.mem_append.mp hn
  · intro hnodup
    rw [hsame, hknown]
    split
    · exact hnodup
    · next hnew => exact List.concat_eq_append ▸ hnodup.concat hnew
  · rw [hnames, hnumber]
    rfl

end Mentions

/-! ## References and code -/

/-- The labels of an operand, in the order of the text. -/
def textLabels : Operand → List Label
  | .label id => [id]
  | .table _ ids default => ids ++ [default]
  | _ => []

lemma labelRef_eq (table : LabelTable) : labelRef table = (do
    let t ← expect .ident
    if isReference t.value then return table.mention t.value t.line
    else throw (.labelExpected t.line t.value)) := by
  unfold labelRef isReference
  congr 1
  funext t
  rcases t.value with _ | ⟨b, _ | ⟨c, more⟩⟩
  · rfl
  · by_cases hb : b = 0x24
    · subst hb; rfl
    · simp
  · by_cases hb : b = 0x24
    · subst hb; rfl
    · split <;> simp_all

lemma consumes_reference (t : LabelTable) :
    Consumes (labelRef t) fun form r => Mentions t form [r.1] r.2 := by
  rw [labelRef_eq]
  refine (consumes_expect .ident).bind ?_
  rintro form tok ⟨rfl, hkind⟩
  refine .ite (fun href => .pure ?_) fun _ => consumes_throw _
  have hname : labelName? tok = some tok.value := by rw [labelName?, hkind]; simp [href]
  have hdefined : definedNames [tok] = [] := by simp [definedNames, definedName?, hkind]
  obtain ⟨-, -, horder⟩ := t.mention_eq tok.value tok.line
  refine mention_mentions t (by simp [Flat, hkind]) hname (t.mention tok.value tok.line).2.order ?_
  rw [hdefined, horder]
  simp

lemma consumes_entries (n : Nat) (t : LabelTable) :
    Consumes (tableEntries n t) fun form r => Mentions t form r.1 r.2 := by
  induction n generalizing t with
  | zero => exact .pure (plain_nil.mentions t)
  | succ n ih =>
      intro toks r rest hr
      cases toks with
      | nil => cases hr
      | cons tok toks =>
          rw [tableEntries_cons] at hr
          split at hr
          · next hdefault =>
              cases hr
              simp only [Bool.and_eq_true, beq_iff_eq] at hdefault
              have hplain : Plain [tok] :=
                plain_singleton (Or.inr (Or.inr ⟨hdefault.1, by rw [hdefault.2]; decide⟩))
              exact ⟨[tok], rfl, hplain.mentions t⟩
          · have hround : Consumes (tableRound n t) fun form r => Mentions t form r.1 r.2 := by
              refine (consumes_reference t).bind fun form r hr => (ih r.2).bind fun form' r' hr' => .pure ?_
              rw [List.append_nil]
              exact hr.append hr'
            exact hround _ _ _ hr

/-- **An operand** has the labels that its tokens name. -/
lemma consumes_operand (t : LabelTable) (kind : OperandKind) :
    Consumes (operand t kind) fun form r => Mentions t form (textLabels r.1) r.2 := by
  cases kind with
  | none => exact .pure (plain_nil.mentions t)
  | int => exact (consumes_integer 32).bind fun form v h => .pure ((h.append plain_nil).mentions t)
  | long => exact (consumes_integer 64).bind fun form v h => .pure ((h.append plain_nil).mentions t)
  | float => exact (consumes_float .single).bind fun form v h => .pure ((h.append plain_nil).mentions t)
  | double => exact (consumes_float .double).bind fun form v h => .pure ((h.append plain_nil).mentions t)
  | text => exact consumes_string.bind fun form v h => .pure ((h.append plain_nil).mentions t)
  | slot => exact consumes_word.bind fun form v h => .pure ((h.append plain_nil).mentions t)
  | increment =>
      refine consumes_word.bind fun form n h => (consumes_integer 32).bind fun form' d h' => .pure ?_
      exact (h.append (h'.append plain_nil)).mentions t
  | label =>
      refine (consumes_reference t).bind fun form r h => .pure ?_
      rw [List.append_nil]
      exact h
  | table =>
      refine (consumes_integer 32).bind fun form low h => consumes_get.peek fun toks => ?_
      refine (consumes_entries _ t).bind fun form' r hr => ?_
      refine (consumes_reference r.2).bind fun form'' r' hr' => .pure ?_
      rw [List.append_nil]
      exact (h.mentions t).append (hr.append hr')
  | member =>
      refine consumes_string.bind fun form o h => consumes_string.bind fun form' n h' => ?_
      refine consumes_string.bind fun form'' d h'' => .pure ?_
      exact (h.append (h'.append (h''.append plain_nil))).mentions t
  | type => exact consumes_string.bind fun form v h => .pure ((h.append plain_nil).mentions t)

/-- **An instruction or a mark** has the labels that its tokens name. -/
lemma consumes_round (t : LabelTable) :
    Consumes (codeRound t) fun form r => Mentions t form (textLabels r.1.operand) r.2 := by
  refine consumes_next.bind ?_
  rintro _ tok rfl
  split
  · next hkind =>
      split
      · next id t' hdefine =>
          refine .pure ?_
          obtain ⟨hnumber, -, horder⟩ := t.mention_eq tok.value tok.line
          have hname : labelName? tok = some tok.value := by rw [labelName?, hkind]
          have hdefined : definedNames [tok] = [tok.value] := by simp [definedNames, definedName?, hkind]
          have hmentions := mention_mentions t (by simp [Flat, hkind]) hname
            (t.order ++ [(t.mention tok.value tok.line).1]) (by rw [hdefined, hnumber]; rfl)
          unfold LabelTable.define at hdefine
          generalize t.mention tok.value tok.line = r at hdefine horder hmentions
          simp only at hdefine
          split at hdefine
          · cases hdefine
          · cases hdefine
            rw [horder]
            exact hmentions
      · exact consumes_throw _
  · next hkind =>
      unfold instruction
      split
      · exact consumes_throw _
      · exact consumes_throw _
      · next op _ hop =>
          have hplain : Plain [tok] :=
            plain_singleton (Or.inr (Or.inr ⟨hkind, isReference_of_mnemonic hop⟩))
          intro toks r rest hr
          dsimp only at hr
          split at hr
          · cases hr
          · next v t' rest' hoperand =>
              cases hr
              obtain ⟨form, hform, hmentions⟩ := consumes_operand t _ toks _ _ hoperand
              exact ⟨form, hform, (hplain.mentions t).append hmentions⟩
  · exact consumes_throw _

lemma consumes_code (t : LabelTable) : Consumes (code t) fun form r =>
    Mentions t form (r.1.flatMap fun i => textLabels i.operand) r.2 := by
  have hall : ∀ n t, Consumes (codeUpTo n t) fun form r =>
      Mentions t form (r.1.flatMap fun i => textLabels i.operand) r.2 := by
    intro n
    induction n with
    | zero => exact fun t => .pure (plain_nil.mentions t)
    | succ n ih =>
        intro t
        rw [codeUpTo_succ]
        refine consumes_atClose.peek fun closes => .ite (fun _ => .pure (plain_nil.mentions t)) fun _ => ?_
        refine (consumes_round t).bind fun form r hr => (ih r.2).bind fun form' r' hr' => .pure ?_
        rw [List.append_nil, List.flatMap_cons]
        exact hr.append hr'
  exact consumes_get.peek fun toks => hall toks.length t

/-! ## Ranges and locals -/

lemma consumes_catch (t : LabelTable) :
    Consumes (catchForm t) fun form r => Mentions t form (Code.rangeLabels r.1) r.2 := by
  refine (consumes_reference t).bind fun form start hstart => ?_
  refine (consumes_reference start.2).bind fun form' stop hstop => ?_
  refine (consumes_reference stop.2).bind fun form'' handler hhandler => ?_
  refine consumes_next.bind ?_
  rintro _ tok rfl
  have hlabels : Plain [tok] → Mentions t (form ++ (form' ++ (form'' ++ [tok])))
      [start.1, stop.1, handler.1] handler.2 := fun hplain =>
    hstart.append (hstop.append (hhandler.append (hplain.mentions handler.2)))
  refine .ite (fun hstring => .pure ?_) fun _ => .ite (fun hany => .pure ?_) fun _ => consumes_throw _
  · rw [List.append_nil]
    exact hlabels (plain_singleton (Or.inl (beq_iff_eq.mp hstring)))
  · rw [List.append_nil]
    simp only [Bool.and_eq_true, beq_iff_eq] at hany
    exact hlabels (plain_singleton (Or.inr (Or.inr ⟨hany.1, by rw [hany.2]; decide⟩)))

lemma consumes_local (t : LabelTable) :
    Consumes (localForm t) fun form r => Mentions t form [r.1.start, r.1.stop] r.2 := by
  refine consumes_string.bind fun form₁ name hname => consumes_string.bind fun form₂ desc hdesc => ?_
  refine (consumes_reference t).bind fun form₃ start hstart => ?_
  refine (consumes_reference start.2).bind fun form₄ stop hstop => ?_
  refine consumes_word.bind fun form₅ index hindex => .pure ?_
  have hlabels := (hname.mentions t).append ((hdesc.mentions t).append
    (hstart.append (hstop.append ((hindex.append plain_nil).mentions stop.2))))
  exact hlabels

/-! ## Sections -/

/-- **The labels that a method has from the sections of a keyword**, in the order of the text. -/
def sectionLabels (m : Method) (word : Text) : List Label :=
  if word = Text.ofString "code" then m.code.toList.flatMap fun i => textLabels i.operand
  else if word = Text.ofString "catch" then m.ranges.flatMap Code.rangeLabels
  else if word = Text.ofString "local" then m.localVars.flatMap fun v => [v.start, v.stop]
  else []

/-- **One section of a method.** -/
lemma consumes_methodSection (params : Nat) (d : Draft) (kw : Token) :
    Consumes (methodSection params d kw) fun form d' => ∃ ids, Mentions d.table form ids d'.table
      ∧ ∀ word, sectionLabels d'.method word
        = sectionLabels d.method word ++ if kw.value = word then ids else [] := by
  have hplain : ∀ {form : List Token} {d' : Draft}, Plain form → d'.table = d.table →
      d'.method.code = d.method.code → d'.method.ranges = d.method.ranges →
      d'.method.localVars = d.method.localVars →
      ∃ ids, Mentions d.table form ids d'.table ∧ ∀ word, sectionLabels d'.method word
        = sectionLabels d.method word ++ if kw.value = word then ids else [] := by
    intro form d' hform htable hcode hranges hlocals
    refine ⟨[], htable ▸ hform.mentions d.table, fun word => ?_⟩
    simp [sectionLabels, hcode, hranges, hlocals]
  have hplain' : ∀ {form : List Token} {d' : Draft}, Plain form → d'.table = d.table →
      d'.method.code = d.method.code → d'.method.ranges = d.method.ranges →
      d'.method.localVars = d.method.localVars →
      ∃ ids, Mentions d.table (form ++ []) ids d'.table ∧ ∀ word, sectionLabels d'.method word
        = sectionLabels d.method word ++ if kw.value = word then ids else [] := fun hform =>
    hplain (hform.append plain_nil)
  unfold methodSection
  refine .ite (fun _ => ?_) fun _ => .ite (fun _ => ?_) fun _ => .ite (fun _ => ?_) fun _ =>
    .ite (fun _ => ?_) fun _ => .ite (fun _ => ?_) fun _ => .ite (fun _ => ?_) fun _ =>
    .ite (fun hkw => ?_) fun _ => .ite (fun hkw => ?_) fun _ => .ite (fun hkw => ?_) fun _ => ?_
  · exact consumes_flags.bind fun form _ hform => .pure (hplain' hform rfl rfl rfl rfl)
  · exact consumes_strings.bind fun form _ hform => .pure (hplain' hform rfl rfl rfl rfl)
  · exact consumes_strings.bind fun form _ hform => .pure (hplain' hform rfl rfl rfl rfl)
  · refine consumes_word.bind fun form i hform => .ite (fun _ => consumes_throw _) fun _ => ?_
    refine consumes_strings.bind fun form' _ hform' => .pure ?_
    exact hplain (hform.append (hform'.append plain_nil)) rfl rfl rfl rfl
  · exact consumes_word.bind fun form _ hform => .pure (hplain' hform rfl rfl rfl rfl)
  · exact consumes_word.bind fun form _ hform => .pure (hplain' hform rfl rfl rfl rfl)
  · refine Consumes.bind (Consumes.wrap (consumes_code d.table) ?_) fun form r hr => .pure ?_
    · intro toks r hr
      split at hr
      · cases hr
      · next hcode =>
          cases hr
          exact hcode
    · refine ⟨_, (List.append_nil form).symm ▸ hr, fun word => ?_⟩
      rw [beq_iff_eq.mp hkw]
      by_cases hcode : word = Text.ofString "code"
      · simp [sectionLabels, hcode]
      · simp [sectionLabels, hcode, Ne.symm hcode]
  · refine (consumes_catch d.table).bind fun form r hr => .pure ?_
    refine ⟨_, (List.append_nil form).symm ▸ hr, fun word => ?_⟩
    rw [beq_iff_eq.mp hkw]
    by_cases hcatch : word = Text.ofString "catch"
    · have hcode : Text.ofString "catch" ≠ Text.ofString "code" := by decide
      simp [sectionLabels, hcatch, hcode]
    · simp [sectionLabels, hcatch, Ne.symm hcatch]
  · refine (consumes_local d.table).bind fun form r hr => .pure ?_
    refine ⟨_, (List.append_nil form).symm ▸ hr, fun word => ?_⟩
    rw [beq_iff_eq.mp hkw]
    by_cases hlocal : word = Text.ofString "local"
    · have hother : Text.ofString "local" ≠ Text.ofString "code"
          ∧ Text.ofString "local" ≠ Text.ofString "catch" := by decide
      simp [sectionLabels, hlocal, hother]
    · simp [sectionLabels, hlocal, Ne.symm hlocal]
  · exact consumes_throw _

/-- **What has been read of a method**, section by section. -/
structure Draft.Reads (sections : List SectionForm) (d : Draft) : Prop where
  mentions : ∃ ids, Mentions {} (bodies sections) ids d.table
  labels : ∀ word, sectionLabels d.method word
    = (labelNames (bodiesOf word sections)).map d.table.number

lemma bodiesOf_concat (word : Text) (sections : List SectionForm) (s : SectionForm) :
    bodiesOf word (sections ++ [s])
      = bodiesOf word sections ++ if s.keyword.value = word then s.body else [] := by
  rw [bodiesOf, List.filter_append, bodies, List.flatMap_append, List.filter_singleton]
  by_cases hword : s.keyword.value = word
  · simp [bodiesOf, bodies, hword]
  · simp [bodiesOf, bodies, hword, beq_eq_false_iff_ne.mpr hword]

lemma labelNames_bodiesOf_subset (word : Text) (sections : List SectionForm) :
    labelNames (bodiesOf word sections) ⊆ labelNames (bodies sections) :=
  ((List.filter_sublist.flatMap SectionForm.body).filterMap labelName?).subset

/-- One more section. -/
lemma Draft.Reads.concat {sections : List SectionForm} {d d' : Draft} (h : d.Reads sections) (s : SectionForm)
    {ids : List Label} (hs : Mentions d.table s.body ids d'.table)
    (hlabels : ∀ word, sectionLabels d'.method word
      = sectionLabels d.method word ++ if s.keyword.value = word then ids else []) :
    d'.Reads (sections ++ [s]) := by
  obtain ⟨ids₀, hbefore⟩ := h.mentions
  refine ⟨⟨ids₀ ++ ids, ?_⟩, fun word => ?_⟩
  · have hbodies : bodies (sections ++ [s]) = bodies sections ++ s.body := by simp [bodies]
    rw [hbodies]
    exact hbefore.append hs
  · have hlater : (labelNames (bodiesOf word sections)).map d.table.number
        = (labelNames (bodiesOf word sections)).map d'.table.number := by
      refine List.map_congr_left fun n hn => (LabelTable.number_of_prefix hs.grows ?_).symm
      exact hbefore.known n (labelNames_bodiesOf_subset word sections hn)
    rw [hlabels, h.labels, bodiesOf_concat, labelNames_append, List.map_append, hlater]
    split
    · rw [hs.ids]
    · rfl

/-- A section with its parentheses. -/
def sectionRound (params : Nat) (d : Draft) : Parse Draft := do
  let _ ← expect .open_
  let kw ← expect .ident
  let d ← methodSection params d kw
  closeForm
  return d

lemma methodSections_succ (params n : Nat) (d : Draft) : methodSections params (n + 1) d = (do
    if ← atClose then return d else
      let d ← sectionRound params d
      methodSections params n d) := by
  rw [methodSections]
  refine bind_congr fun closes => ?_
  cases closes with
  | true => rfl
  | false => simp [sectionRound]

/-- **A section that is read.** -/
lemma consumes_sectionRound {sections : List SectionForm} {params : Nat} {d : Draft} (h : d.Reads sections) :
    Consumes (sectionRound params d) fun form d' =>
      ∃ s : SectionForm, form = s.tokens ∧ d'.Reads (sections ++ [s]) := by
  refine (consumes_expect .open_).bind ?_
  rintro _ opening ⟨rfl, hopens⟩
  refine (consumes_expect .ident).bind ?_
  rintro _ keyword ⟨rfl, -⟩
  refine (consumes_methodSection params d keyword).bind ?_
  rintro body d' ⟨ids, hmentions, hlabels⟩
  refine Consumes.bind (Q := fun form _ => ∃ closing : Token, form = [closing] ∧ closing.kind = .close) ?_ ?_
  · refine (consumes_expect .close).bind ?_
    rintro _ closing ⟨rfl, hcloses⟩
    exact .pure ⟨closing, rfl, hcloses⟩
  · rintro _ _ ⟨closing, rfl, hcloses⟩
    let s : SectionForm := ⟨opening, keyword, body, closing, hopens, hmentions.flat, hcloses⟩
    exact .pure ⟨s, by simp [s, SectionForm.tokens], h.concat s hmentions hlabels⟩

/-- **Sections that are read**, one after another. -/
lemma consumes_methodSections (params n : Nat) {sections : List SectionForm} {d : Draft}
    (h : d.Reads sections) :
    Consumes (methodSections params n d) fun form d' => ∃ more : List SectionForm,
      form = more.flatMap SectionForm.tokens ∧ d'.Reads (sections ++ more) := by
  induction n generalizing d sections with
  | zero => exact .pure ⟨[], rfl, by rwa [List.append_nil]⟩
  | succ n ih =>
      rw [methodSections_succ]
      refine consumes_atClose.peek fun closes => .ite (fun _ => .pure ⟨[], rfl, ?_⟩) fun _ => ?_
      · rwa [List.append_nil]
      refine (consumes_sectionRound h).bind ?_
      rintro _ d₁ ⟨s, rfl, hd₁⟩
      refine (ih hd₁).mono ?_
      rintro _ d' ⟨more, rfl, hd'⟩
      exact ⟨s :: more, rfl, by rwa [List.append_assoc] at hd'⟩

/-- With a round for every token the sections are read up to the end of the form. -/
lemma atEnd_methodSections {params n : Nat} {sections : List SectionForm} {d d' : Draft}
    {toks rest : List Token} (hd : d.Reads sections) (hn : toks.length < n)
    (h : methodSections params n d toks = .ok (d', rest)) : AtEnd rest := by
  induction n generalizing d sections toks with
  | zero => omega
  | succ n ih =>
      rw [methodSections_succ] at h
      obtain ⟨closes, toks', hclose, h⟩ := exists_of_bind h
      cases toks with
      | nil =>
          cases hclose
          cases h
          simp [AtEnd]
      | cons tok more =>
          cases hclose
          split at h
          · next hkind =>
              cases h
              rintro _ _ ⟨rfl, rfl⟩
              exact beq_iff_eq.mp hkind
          · obtain ⟨d₁, toks₁, hround, h⟩ := exists_of_bind h
            obtain ⟨_, htoks, s, rfl, hd₁⟩ := consumes_sectionRound hd _ _ _ hround
            have hlength := congrArg List.length htoks
            simp only [List.length_append, SectionForm.tokens, List.length_cons] at hlength hn
            exact ih hd₁ (by omega) h

/-! ## Complete methods -/

/-- **A method has the labels that the names of its form denote.**  Its label marks have the numbers
0, 1, 2, … in order of definition; a name has the number of its definition wherever it stands, in the code
and in ranges and the names of locals; and no name is defined twice.  A name that is mentioned is defined,
as long as there are no more names than numbers. -/
structure MethodForm.Resolves (f : MethodForm) (m : Method) : Prop where
  once : f.definitions.Nodup
  marks : m.code.marks = (List.range f.definitions.length).map UInt32.ofNat
  distinct : m.code.marks.Nodup
  defined : f.names.dedup.length ≤ 2 ^ 32 → ∀ n ∈ f.names, n ∈ f.definitions
  labels : (∀ n ∈ f.names, n ∈ f.definitions) →
    ∀ word, sectionLabels m word = (labelNames (bodiesOf word f.sections)).map f.label

/-- The places of all labels in order. -/
lemma map_placeIn {ids : List Label} (h : ids.Nodup) :
    ids.map (placeIn ids) = (List.range ids.length).map UInt32.ofNat := by
  refine List.ext_getElem (by simp) fun i hi _ => ?_
  simp [placeIn, h.idxOf_getElem]

lemma sectionLabels_relabel (g : Label → Label) (m : Method) (word : Text) (maxLocals maxStack : UInt32) :
    sectionLabels { relabel g m with maxLocals, maxStack } word = (sectionLabels m word).map g := by
  have hinstruction : ∀ i : Instruction, textLabels (relabelInstruction g i).operand
      = (textLabels i.operand).map g := by
    rintro ⟨op, o⟩
    cases o <;> simp [relabelInstruction, relabelOperand, textLabels]
  simp only [sectionLabels, relabel_eq]
  split
  · simp [List.flatMap_map, List.map_flatMap, hinstruction]
  split
  · simp [List.flatMap_map, List.map_flatMap, relabelRange, Code.rangeLabels]
  split
  · simp [List.flatMap_map, List.map_flatMap, relabelVar]
  · rfl

/-- **A complete draft** has the labels that the names denote. -/
lemma Draft.Reads.resolves {params : Nat} {desc : Text} {name desc' : Token} {sections : List SectionForm}
    {d : Draft} {m : Method} (h : d.Reads sections) (hsound : d.Sound params desc)
    (hfinish : d.finish params = .ok m) : MethodForm.Resolves ⟨name, desc', sections⟩ m := by
  obtain ⟨hnone, maxLocals, maxStack, rfl⟩ := Draft.finish_eq hfinish
  obtain ⟨ids, hmentions⟩ := h.mentions
  let f : MethodForm := ⟨name, desc', sections⟩
  have horder : d.table.order = f.definitions.map d.table.number := hmentions.order
  have hnodup : d.table.known.Nodup := hmentions.nodup List.nodup_nil
  have honly : d.table.known ⊆ f.names :=
    fun n hn => (hmentions.only n hn).resolve_left (by simp [LabelTable.known])
  have hmarks : Code.marks (relabel d.table.place d.method).code
      = (List.range f.definitions.length).map UInt32.ofNat := by
    have hplace : d.method.code.marks.map d.table.place = d.method.code.marks.map
      (placeIn d.method.code.marks) := by
      refine List.map_congr_left fun id hid => ?_
      rw [LabelTable.place_eq (hsound.order ▸ hid), hsound.order]
    rw [marks_relabel, hplace, map_placeIn (hsound.order ▸ hsound.nodup), ← hsound.order, horder,
      List.length_map]
  -- there are as many definitions as labels that are defined
  have hfew : f.definitions.length ≤ 2 ^ 32 := by
    have hlength := length_le_of_nodup hsound.nodup
    rwa [horder, List.length_map] at hlength
  refine ⟨List.Nodup.of_map _ (horder ▸ hsound.nodup), hmarks, ?_, fun hbound n hn => ?_,
    fun hdefined word => ?_⟩
  · have hinj : ∀ a ∈ List.range f.definitions.length, ∀ b ∈ List.range f.definitions.length,
        UInt32.ofNat a = UInt32.ofNat b → a = b := by
      intro a ha b hb hab
      rw [List.mem_range] at ha hb
      have hnat := congrArg UInt32.toNat hab
      rwa [UInt32.toNat_ofNat_of_lt' (by simp only [UInt32.size]; omega),
        UInt32.toNat_ofNat_of_lt' (by simp only [UInt32.size]; omega)] at hnat
    dsimp only
    rw [hmarks]
    exact List.nodup_range.map_on fun a ha b hb => hinj a ha b hb
  · -- the number of a name that is mentioned is that of a definition, and names have numbers of their own
    have hknown : d.table.known.length ≤ 2 ^ 32 :=
      ((hnodup.subperm fun n hn => List.mem_dedup.mpr (honly hn)).length_le).trans hbound
    have hmem : n ∈ d.table.known := hmentions.known n hn
    have hnumber : d.table.number n ∈ d.table.order := by
      refine LabelTable.mem_order hnone ⟨d.table.known.idxOf n, ?_, rfl⟩
      rw [← d.table.length_known]
      exact List.idxOf_lt_length_of_mem hmem
    rw [horder] at hnumber
    obtain ⟨n', hn', heq⟩ := List.mem_map.mp hnumber
    have hmem' : n' ∈ d.table.known := hmentions.known n' (definedNames_subset _ hn')
    exact LabelTable.number_injOn hknown hmem' hmem heq ▸ hn'
  · have hknown : d.table.known.length ≤ 2 ^ 32 :=
      ((hnodup.subperm fun n hn => hdefined n (honly hn)).length_le).trans hfew
    rw [sectionLabels_relabel, h.labels, List.map_map]
    refine List.map_congr_left fun n hn => ?_
    have hn : n ∈ f.definitions := hdefined n (labelNames_bodiesOf_subset word sections hn)
    have hinj : ∀ a ∈ f.definitions, ∀ b ∈ f.definitions, d.table.number a = d.table.number b → a = b :=
      fun a ha b hb => LabelTable.number_injOn hknown (hmentions.known a (definedNames_subset _ ha))
        (hmentions.known b (definedNames_subset _ hb))
    rw [Function.comp_apply, LabelTable.place_eq (horder ▸ List.mem_map_of_mem hn), horder, placeIn,
      idxOf_map hinj hn]
    rfl

/-! ## Method forms -/

/-- **What is accepted as a method is a method form**, up to where the form ends; and the method has the
labels that the names denote. -/
lemma method_form {toks rest : List Token} {m : Method} (h : method toks = .ok (m, rest)) :
    ∃ f : MethodForm, toks = f.tokens ++ rest ∧ AtEnd rest ∧ f.Resolves m := by
  obtain ⟨nameText, toks₁, hname, hbehind⟩ := exists_of_bind h
  obtain ⟨descText, toks₂, hdesc, hparse⟩ := exists_of_bind hbehind
  obtain ⟨_, rfl, name, rfl, -⟩ := consumes_quoted _ _ _ hname
  obtain ⟨_, rfl, desc, rfl, -⟩ := consumes_quoted _ _ _ hdesc
  cases hparsed : Descriptor.parseMethod descText with
  | error e =>
      rw [hparsed] at hparse
      cases hparse
  | ok parsed =>
      rw [hparsed] at hparse
      obtain ⟨_, _, hget, hdraft⟩ := exists_of_bind hparse
      cases hget
      obtain ⟨d, toks₃, hsections, hfinish⟩ := exists_of_bind hdraft
      have hstart : Draft.Reads [] { method := { name := nameText, desc := descText } } := by
        refine ⟨⟨[], plain_nil.mentions _⟩, fun word => ?_⟩
        simp [sectionLabels, bodiesOf, bodies, labelNames]
      have hend : AtEnd toks₃ := atEnd_methodSections hstart (Nat.lt_succ_self _) hsections
      have hsound := yields_methodSections _ (Draft.sound_start parsed.params.length nameText descText)
        _ _ _ hsections
      obtain ⟨_, rfl, sections, rfl, hreads⟩ := consumes_methodSections _ _ hstart _ _ _ hsections
      cases hcomplete : d.finish parsed.params.length with
      | error e =>
          rw [hcomplete] at hfinish
          cases hfinish
      | ok m' =>
          rw [hcomplete] at hfinish
          cases hfinish
          exact ⟨⟨name, desc, sections⟩, rfl, hend, hreads.resolves hsound hcomplete⟩

/-- Tokens up to a parenthesis. -/
lemma flat_inj {body body' rest rest' : List Token} {t t' : Token} (hbody : Flat body) (hbody' : Flat body')
    (ht : t.kind = .close) (ht' : t'.kind = .close) (h : body ++ t :: rest = body' ++ t' :: rest') :
    body = body' ∧ t = t' ∧ rest = rest' := by
  induction body generalizing body' with
  | nil =>
      cases body' with
      | nil => simpa using h
      | cons u body' =>
          obtain ⟨rfl, -⟩ := List.cons.inj h
          exact absurd ht (hbody' _ List.mem_cons_self).2
  | cons u body ih =>
      cases body' with
      | nil =>
          obtain ⟨rfl, -⟩ := List.cons.inj h
          exact absurd ht' (hbody _ List.mem_cons_self).2
      | cons u' body' =>
          obtain ⟨rfl, hmore⟩ := List.cons.inj h
          obtain ⟨rfl, hrest⟩ := ih (fun x hx => hbody x (List.mem_cons_of_mem _ hx))
            (fun x hx => hbody' x (List.mem_cons_of_mem _ hx)) hmore
          exact ⟨rfl, hrest⟩

/-- Tokens are sections in one way only. -/
lemma sections_inj {sections sections' : List SectionForm} {rest rest' : List Token} (hrest : AtEnd rest)
    (hrest' : AtEnd rest') (h : sections.flatMap SectionForm.tokens ++ rest
      = sections'.flatMap SectionForm.tokens ++ rest') : sections = sections' ∧ rest = rest' := by
  -- a section begins with an opening parenthesis, and what follows the last one does not
  have hfirst : ∀ (s : SectionForm) (more : List SectionForm) (rest rest' : List Token), AtEnd rest' →
      (s :: more).flatMap SectionForm.tokens ++ rest ≠ rest' := by
    rintro s more rest rest' hend rfl
    have hclose := hend s.opening _ rfl
    rw [s.opens] at hclose
    cases hclose
  induction sections generalizing sections' with
  | nil =>
      cases sections' with
      | nil => exact ⟨rfl, h⟩
      | cons s' more' => exact absurd h.symm (hfirst s' more' rest' rest hrest)
  | cons s more ih =>
      cases sections' with
      | nil => exact absurd h (hfirst s more rest rest' hrest')
      | cons s' more' =>
          simp only [List.flatMap_cons, SectionForm.tokens, List.cons_append, List.append_assoc,
            List.nil_append, List.cons.injEq] at h
          obtain ⟨hopening, hkeyword, h⟩ := h
          obtain ⟨hbody, hclosing, h⟩ := flat_inj s.flat s'.flat s.closes s'.closes h
          obtain ⟨rfl, hrest⟩ := ih h
          cases s
          cases s'
          simp only at hopening hkeyword hbody hclosing
          subst hopening hkeyword hbody hclosing
          exact ⟨rfl, hrest⟩

/-- **A method form that is accepted** is read up to its end, and the method has the labels that the names
denote. -/
lemma MethodForm.read {f : MethodForm} {rest rest' : List Token} {m : Method} (hrest : AtEnd rest)
    (h : method (f.tokens ++ rest) = .ok (m, rest')) : rest' = rest ∧ f.Resolves m := by
  obtain ⟨f', htoks, hrest', hresolves⟩ := method_form h
  obtain ⟨name, desc, sections⟩ := f
  obtain ⟨name', desc', sections'⟩ := f'
  simp only [MethodForm.tokens, List.cons_append, List.cons.injEq] at htoks
  obtain ⟨rfl, rfl, htoks⟩ := htoks
  obtain ⟨rfl, rfl⟩ := sections_inj hrest hrest' htoks
  exact ⟨rfl, hresolves⟩

end Assembly

end Suspension
