import Suspension.Proofs.Assembly.Resolution

/-!
# Texts with other label names

**The names of labels do not matter.**  Tokens whose label names are exchanged, different names for
different ones, are read with the same result.

* `Token.rename` — a token with another label name.
* `Assembly.Commutes` — two readers that do the same to tokens with other label names.
* `Assembly.ofTokens_rename` — the classes that such tokens denote.
-/

namespace Suspension

variable {g : Text → Text}

/-! ## Tokens -/

namespace Token

/-- A token with another label name. -/
def rename (g : Text → Text) (t : Token) : Token :=
  if t.labelName?.isSome then { t with value := g t.value } else t

@[simp] lemma rename_kind (g : Text → Text) (t : Token) : (t.rename g).kind = t.kind := by
  unfold rename
  split <;> rfl

@[simp] lemma rename_line (g : Text → Text) (t : Token) : (t.rename g).line = t.line := by
  unfold rename
  split <;> rfl

/-- A string, a number or a parenthesis names no label. -/
lemma rename_of_kind {t : Token} (hlabel : t.kind ≠ .label) (hident : t.kind ≠ .ident) : t.rename g = t := by
  have hname : t.labelName? = none := by
    unfold labelName?
    split <;> simp_all
  simp [rename, hname]

lemma rename_label {t : Token} (h : t.kind = .label) : (t.rename g).value = g t.value := by
  simp [rename, labelName?, h]

lemma rename_reference {t : Token} (h : t.kind = .ident) (href : isReference t.value = true) :
    (t.rename g).value = g t.value := by
  simp [rename, labelName?, h, href]

lemma rename_word {t : Token} (h : t.kind = .ident) (hword : isReference t.value = false) : t.rename g = t := by
  simp [rename, labelName?, h, hword]

end Token

/-- **Other names for labels**: different names for different ones, and names that may refer to labels for
those that do. -/
structure Renames (g : Text → Text) : Prop where
  injective : Function.Injective g
  reference : ∀ n, Token.isReference n = true → Token.isReference (g n) = true

namespace Assembly

open Token

variable {α β : Type}

section Words

variable {t : Token}

/-- Whether an identifier is a word that names no label. -/
lemma rename_value_eq (hg : Renames g) (h : t.kind = .ident) {w : Text} (hw : isReference w = false) :
    (t.rename g).value = w ↔ t.value = w := by
  cases href : isReference t.value with
  | false => rw [rename_word h href]
  | true =>
      have hne : ∀ {v : Text}, isReference v = true → v ≠ w := by
        rintro v hv rfl
        rw [hv] at hw
        cases hw
      rw [rename_reference h href]
      exact iff_of_false (hne (hg.reference _ href)) (hne href)

lemma isReference_rename (hg : Renames g) (h : t.kind = .ident) :
    isReference (t.rename g).value = isReference t.value := by
  cases href : isReference t.value with
  | false => rw [rename_word h href, href]
  | true => rw [rename_reference h href, hg.reference _ href]

/-- A word that is looked up among words that name no label. -/
lemma lookup_rename (hg : Renames g) (h : t.kind = .ident) {γ : Type} (find : Text → Option γ)
    (hfind : ∀ v c, find v = some c → isReference v = false) : find (t.rename g).value = find t.value := by
  have hnone : ∀ v, isReference v = true → find v = none := by
    intro v hv
    cases hc : find v with
    | none => rfl
    | some c => rw [hfind v c hc] at hv; cases hv
  cases href : isReference t.value with
  | false => rw [rename_word h href]
  | true => rw [hnone _ href, hnone _ ((isReference_rename hg h).trans href)]

end Words

/-! ## Readers -/

/-- Two computations that both fail, or give the same up to `f`. -/
lemma both_of_toOption {ε ε' γ δ : Type} {x : Except ε γ} {x' : Except ε' δ} {f : γ → δ}
    (h : x'.toOption = x.toOption.map f) :
    (∃ e e', x = .error e ∧ x' = .error e') ∨ ∃ a, x = .ok a ∧ x' = .ok (f a) := by
  cases x <;> cases x' <;> simp_all [Except.toOption]

/-- **Two readers that do the same to tokens with other label names**: both fail, or what they give differs
by `φ`. -/
def Commutes (g : Text → Text) (φ : α → α) (p p' : Parse α) : Prop :=
  ∀ toks, (p' (toks.map (rename g))).toOption
    = (p toks).toOption.map fun r => (φ r.1, r.2.map (rename g))

section Commutes

variable {p p' q q' : Parse α} {f f' : α → Parse β} {φ : α → α} {ψ : β → β} {P : α → Prop}

lemma commutes_pure {a a' : α} (h : a' = φ a) : Commutes g φ (pure a) (pure a') := by
  subst h
  intro toks
  rfl

lemma commutes_throw (e e' : Problem) : Commutes g φ (throw e) (throw e') := fun _ => rfl

lemma Commutes.bind (h : Commutes g φ p p') (hP : Yields p P)
    (h' : ∀ a, P a → Commutes g ψ (f a) (f' (φ a))) : Commutes g ψ (p >>= f) (p' >>= f') := by
  intro toks
  have hp := h toks
  have hbind : (p >>= f) toks = (p toks >>= fun x => f x.1 x.2) := rfl
  have hbind' : (p' >>= f') (toks.map (rename g))
      = (p' (toks.map (rename g)) >>= fun x => f' x.1 x.2) := rfl
  rw [hbind, hbind']
  obtain ⟨e, e', hr, hr'⟩ | ⟨r, hr, hr'⟩ := both_of_toOption hp
  · rw [hr, hr']
    rfl
  · rw [hr, hr']
    exact h' r.1 (hP toks r.1 r.2 hr) r.2

/-- Nothing is known of what is read first. -/
lemma Commutes.after (h : Commutes g φ p p') (h' : ∀ a, Commutes g ψ (f a) (f' (φ a))) :
    Commutes g ψ (p >>= f) (p' >>= f') := h.bind (yields_any p) fun a _ => h' a

lemma Commutes.ite {c c' : Prop} [Decidable c] [Decidable c'] (hc : c' ↔ c) (hp : Commutes g φ p p')
    (hq : Commutes g φ q q') : Commutes g φ (if c then p else q) (if c' then p' else q') := by
  by_cases h : c
  · rw [if_pos h, if_pos (hc.mpr h)]
    exact hp
  · rw [if_neg h, if_neg (hc.not.mpr h)]
    exact hq

/-- Readers whose faults are reported differently. -/
lemma Commutes.wrap (h : Commutes g φ p p') (hq : ∀ toks, (q toks).toOption = (p toks).toOption)
    (hq' : ∀ toks, (q' toks).toOption = (p' toks).toOption) : Commutes g φ q q' := by
  intro toks
  rw [hq, hq']
  exact h toks

lemma commutes_get : Commutes g (List.map (rename g)) get get := fun _ => rfl

lemma commutes_next : Commutes g (rename g) next next := by
  intro toks
  cases toks <;> rfl

lemma commutes_atClose : Commutes g id atClose atClose := by
  intro toks
  cases toks with
  | nil => rfl
  | cons t toks => simp [atClose, Except.toOption]

lemma commutes_expect (kind : TokenKind) : Commutes g (rename g) (expect kind) (expect kind) := by
  refine commutes_next.after fun t => ?_
  rw [rename_kind, rename_line]
  exact .ite Iff.rfl (commutes_pure rfl) (commutes_throw _ _)

lemma yields_expect (kind : TokenKind) : Yields (expect kind) fun t => t.kind = kind := by
  refine .after next fun t => ?_
  split
  · next hkind => exact .pure (beq_iff_eq.mp hkind)
  · exact yields_throw _

/-- An identifier. -/
lemma Commutes.ident {f f' : Token → Parse β}
    (h : ∀ t, t.kind = .ident → Commutes g ψ (f t) (f' (t.rename g))) :
    Commutes g ψ (expect .ident >>= f) (expect .ident >>= f') :=
  (commutes_expect .ident).bind (yields_expect .ident) h

/-- A string or a number. -/
lemma Commutes.literal {kind : TokenKind} (hkind : kind ≠ .label ∧ kind ≠ .ident) {f f' : Token → Parse β}
    (h : ∀ t, Commutes g ψ (f t) (f' t)) : Commutes g ψ (expect kind >>= f) (expect kind >>= f') := by
  refine (commutes_expect kind).bind (yields_expect kind) fun t ht => ?_
  rw [rename_of_kind (ht ▸ hkind.1) (ht ▸ hkind.2)]
  exact h t

/-- As many rounds as tokens. -/
lemma Commutes.rounds {f f' : Nat → Parse α} (k : Nat) (h : ∀ n, Commutes g φ (f n) (f' n)) :
    Commutes g φ (do f ((← get).length + k)) (do f' ((← get).length + k)) := by
  refine commutes_get.after fun toks => ?_
  rw [List.length_map]
  exact h _

end Commutes

/-! ## Words without labels -/

lemma commutes_string : Commutes g id string string :=
  .literal (by decide) fun _ => commutes_pure rfl

lemma commutes_integer (width : Nat) : Commutes g id (integer width) (integer width) := by
  refine .literal (by decide) fun t => ?_
  split
  · exact commutes_pure rfl
  · exact commutes_throw _ _

lemma commutes_word : Commutes g id word word := by
  refine .literal (by decide) fun t => ?_
  split
  · exact commutes_pure rfl
  · exact commutes_throw _ _

lemma commutes_float (f : FloatFormat) : Commutes g id (float f) (float f) := by
  refine .literal (by decide) fun t => ?_
  split
  · exact commutes_pure rfl
  · exact commutes_throw _ _

lemma commutes_strings : Commutes g id strings strings := by
  have hall : ∀ n, Commutes g id (stringsUpTo n) (stringsUpTo n) := by
    intro n
    induction n with
    | zero => exact commutes_pure rfl
    | succ n ih =>
        refine commutes_atClose.after fun closes => .ite Iff.rfl (commutes_pure rfl) ?_
        exact commutes_string.after fun s => ih.after fun more => commutes_pure rfl
  exact Commutes.rounds 0 hall

lemma commutes_flags (hg : Renames g) : Commutes g id flags flags := by
  have hall : ∀ n acc, Commutes g id (flagsUpTo n acc) (flagsUpTo n acc) := by
    intro n
    induction n with
    | zero => exact fun acc => commutes_pure rfl
    | succ n ih =>
        intro acc
        refine commutes_atClose.after fun closes => .ite Iff.rfl (commutes_pure rfl) ?_
        refine .ident fun t ht => ?_
        rw [lookup_rename hg ht (fun v => Flag.words.lookup v) fun _ _ => isReference_of_lookup]
        split
        · exact ih _
        · exact commutes_throw _ _
  exact Commutes.rounds 0 fun n => hall n 0

/-! ## Label tables -/

namespace LabelTable

/-- A table with other names. -/
def rename (g : Text → Text) (t : LabelTable) : LabelTable :=
  { t with names := t.names.map fun e => (g e.1, e.2) }

lemma find?_rename (hg : Renames g) (t : LabelTable) (name : Text) :
    (t.rename g).find? (g name) = t.find? name := by
  have hsame : (fun e : Text × Nat => (g e.1, e.2).1 == g name) = fun e => e.1 == name := by
    funext e
    rw [Bool.eq_iff_iff, beq_iff_eq, beq_iff_eq, hg.injective.eq_iff]
  rw [find?, rename, List.findIdx?_map]
  exact congrArg (fun p => t.names.findIdx? p) hsame

lemma mention_rename (hg : Renames g) (t : LabelTable) (name : Text) (line : Nat) :
    (t.rename g).mention (g name) line = ((t.mention name line).1, (t.mention name line).2.rename g) := by
  unfold mention
  rw [find?_rename hg]
  cases t.find? name with
  | some i => rfl
  | none => simp [rename]

lemma define_rename (hg : Renames g) (t : LabelTable) (name : Text) (line : Nat) :
    ((t.rename g).define (g name) line).toOption
      = (t.define name line).toOption.map fun r => (r.1, r.2.rename g) := by
  unfold define
  rw [mention_rename hg]
  generalize t.mention name line = r
  obtain ⟨id, t'⟩ := r
  dsimp only
  have horder : (t'.rename g).order = t'.order := rfl
  rw [horder]
  split <;> rfl

lemma undefined?_rename (t : LabelTable) :
    (t.rename g).undefined? = t.undefined?.map fun e => (g e.1, e.2) := by
  have hall : ∀ (names : List (Text × Nat)) (i : Nat),
      firstUndefined? t.order (names.map fun e => (g e.1, e.2)) i
        = (firstUndefined? t.order names i).map fun e => (g e.1, e.2) := by
    intro names
    induction names with
    | nil => exact fun i => rfl
    | cons e names ih =>
        intro i
        simp only [List.map_cons, firstUndefined?, ih]
        split <;> rfl
  exact hall t.names 0

end LabelTable

/-- What is read, with a table that has other names. -/
abbrev withTable (g : Text → Text) (r : α × LabelTable) : α × LabelTable := (r.1, r.2.rename g)

/-! ## Code -/

section Code

variable (hg : Renames g)

include hg

lemma commutes_reference (t : LabelTable) : Commutes g (withTable g) (labelRef t) (labelRef (t.rename g)) := by
  rw [labelRef_eq, labelRef_eq]
  refine .ident fun tok hkind => ?_
  rw [isReference_rename hg hkind, rename_line]
  cases href : isReference tok.value with
  | false => exact commutes_throw _ _
  | true =>
      rw [rename_reference hkind href, LabelTable.mention_rename hg]
      exact commutes_pure rfl

lemma commutes_entries (n : Nat) (t : LabelTable) :
    Commutes g (withTable g) (tableEntries n t) (tableEntries n (t.rename g)) := by
  induction n generalizing t with
  | zero => exact commutes_pure rfl
  | succ n ih =>
      intro toks
      cases toks with
      | nil => rfl
      | cons tok toks =>
          have hdefault : ((tok.rename g).kind == .ident && (tok.rename g).value == Text.ofString "default")
              = (tok.kind == .ident && tok.value == Text.ofString "default") := by
            rw [rename_kind]
            cases hkind : tok.kind == .ident with
            | false => rfl
            | true =>
                rw [Bool.true_and, Bool.true_and, Bool.eq_iff_iff, beq_iff_eq, beq_iff_eq,
                  rename_value_eq hg (beq_iff_eq.mp hkind) (by decide)]
          have hround : Commutes g (withTable g) (tableRound n t) (tableRound n (t.rename g)) :=
            (commutes_reference hg t).after fun r => (ih r.2).after fun r' => commutes_pure rfl
          rw [List.map_cons, tableEntries_cons, tableEntries_cons, hdefault]
          split
          · rfl
          · exact hround (tok :: toks)

lemma commutes_operand (t : LabelTable) (kind : OperandKind) :
    Commutes g (withTable g) (operand t kind) (operand (t.rename g) kind) := by
  cases kind with
  | none => exact commutes_pure rfl
  | int => exact (commutes_integer 32).after fun v => commutes_pure rfl
  | long => exact (commutes_integer 64).after fun v => commutes_pure rfl
  | float => exact (commutes_float .single).after fun v => commutes_pure rfl
  | double => exact (commutes_float .double).after fun v => commutes_pure rfl
  | text => exact commutes_string.after fun v => commutes_pure rfl
  | slot => exact commutes_word.after fun v => commutes_pure rfl
  | increment => exact commutes_word.after fun n => (commutes_integer 32).after fun d => commutes_pure rfl
  | label => exact (commutes_reference hg t).after fun r => commutes_pure rfl
  | table =>
      refine (commutes_integer 32).after fun low => commutes_get.after fun toks => ?_
      rw [List.length_map]
      refine (commutes_entries hg _ t).after fun r => ?_
      exact (commutes_reference hg r.2).after fun r' => commutes_pure rfl
  | member =>
      exact commutes_string.after fun o => commutes_string.after fun n => commutes_string.after fun d =>
        commutes_pure rfl
  | type => exact commutes_string.after fun v => commutes_pure rfl

lemma commutes_round (t : LabelTable) :
    Commutes g (withTable g) (codeRound t) (codeRound (t.rename g)) := by
  refine commutes_next.after fun tok => ?_
  rw [rename_kind, rename_line]
  cases hkind : tok.kind with
  | label =>
      have hdefine := LabelTable.define_rename hg t tok.value tok.line
      rw [rename_label hkind]
      obtain ⟨e, e', h, h'⟩ | ⟨r, h, h'⟩ := both_of_toOption hdefine
      · simp only [h, h']
        exact commutes_throw _ _
      · simp only [h, h']
        exact commutes_pure rfl
  | ident =>
      have hopcode : Opcode.ofMnemonic? (tok.rename g).value = Opcode.ofMnemonic? tok.value :=
        lookup_rename hg hkind Opcode.ofMnemonic? fun _ _ => isReference_of_mnemonic
      dsimp only
      unfold instruction
      rw [hopcode]
      split
      · exact commutes_throw _ _
      · exact commutes_throw _ _
      · next op _ _ =>
          intro toks
          have hoperand := commutes_operand hg t (op.operandKind?.getD .none) toks
          obtain ⟨e, e', h, h'⟩ | ⟨r, h, h'⟩ := both_of_toOption hoperand
          · simp only [h, h']
            rfl
          · simp only [h, h']
            rfl
  | _ => exact commutes_throw _ _

lemma commutes_code (t : LabelTable) : Commutes g (withTable g) (code t) (code (t.rename g)) := by
  have hall : ∀ n t, Commutes g (withTable g) (codeUpTo n t) (codeUpTo n (t.rename g)) := by
    intro n
    induction n with
    | zero => exact fun t => commutes_pure rfl
    | succ n ih =>
        intro t
        rw [codeUpTo_succ, codeUpTo_succ]
        refine commutes_atClose.after fun closes => .ite Iff.rfl (commutes_pure rfl) ?_
        exact (commutes_round hg t).after fun r => (ih r.2).after fun r' => commutes_pure rfl
  exact Commutes.rounds 0 fun n => hall n t

lemma commutes_catch (t : LabelTable) : Commutes g (withTable g) (catchForm t) (catchForm (t.rename g)) := by
  refine (commutes_reference hg t).after fun start => (commutes_reference hg start.2).after fun stop => ?_
  refine (commutes_reference hg stop.2).after fun handler => commutes_next.after fun tok => ?_
  rw [rename_kind, rename_line]
  cases hstring : tok.kind == .string with
  | true =>
      have hkind := beq_iff_eq.mp hstring
      rw [rename_of_kind (by simp [hkind]) (by simp [hkind])]
      exact commutes_pure rfl
  | false =>
      simp only [Bool.false_eq_true, if_false]
      refine .ite ?_ (commutes_pure rfl) (commutes_throw _ _)
      simp only [Bool.and_eq_true, beq_iff_eq]
      exact and_congr_right fun hkind => rename_value_eq hg hkind (by decide)

lemma commutes_local (t : LabelTable) : Commutes g (withTable g) (localForm t) (localForm (t.rename g)) := by
  refine commutes_string.after fun name => commutes_string.after fun desc => ?_
  refine (commutes_reference hg t).after fun start => (commutes_reference hg start.2).after fun stop => ?_
  exact commutes_word.after fun index => commutes_pure rfl

end Code

/-! ## Methods and classes -/

/-- A draft with other label names. -/
def Draft.rename (g : Text → Text) (d : Draft) : Draft := { d with table := d.table.rename g }

section Forms

variable (hg : Renames g)

include hg

/-- A section that is told by its keyword. -/
lemma rename_keyword {kw : Token} (hkind : kw.kind = .ident) {w : Text} (hw : isReference w = false) :
    ((kw.rename g).value == w) = true ↔ (kw.value == w) = true := by
  rw [beq_iff_eq, beq_iff_eq, rename_value_eq hg hkind hw]

lemma commutes_methodSection (params : Nat) (d : Draft) {kw : Token} (hkind : kw.kind = .ident) :
    Commutes g (Draft.rename g) (methodSection params d kw)
      (methodSection params (d.rename g) (kw.rename g)) := by
  unfold methodSection
  refine .ite (rename_keyword hg hkind (by decide)) ?_ (.ite (rename_keyword hg hkind (by decide)) ?_
    (.ite (rename_keyword hg hkind (by decide)) ?_ (.ite (rename_keyword hg hkind (by decide)) ?_
    (.ite (rename_keyword hg hkind (by decide)) ?_ (.ite (rename_keyword hg hkind (by decide)) ?_
    (.ite (rename_keyword hg hkind (by decide)) ?_ (.ite (rename_keyword hg hkind (by decide)) ?_
    (.ite (rename_keyword hg hkind (by decide)) ?_ (commutes_throw _ _)))))))))
  · exact (commutes_flags hg).after fun v => commutes_pure rfl
  · exact commutes_strings.after fun v => commutes_pure rfl
  · exact commutes_strings.after fun v => commutes_pure rfl
  · refine commutes_word.after fun i => .ite Iff.rfl (commutes_throw _ _) ?_
    exact commutes_strings.after fun v => commutes_pure rfl
  · exact commutes_word.after fun v => commutes_pure rfl
  · exact commutes_word.after fun v => commutes_pure rfl
  · refine Commutes.after (Commutes.wrap (commutes_code hg d.table) (fun toks => ?_) fun toks => ?_)
      fun r => commutes_pure rfl
    · cases code d.table toks <;> rfl
    · change _ = (code (d.rename g).table toks).toOption
      cases code (d.rename g).table toks <;> rfl
  · exact (commutes_catch hg d.table).after fun r => commutes_pure rfl
  · exact (commutes_local hg d.table).after fun r => commutes_pure rfl

lemma commutes_methodSections (params n : Nat) (d : Draft) :
    Commutes g (Draft.rename g) (methodSections params n d) (methodSections params n (d.rename g)) := by
  induction n generalizing d with
  | zero => exact commutes_pure rfl
  | succ n ih =>
      refine commutes_atClose.after fun closes => .ite Iff.rfl (commutes_pure rfl) ?_
      refine (commutes_expect .open_).after fun _ => .ident fun kw hkind => ?_
      refine (commutes_methodSection hg params d hkind).after fun d' => ?_
      exact Commutes.after (φ := id) ((commutes_expect .close).after fun _ => commutes_pure rfl) fun _ => ih d'

omit hg in
/-- A complete draft. -/
lemma finish_rename (d : Draft) (params : Nat) :
    ((d.rename g).finish params).toOption = (d.finish params).toOption.map id := by
  rw [Option.map_id_fun, id_eq]
  unfold Draft.finish
  have hundefined : (d.rename g).table.undefined? = d.table.undefined?.map fun e => (g e.1, e.2) :=
    d.table.undefined?_rename
  rw [hundefined]
  cases d.table.undefined? with
  | some e => rfl
  | none => rfl

lemma commutes_method : Commutes g id method method := by
  refine commutes_string.after fun name => commutes_string.after fun desc => ?_
  dsimp only [id_eq]
  split
  · exact commutes_throw _ _
  · next parsed _ =>
      refine commutes_get.after fun toks => ?_
      rw [List.length_map]
      refine (commutes_methodSections hg parsed.params.length _ { method := { name, desc } }).after fun d => ?_
      have hfinish := finish_rename (g := g) d parsed.params.length
      obtain ⟨e, e', h, h'⟩ | ⟨m, h, h'⟩ := both_of_toOption hfinish
      · simp only [h, h']
        exact commutes_throw _ _
      · simp only [h, h']
        exact commutes_pure rfl

lemma commutes_field : Commutes g id field field :=
  commutes_string.after fun _ => commutes_string.after fun _ => (commutes_flags hg).after fun _ =>
    commutes_pure rfl

lemma commutes_classSection (c : Class) {kw : Token} (hkind : kw.kind = .ident) :
    Commutes g id (classSection c kw) (classSection c (kw.rename g)) := by
  unfold classSection
  refine .ite (rename_keyword hg hkind (by decide)) ?_ (.ite (rename_keyword hg hkind (by decide)) ?_
    (.ite (rename_keyword hg hkind (by decide)) ?_ (.ite (rename_keyword hg hkind (by decide)) ?_
    (.ite (rename_keyword hg hkind (by decide)) ?_ (.ite (rename_keyword hg hkind (by decide)) ?_
    (commutes_throw _ _))))))
  · exact commutes_string.after fun v => commutes_pure rfl
  · exact commutes_strings.after fun v => commutes_pure rfl
  · exact commutes_strings.after fun v => commutes_pure rfl
  · exact (commutes_flags hg).after fun v => commutes_pure rfl
  · exact (commutes_field hg).after fun f => commutes_pure rfl
  · refine Commutes.after (Commutes.wrap (commutes_method hg) (fun toks => ?_) fun toks => ?_)
      fun m => commutes_pure rfl
    · cases method toks <;> rfl
    · cases method toks <;> rfl

lemma commutes_classForm : Commutes g id classForm classForm := by
  have hsections : ∀ n c, Commutes g id (classSections n c) (classSections n c) := by
    intro n
    induction n with
    | zero => exact fun c => commutes_pure rfl
    | succ n ih =>
        intro c
        refine commutes_atClose.after fun closes => .ite Iff.rfl (commutes_pure rfl) ?_
        refine (commutes_expect .open_).after fun _ => .ident fun kw hkind => ?_
        refine (commutes_classSection hg c hkind).after fun c' => ?_
        exact Commutes.after (φ := id) ((commutes_expect .close).after fun _ => commutes_pure rfl)
          fun _ => ih c'
  have hkeyword : Commutes g id (keyword (Text.ofString "class")) (keyword (Text.ofString "class")) := by
    refine .ident fun t hkind => .ite ?_ (commutes_pure rfl) (commutes_throw _ _)
    exact rename_keyword hg hkind (by decide)
  refine (commutes_expect .open_).after fun _ => hkeyword.after fun _ => commutes_string.after fun name => ?_
  refine commutes_get.after fun toks => ?_
  rw [List.length_map]
  refine (hsections _ _).after fun c => ?_
  exact Commutes.after (φ := id) ((commutes_expect .close).after fun _ => commutes_pure rfl)
    fun _ => commutes_pure rfl

/-- **Tokens with other label names denote the same classes.** -/
theorem ofTokens_rename (toks : List Token) :
    (ofTokens (toks.map (rename g))).toOption = (ofTokens toks).toOption := by
  have hforms : ∀ n, Commutes g id (classForms n) (classForms n) := by
    intro n
    induction n with
    | zero => exact commutes_pure rfl
    | succ n ih =>
        refine commutes_get.after fun toks => .ite (by simp) (commutes_pure rfl) ?_
        exact (commutes_classForm hg).after fun c => ih.after fun cs => commutes_pure rfl
  have h := hforms (toks.length + 1) toks
  unfold ofTokens
  rw [List.length_map]
  simp only [StateT.run]
  obtain ⟨e, e', h, h'⟩ | ⟨⟨cs, rest⟩, h, h'⟩ := both_of_toOption h
  · rw [h, h']
    rfl
  · rw [h, h']
    cases cs <;> rfl

end Forms

end Assembly

end Suspension
