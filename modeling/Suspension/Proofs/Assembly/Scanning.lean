import Suspension.Assembly.Token
import Suspension.Instruction
import Suspension.Proofs.Number.FloatText
import Suspension.Proofs.Text.Quoted

/-!
# Texts that are printed piece by piece

**What a printed text is split into.**  Every piece of a printed text begins with a blank, a line end or
a parenthesis, so that the piece before it has come to an end; a text of such pieces is split into the
words of the pieces.

* `Token.Scans` — the words that characters are split into, on whatever line they stand.
* `Token.Prints` — a piece and its words; `Prints.append` and `Prints.flatMap` put pieces together.
* `prints_close`, `prints_open`, `prints_ident`, `prints_string`, `prints_number`,
  `prints_definition` — the pieces that are one or two words long.
-/

namespace Suspension

namespace Token

/-- A token without its line. -/
abbrev Word := TokenKind × Text

/-- The word of a token. -/
def word (t : Token) : Word := (t.kind, t.value)

/-- **Characters that are split into words**, whatever the line. -/
def Scans (cs : List Char) (ws : List Word) : Prop :=
  ∀ fuel line, cs.length ≤ fuel → ∃ toks, scanFrom fuel cs line = .ok toks ∧ toks.map word = ws

variable {cs more rest : List Char} {ws ws' : List Word} {c : Char}

lemma Scans.nil : Scans [] [] := by
  intro fuel line _
  cases fuel <;> exact ⟨[], rfl, rfl⟩

/-- One round of the scan that takes no word. -/
lemma Scans.skip (hrest : Scans rest ws) (hlength : rest.length < cs.length)
    (hround : ∀ fuel line, ∃ line', scanFrom (fuel + 1) cs line = scanFrom fuel rest line') :
    Scans cs ws := by
  intro fuel line hfuel
  obtain ⟨fuel, rfl⟩ : ∃ n, fuel = n + 1 := ⟨fuel - 1, by omega⟩
  obtain ⟨line', hline⟩ := hround fuel line
  rw [hline]
  exact hrest fuel line' (by omega)

/-- One round of the scan that takes a word. -/
lemma Scans.take {w : Word} (hrest : Scans rest ws) (hlength : rest.length < cs.length)
    (hround : ∀ fuel line, scanFrom (fuel + 1) cs line
      = (do return ⟨w.2, w.1, line⟩ :: (← scanFrom fuel rest line))) :
    Scans cs (w :: ws) := by
  intro fuel line hfuel
  obtain ⟨fuel, rfl⟩ : ∃ n, fuel = n + 1 := ⟨fuel - 1, by omega⟩
  obtain ⟨toks, htoks, hwords⟩ := hrest fuel line (by omega)
  refine ⟨⟨w.2, w.1, line⟩ :: toks, ?_, by rw [List.map_cons, hwords]; rfl⟩
  rw [hround, htoks]
  rfl

lemma Scans.blank (h : Scans rest ws) (hc : c = ' ' ∨ c = '\n') : Scans (c :: rest) ws := by
  refine h.skip (by simp) fun fuel line => ?_
  rcases hc with rfl | rfl
  · exact ⟨line, rfl⟩
  · exact ⟨line + 1, rfl⟩

lemma Scans.open_ (h : Scans rest ws) : Scans ('(' :: rest) ((.open_, "(") :: ws) :=
  h.take (by simp) fun _ _ => rfl

lemma Scans.close (h : Scans rest ws) : Scans (')' :: rest) ((.close, ")") :: ws) :=
  h.take (by simp) fun _ _ => rfl

/-! ## Breaks -/

/-- The characters with which pieces begin. -/
def isBreak (c : Char) : Bool := c == ' ' || c == '\n' || c == '(' || c == ')'

/-- **Where a word has come to an end.** -/
def Breaks (cs : List Char) : Prop := ∀ c more, cs = c :: more → isBreak c = true

lemma isBreak_iff : isBreak c = true ↔ c = ' ' ∨ c = '\n' ∨ c = '(' ∨ c = ')' := by
  simp [isBreak, or_assoc]

lemma continuesNumber_break (hc : isBreak c = true) (p : Char) : continuesNumber p c = false := by
  have hall : ∀ c, c = ' ' ∨ c = '\n' ∨ c = '(' ∨ c = ')' → isDigit c = false := by
    rintro c (rfl | rfl | rfl | rfl) <;> decide
  have hdigit := hall c (isBreak_iff.mp hc)
  rcases isBreak_iff.mp hc with rfl | rfl | rfl | rfl <;> simp [continuesNumber, hdigit]

lemma isIdentChar_break (hc : isBreak c = true) : isIdentChar c = false := by
  rcases isBreak_iff.mp hc with rfl | rfl | rfl | rfl <;> decide

lemma Breaks.append (h : Breaks cs) (h' : Breaks rest) : Breaks (cs ++ rest) := by
  cases cs with
  | nil => exact h'
  | cons c more =>
      rintro c' more' heq
      obtain ⟨rfl, -⟩ := List.cons.inj heq
      exact h c more rfl

/-! ## Words -/

/-- **The characters of an identifier.** -/
structure IsIdent (cs : List Char) : Prop where
  first : ∃ c more, cs = c :: more ∧ isBlank c = false ∧ startsNumber c = false
    ∧ c ∉ ['\n', ';', '(', ')', '"']
  all : cs.all isIdentChar = true

lemma span_ident (h : more.all isIdentChar = true) (hrest : ∀ c cs, rest = c :: cs → isIdentChar c = false) :
    (more ++ rest).span isIdentChar = (more, rest) := by
  have hall : ∀ c ∈ more, isIdentChar c = true := List.all_eq_true.mp h
  have hnone : rest.takeWhile isIdentChar = [] ∧ rest.dropWhile isIdentChar = rest := by
    cases rest with
    | nil => simp
    | cons c cs => simp [hrest c cs rfl]
  rw [List.span_eq_takeWhile_dropWhile, List.takeWhile_append_of_pos hall,
    List.dropWhile_append_of_pos hall, hnone.1, hnone.2, List.append_nil]

/-- The scan behind an identifier. -/
def scanBehind (fuel line : Nat) (c : Char) (more after : List Char) : Except TokenError (List Token) :=
  match c, after with
  | '$', ':' :: after => return ⟨Utf8.encode (c :: more), .label, line⟩ :: (← scanFrom fuel after line)
  | _, _ => return ⟨Utf8.encode (c :: more), .ident, line⟩ :: (← scanFrom fuel after line)

/-- The round of the scan that meets an identifier. -/
lemma scanFrom_ident (h : IsIdent (c :: more)) (hrest : ∀ c cs, rest = c :: cs → isIdentChar c = false)
    (fuel line : Nat) :
    scanFrom (fuel + 1) (c :: (more ++ rest)) line = scanBehind fuel line c more rest := by
  obtain ⟨⟨c', more', heq, hblank, hnumber, hother⟩, hall⟩ := h
  obtain ⟨rfl, rfl⟩ := List.cons.inj heq
  simp only [List.mem_cons, List.not_mem_nil, or_false, not_or] at hother
  obtain ⟨hline, hsemi, hopen, hclose, hquote⟩ := hother
  simp only [List.all_cons, Bool.and_eq_true] at hall
  simp only [scanFrom, beq_iff_eq, hline, hblank, hsemi, hopen, hclose, hquote, hnumber, hall.1,
    if_false, if_true, Bool.false_eq_true, span_ident hall.2 hrest]
  rfl

/-- The scan behind an identifier that defines no label. -/
lemma scanBehind_ident {c : Char} {after : List Char} (h : ¬ (c = '$' ∧ after.head? = some ':'))
    (fuel line : Nat)
    (more : List Char) : scanBehind fuel line c more after
      = (do return ⟨Utf8.encode (c :: more), .ident, line⟩ :: (← scanFrom fuel after line)) := by
  unfold scanBehind
  split
  · exact absurd ⟨rfl, rfl⟩ h
  · rfl

lemma Scans.ident (h : Scans rest ws) (hcs : IsIdent cs) (hrest : Breaks rest) :
    Scans (cs ++ rest) ((.ident, Utf8.encode cs) :: ws) := by
  obtain ⟨c, more, rfl, -⟩ := hcs.first
  have hstop : ∀ c cs, rest = c :: cs → isIdentChar c = false :=
    fun c cs heq => isIdentChar_break (hrest c cs heq)
  refine h.take (by simp only [List.length_append, List.length_cons]; omega) fun fuel line => ?_
  rw [List.cons_append, scanFrom_ident hcs hstop]
  unfold scanBehind
  split
  · exact absurd (hrest _ _ rfl) (by decide)
  · rfl

/-- The definition of a label. -/
lemma Scans.definition (h : Scans rest ws) (hcs : IsIdent ('$' :: more)) :
    Scans ('$' :: (more ++ ':' :: rest)) ((.label, Utf8.encode ('$' :: more)) :: ws) := by
  have hstop : ∀ c cs, ':' :: rest = c :: cs → isIdentChar c = false := by
    rintro c cs ⟨⟩
    decide
  refine h.take (by simp only [List.length_append, List.length_cons]; omega) fun fuel line => ?_
  rw [scanFrom_ident hcs hstop]
  rfl

lemma splitNumber_append (h : (c :: more).IsChain fun p c => continuesNumber p c = true)
    (hrest : Breaks rest) : splitNumber c (more ++ rest) = (more, rest) := by
  induction more generalizing c with
  | nil =>
      cases rest with
      | nil => rfl
      | cons c' rest' => simp [splitNumber, continuesNumber_break (hrest c' rest' rfl)]
  | cons c' more ih =>
      rw [List.isChain_cons_cons] at h
      simp [splitNumber, h.1, ih h.2]

/-- **A number ends where it ends**, whatever follows the character behind it. -/
lemma splitNumber_eq {p : Char} {cs more after : List Char} (h : splitNumber p cs = (more, after)) :
    cs = more ++ after ∧ ∀ after' : List Char, after'.head? = after.head? →
      splitNumber p (more ++ after') = (more, after') := by
  induction cs generalizing p more with
  | nil =>
      cases h
      refine ⟨rfl, fun after' hhead => ?_⟩
      rw [List.head?_nil, List.head?_eq_none_iff] at hhead
      subst hhead
      rfl
  | cons c cs ih =>
      rw [splitNumber] at h
      split at h
      · next hcontinues =>
          cases hsplit : splitNumber c cs with
          | mk more₁ after₁ =>
              rw [hsplit] at h
              cases h
              obtain ⟨hcs, hafter⟩ := ih hsplit
              refine ⟨by rw [hcs, List.cons_append], fun after' hhead => ?_⟩
              rw [List.cons_append, splitNumber, if_pos hcontinues, hafter after' hhead]
      · next hends =>
          cases h
          refine ⟨rfl, fun after' hhead => ?_⟩
          obtain ⟨rest, rfl⟩ := List.head?_eq_some_iff.mp hhead
          rw [List.nil_append, splitNumber, if_neg hends]

/-- A number does not begin like another word. -/
lemma number_first (h : c = '-' ∨ Literal.isDecimal c = true) :
    startsNumber c = true ∧ isBlank c = false ∧ c ∉ ['\n', ';', '(', ')', '"'] := by
  rcases h with rfl | h
  · decide
  · obtain ⟨hlow, hhigh⟩ := Literal.isDecimal_bounds h
    refine ⟨by simp [startsNumber, Literal.isDigit_of_isDecimal h], ?_, ?_⟩
    · simp only [isBlank, Bool.or_eq_false_iff, Bool.and_eq_false_iff, decide_eq_false_iff_not,
        beq_eq_false_iff_ne]
      omega
    · intro hc
      simp only [List.mem_cons, List.not_mem_nil, or_false] at hc
      rcases hc with rfl | rfl | rfl | rfl | rfl <;> exact absurd h (by decide)

lemma Scans.number (h : Scans rest ws) (hcs : IsNumber cs) (hrest : Breaks rest) :
    Scans (cs ++ rest) ((.number, Utf8.encode cs) :: ws) := by
  obtain ⟨c, more, rfl, hfirst, hchain⟩ := hcs
  obtain ⟨hstarts, hblank, hother⟩ := number_first hfirst
  simp only [List.mem_cons, List.not_mem_nil, or_false, not_or] at hother
  obtain ⟨hline, hsemi, hopen, hclose, hquote⟩ := hother
  refine h.take (by simp only [List.length_append, List.length_cons]; omega) fun fuel line => ?_
  simp only [List.cons_append, scanFrom, beq_iff_eq, hline, hblank, hsemi, hopen, hclose, hquote,
    hstarts, if_false, if_true, Bool.false_eq_true, splitNumber_append hchain hrest]

/-- **A string ends at its quote**, whatever follows. -/
lemma splitString_eq {cs body after : List Char} (h : splitString cs = some (body, after)) :
    cs = body ++ '"' :: after ∧ ∀ after', splitString (body ++ '"' :: after') = some (body, after') := by
  fun_induction splitString cs generalizing body after with
  | case1 => cases h
  | case2 c rest ih =>
      obtain ⟨⟨body', after''⟩, hsplit, heq⟩ := Option.map_eq_some_iff.mp h
      cases heq
      obtain ⟨hrest, hafter⟩ := ih hsplit
      refine ⟨by rw [hrest]; rfl, fun after' => ?_⟩
      rw [List.cons_append, List.cons_append, splitString_escape, hafter]
      rfl
  | case3 c rest hescape hquote =>
      cases h
      refine ⟨by rw [beq_iff_eq.mp hquote]; rfl, fun after' => ?_⟩
      rw [List.nil_append, splitString]
      · simp
      · simp
  | case4 c rest hescape hquote hends => cases h
  | case5 c rest hescape hquote hends ih =>
      obtain ⟨⟨body', after''⟩, hsplit, heq⟩ := Option.map_eq_some_iff.mp h
      cases heq
      obtain ⟨hrest, hafter⟩ := ih hsplit
      refine ⟨by rw [hrest]; rfl, fun after' => ?_⟩
      simp only [Bool.or_eq_true, beq_iff_eq, not_or] at hquote hends
      have hplain : Quoted.IsPlain c := ⟨hquote, hends.1, hends.2⟩
      rw [List.cons_append, splitString_plain hplain, hafter]
      rfl

lemma Scans.string (h : Scans rest ws) {t : Text} {forms : List (List Char)}
    (hforms : List.Forall₂ Quoted.Written (Utf8.items t) forms) :
    Scans ('"' :: (forms.flatten ++ ['"']) ++ rest) ((.string, t) :: ws) := by
  refine h.take (by simp only [List.length_append, List.length_cons]; omega) fun fuel line => ?_
  have hsplit : splitString (forms.flatten ++ ['"'] ++ rest) = some (forms.flatten, rest) := by
    rw [List.append_assoc]
    exact splitString_written hforms
  have hvalue : Quoted.decode forms.flatten = some t := by
    rw [Quoted.decode_written hforms, Utf8.bytes_items]
  rw [List.cons_append]
  generalize forms.flatten ++ ['"'] ++ rest = quoted at hsplit ⊢
  simp [scanFrom, isBlank, hsplit, hvalue]

/-- A comment goes on up to the end of its line. -/
lemma dropWhile_comment {cs more : List Char} (h : more.head? = (cs.dropWhile (· != '\n')).head?) :
    (cs.takeWhile (· != '\n') ++ more).dropWhile (· != '\n') = more := by
  rw [List.dropWhile_append_of_pos fun c hc => List.mem_takeWhile_imp (p := (· != '\n')) hc]
  cases more with
  | nil => rfl
  | cons c more =>
      have hhead := List.head?_dropWhile_not (· != '\n') cs
      rw [← h] at hhead
      rw [List.dropWhile_cons_of_neg]
      simpa using hhead

/-! ## Pieces -/

/-- **A piece of a printed text** and its words: whatever piece follows, it is split into its own
words. -/
def Prints (t : Text) (ws : List Word) : Prop :=
  ∃ cs, t = Utf8.encode cs ∧ Breaks cs ∧
    ∀ rest ws', Breaks rest → Scans rest ws' → Scans (cs ++ rest) (ws ++ ws')

variable {t t' : Text}

lemma Prints.nil : Prints [] [] := ⟨[], rfl, by simp [Breaks], fun _ _ _ h => h⟩

lemma Prints.append (h : Prints t ws) (h' : Prints t' ws') : Prints (t ++ t') (ws ++ ws') := by
  obtain ⟨cs, rfl, hbreaks, hcs⟩ := h
  obtain ⟨cs', rfl, hbreaks', hcs'⟩ := h'
  refine ⟨cs ++ cs', (Utf8.encode_append cs cs').symm, hbreaks.append hbreaks', ?_⟩
  intro rest ws'' hrest hscans
  rw [List.append_assoc, List.append_assoc]
  exact hcs _ _ (hbreaks'.append hrest) (hcs' _ _ hrest hscans)

lemma Prints.flatMap {α : Type} {xs : List α} {f : α → Text} {g : α → List Word}
    (h : ∀ x ∈ xs, Prints (f x) (g x)) : Prints (xs.flatMap f) (xs.flatMap g) := by
  induction xs with
  | nil => exact Prints.nil
  | cons x xs ih =>
      rw [List.flatMap_cons, List.flatMap_cons]
      exact (h x List.mem_cons_self).append (ih fun y hy => h y (List.mem_cons_of_mem x hy))

/-- **A printed text is split into its words.** -/
theorem Prints.scan (h : Prints t ws) : ∃ toks, Token.scan t = .ok toks ∧ toks.map word = ws := by
  obtain ⟨cs, rfl, -, hcs⟩ := h
  have hscans := hcs [] [] (by simp [Breaks]) Scans.nil
  rw [List.append_nil, List.append_nil] at hscans
  unfold Token.scan
  rw [Utf8.chars_encode]
  exact hscans cs.length 1 (le_refl _)

/-- Blanks and line ends. -/
lemma prints_blank {s : String} (h : s.toList.all (fun c => c == ' ' || c == '\n') = true) :
    Prints (Text.ofString s) [] := by
  have hall : ∀ c ∈ s.toList, c = ' ' ∨ c = '\n' := by simpa using h
  refine ⟨s.toList, rfl, ?_, fun rest ws' _ hrest => ?_⟩
  · rintro c more heq
    rcases hall c (heq ▸ List.mem_cons_self) with rfl | rfl <;> rfl
  · rw [List.nil_append]
    generalize s.toList = cs at hall
    induction cs with
    | nil => exact hrest
    | cons c cs ih =>
        exact (ih fun c' hc' => hall c' (List.mem_cons_of_mem c hc')).blank
          (hall c List.mem_cons_self)

lemma prints_close : Prints (Text.ofString ")") [(.close, ")")] := by
  refine ⟨[')'], rfl, ?_, fun rest ws' _ hrest => hrest.close⟩
  rintro c more ⟨⟩
  rfl

/-- The beginning of a form. -/
lemma prints_open {kw : List Char} (h : IsIdent kw) :
    Prints (Text.ofString "(" ++ Utf8.encode kw) [(.open_, "("), (.ident, Utf8.encode kw)] := by
  refine ⟨'(' :: kw, rfl, ?_, fun rest ws' hbreaks hrest => (hrest.ident h hbreaks).open_⟩
  rintro c more ⟨⟩
  rfl

/-- A blank in front of a word. -/
lemma prints_spaced {w : Word} {cs : List Char}
    (h : ∀ rest ws', Breaks rest → Scans rest ws' → Scans (cs ++ rest) (w :: ws')) :
    Prints (Text.ofString " " ++ Utf8.encode cs) [w] := by
  refine ⟨' ' :: cs, rfl, ?_, fun rest ws' hbreaks hrest =>
    (h rest ws' hbreaks hrest).blank (Or.inl rfl)⟩
  rintro c more ⟨⟩
  rfl

lemma prints_ident {cs : List Char} (h : IsIdent cs) :
    Prints (Text.ofString " " ++ Utf8.encode cs) [(.ident, Utf8.encode cs)] :=
  prints_spaced fun _ _ hbreaks hrest => hrest.ident h hbreaks

lemma prints_number {cs : List Char} (h : IsNumber cs) :
    Prints (Text.ofString " " ++ Utf8.encode cs) [(.number, Utf8.encode cs)] :=
  prints_spaced fun _ _ hbreaks hrest => hrest.number h hbreaks

lemma prints_string (t : Text) : Prints (Text.ofString " " ++ Quoted.encode t) [(.string, t)] := by
  obtain ⟨forms, hforms, htext⟩ := Quoted.exists_written t
  rw [htext]
  exact prints_spaced fun _ _ _ hrest => hrest.string hforms

/-! ## Numbers, labels and mnemonics -/

lemma prints_nat (n : Nat) : Prints (Text.ofString " " ++ Text.ofNat n) [(.number, Text.ofNat n)] := by
  have hnumber : IsNumber (Literal.signed false (Literal.literalChars (Nat.toDigits 10 n) [] none)) :=
    Literal.isNumber_signed (Literal.allDecimal_toDigits n) (List.ne_nil_of_length_pos
      Nat.length_toDigits_pos) (by simp [Literal.AllDecimal])
  rw [Text.ofNat_eq]
  refine prints_number ?_
  simpa [Literal.signed, Literal.literalChars, Literal.exponentTail] using hnumber

lemma prints_int (v : Int) : Prints (Text.ofString " " ++ Text.ofInt v) [(.number, Text.ofInt v)] := by
  have hnumber : IsNumber (Literal.signed (decide (v < 0))
      (Literal.literalChars (Nat.toDigits 10 v.natAbs) [] none)) :=
    Literal.isNumber_signed (Literal.allDecimal_toDigits _) (List.ne_nil_of_length_pos
      Nat.length_toDigits_pos) (by simp [Literal.AllDecimal])
  rw [Text.ofInt_eq]
  refine prints_number ?_
  simpa [Literal.signed, Literal.literalChars, Literal.exponentTail, Text.intChars] using hnumber

/-- The characters of a label's name. -/
def labelChars (id : Label) : List Char := '$' :: 'L' :: Nat.toDigits 10 id.toNat

lemma labelName_eq (id : Label) : Instruction.labelName id = Utf8.encode (labelChars id) := by
  rw [Instruction.labelName, Text.ofNat_eq]
  rfl

lemma labelName_injective : Function.Injective Instruction.labelName := by
  intro a b hab
  have hchars : labelChars a = labelChars b := by
    have h := congrArg Utf8.chars hab
    rwa [labelName_eq, labelName_eq, Utf8.chars_encode, Utf8.chars_encode] at h
  have hdigits : Nat.toDigits 10 a.toNat = Nat.toDigits 10 b.toNat := by
    simpa [labelChars] using hchars
  have hvalue := congrArg Literal.decimalValue hdigits
  rw [Literal.decimalValue_toDigits, Literal.decimalValue_toDigits] at hvalue
  exact UInt32.toNat_inj.mp hvalue

lemma isIdent_labelChars (id : Label) : IsIdent (labelChars id) := by
  refine ⟨⟨'$', _, rfl, by decide, by decide, by decide⟩, ?_⟩
  have hdigits : (Nat.toDigits 10 id.toNat).all isIdentChar = true := by
    refine List.all_eq_true.mpr fun c hc => ?_
    have hdigit := Literal.isDigit_of_isDecimal (Literal.allDecimal_toDigits id.toNat c hc)
    simp [isIdentChar, hdigit]
  have hfirst : isIdentChar '$' = true ∧ isIdentChar 'L' = true := by decide
  simp [labelChars, hdigits, hfirst]

lemma prints_reference (id : Label) : Prints (Text.ofString " " ++ Instruction.labelName id)
    [(.ident, Instruction.labelName id)] := by
  rw [labelName_eq]
  exact prints_ident (isIdent_labelChars id)

lemma prints_definition (id : Label) :
    Prints (Text.ofString " " ++ (Instruction.labelName id ++ Text.ofString ":"))
      [(.label, Instruction.labelName id)] := by
  have htext : Instruction.labelName id ++ Text.ofString ":"
      = Utf8.encode ('$' :: ('L' :: Nat.toDigits 10 id.toNat ++ [':'])) := by
    rw [labelName_eq]
    exact (Utf8.encode_append (labelChars id) [':']).symm
  rw [htext, labelName_eq]
  refine prints_spaced fun rest ws' _ hrest => ?_
  have hscans := hrest.definition (isIdent_labelChars id)
  rwa [List.append_cons _ ':' rest, ← List.cons_append] at hscans

/-- Whether a word consists of small letters, digits and dashes, a letter in front. -/
def isPlainWord (cs : List Char) : Bool :=
  let isSmall (c : Char) : Bool := Nat.ble 97 c.toNat && Nat.ble c.toNat 122
  cs.head?.any isSmall && cs.all fun c =>
    isSmall c || (Nat.ble 48 c.toNat && Nat.ble c.toNat 57) || Nat.beq c.toNat 95 || Nat.beq c.toNat 45

lemma isIdent_of_isPlainWord (h : isPlainWord cs = true) : IsIdent cs := by
  simp only [isPlainWord, Bool.and_eq_true, List.all_eq_true, Bool.or_eq_true, Nat.ble_eq,
    Nat.beq_eq] at h
  obtain ⟨hfirst, hall⟩ := h
  refine ⟨?_, List.all_eq_true.mpr fun c hc => ?_⟩
  · cases cs with
    | nil => simp at hfirst
    | cons c more =>
        simp only [List.head?_cons, Option.any_some, Bool.and_eq_true, Nat.ble_eq] at hfirst
        obtain ⟨hlow, hhigh⟩ := hfirst
        have hne : ∀ d : Char, d.toNat < 97 → c ≠ d := by
          rintro d hd rfl
          omega
        refine ⟨c, more, rfl, ?_, ?_, ?_⟩
        · simp only [isBlank, Bool.or_eq_false_iff, Bool.and_eq_false_iff, decide_eq_false_iff_not,
            beq_eq_false_iff_ne]
          omega
        · have hdigit : isDigit c = false := by
            rw [isDigit, if_pos (by omega)]
            simp only [Char.isDigit, Bool.and_eq_false_iff, decide_eq_false_iff_not,
              UInt32.le_iff_toNat_le]
            exact Or.inr (Nat.not_le.mpr (Nat.lt_of_lt_of_le (by decide) hlow))
          simp [startsNumber, hdigit, hne '-' (by decide), hne '+' (by decide)]
        · simp only [List.mem_cons, List.not_mem_nil, or_false, not_or]
          exact ⟨hne _ (by decide), hne _ (by decide), hne _ (by decide), hne _ (by decide),
            hne _ (by decide)⟩
  · rcases hall c hc with ((⟨hlow, hhigh⟩ | ⟨hlow, hhigh⟩) | hc) | hc
    · have hletter : isLetter c = true := by
        rw [isLetter, if_pos (by omega)]
        delta Char.isAlpha Char.isLower
        simp only [Bool.or_eq_true, Bool.and_eq_true, decide_eq_true_eq, ge_iff_le,
          UInt32.le_iff_toNat_le]
        exact Or.inr ⟨hlow, hhigh⟩
      simp [isIdentChar, hletter]
    · have hdigit : isDigit c = true := by
        rw [isDigit, if_pos (by omega)]
        simp only [Char.isDigit, Bool.and_eq_true, decide_eq_true_eq, ge_iff_le,
          UInt32.le_iff_toNat_le]
        exact ⟨hlow, hhigh⟩
      simp [isIdentChar, hdigit]
    · obtain rfl : c = '_' := Char.toNat_inj.mp hc
      decide
    · obtain rfl : c = '-' := Char.toNat_inj.mp hc
      decide

/-- The bytes of a text as one number. -/
def numbered (t : Text) : Nat := t.foldl (fun n b => 256 * n + b.toNat) 0

/-- Whether numbers are all different. -/
def allDiffer : List Nat → Bool
  | [] => true
  | n :: ns => (ns.all fun k => !Nat.beq n k) && allDiffer ns

lemma nodup_of_allDiffer {ns : List Nat} (h : allDiffer ns = true) : ns.Nodup := by
  induction ns with
  | nil => exact List.nodup_nil
  | cons n ns ih =>
      simp only [allDiffer, Bool.and_eq_true, List.all_eq_true, Bool.not_eq_true'] at h
      refine List.nodup_cons.mpr ⟨fun hn => ?_, ih h.2⟩
      exact Nat.ne_of_beq_eq_false (h.1 n hn) rfl

lemma names_computed : allDiffer (Opcode.all.map fun op => numbered op.name) = true
    ∧ ∀ op ∈ Opcode.all, isPlainWord op.mnemonic.toList = true := by
  decide +kernel

/-- Every defined opcode has a name of its own. -/
lemma mnemonics : ∀ op ∈ Opcode.all, Opcode.ofMnemonic? op.name = some op
    ∧ isPlainWord op.mnemonic.toList = true := by
  intro op hop
  refine ⟨?_, names_computed.2 op hop⟩
  obtain ⟨op', hfind⟩ : ∃ op', Opcode.all.find? (·.name == op.name) = some op' :=
    Option.isSome_iff_exists.mp (List.find?_isSome.mpr ⟨op, hop, beq_self_eq_true _⟩)
  have hsame := List.find?_some hfind
  obtain rfl : op' = op := List.inj_on_of_nodup_map (nodup_of_allDiffer names_computed.1)
    (List.mem_of_find?_eq_some hfind) hop (congrArg numbered (beq_iff_eq.mp hsame))
  exact hfind

lemma mem_all {op : Opcode} (h : op.isDefined = true) : op ∈ Opcode.all := by
  cases op with
  | const n | load n | arrayLoad n | store n | arrayStore n | convert n | ifInt n | ifInts n
  | returnValue n | invoke n => cases n <;> decide +kernel
  | arith a n => cases a <;> cases n <;> decide +kernel
  | undefined b => cases h
  | _ => decide +kernel

/-- The name of a defined opcode. -/
lemma prints_name {op : Opcode} (h : op.isDefined = true) :
    Prints (Text.ofString " " ++ op.name) [(.ident, op.name)] :=
  prints_ident (isIdent_of_isPlainWord (mnemonics op (mem_all h)).2)

end Token

end Suspension
