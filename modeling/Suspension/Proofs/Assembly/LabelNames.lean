import Suspension.Proofs.Assembly.Renaming

/-!
# Label names in texts

**A text with other label names** is split into the same tokens, label names apart.  So it assembles to the
same classes.

* `LabelRenaming`, `LabelRenaming.apply` — other names for labels, and a text with these names.
* `LabelRenaming.scan_apply` — the tokens of such a text.
* `Assembly.LabelResolution` — how the assembler resolves labels.
-/

namespace Suspension

open Token

/-- **Other names for labels.**  The characters behind the dollar sign are exchanged, different ones for
different ones. -/
structure LabelRenaming where
  behind : List Char → List Char
  ident : ∀ cs, cs.all isIdentChar = true → (behind cs).all isIdentChar = true
  nonempty : ∀ cs, cs.all isIdentChar = true → behind cs = [] → cs = []
  injective : ∀ cs cs', cs.all isIdentChar = true → cs'.all isIdentChar = true → behind cs = behind cs' →
    cs = cs'

namespace LabelRenaming

variable (r : LabelRenaming)

/-- Characters with other label names.  Comments, strings and numbers are skipped; an identifier is a label
name if it has a dollar sign in front, and something behind it or a colon.  A round takes at least one
character, so the length of the text is fuel enough. -/
def applyFrom : Nat → List Char → List Char
  | 0, cs => cs
  | _ + 1, [] => []
  | fuel + 1, c :: rest =>
    if isBlank c then c :: applyFrom fuel rest
    else if c == ';' then
      c :: (rest.takeWhile (· != '\n') ++ applyFrom fuel (rest.dropWhile (· != '\n')))
    else if c == '"' then
      match splitString rest with
      | none => c :: rest
      | some (body, after) => c :: (body ++ '"' :: applyFrom fuel after)
    else if startsNumber c then
      let (more, after) := splitNumber c rest
      c :: (more ++ applyFrom fuel after)
    else if isIdentChar c then
      let (more, after) := rest.span isIdentChar
      if c == '$' && (!more.isEmpty || after.head? == some ':') then
        c :: (r.behind more ++ applyFrom fuel after)
      else c :: (more ++ applyFrom fuel after)
    else c :: applyFrom fuel rest

/-- **A text with other label names.** -/
def apply (cs : List Char) : List Char := r.applyFrom cs.length cs

/-- A word with another label name. -/
def word (name : Text) : Text :=
  match Utf8.chars name with
  | '$' :: more =>
    if more.all isIdentChar && name == Utf8.encode ('$' :: more) then Utf8.encode ('$' :: r.behind more)
    else name
  | _ => name

/-! ## Names -/

/-- The names that labels have in texts. -/
def IsName (name : Text) : Prop := ∃ more : List Char, more.all isIdentChar = true
    ∧ name = Utf8.encode ('$' :: more)

variable {more : List Char}

lemma word_name (h : more.all isIdentChar = true) :
    r.word (Utf8.encode ('$' :: more)) = Utf8.encode ('$' :: r.behind more) := by
  simp [word, Utf8.chars_encode, h]

lemma word_other {name : Text} (h : ¬ IsName name) : r.word name = name := by
  unfold word
  split
  · next more _ =>
      split
      · next hname =>
          simp only [Bool.and_eq_true, beq_iff_eq] at hname
          exact absurd ⟨more, hname.1, hname.2⟩ h
      · rfl
  · rfl

lemma encode_injective : Function.Injective Utf8.encode := fun a b hab => by
  rw [← Utf8.chars_encode a, hab, Utf8.chars_encode]

lemma isName_word {name : Text} (h : IsName name) : IsName (r.word name) := by
  obtain ⟨more, hmore, rfl⟩ := h
  exact ⟨r.behind more, r.ident more hmore, r.word_name hmore⟩

lemma encode_ne_nil (c : Char) (more : List Char) : Utf8.encode (c :: more) ≠ [] := by
  intro hnil
  have hsame : Utf8.encode (c :: more) = Utf8.encode [] := hnil
  cases encode_injective hsame

/-- A dollar sign is found in front of the characters only. -/
lemma isReference_encode (c : Char) (more : List Char) :
    isReference (Utf8.encode (c :: more)) = (c == '$' && !more.isEmpty) := by
  have hcons : Utf8.encode (c :: more) = Utf8.encode [c] ++ Utf8.encode more := Utf8.encode_append [c] more
  by_cases hc : c = '$'
  · subst hc
    cases more with
    | nil => rfl
    | cons c' more =>
        obtain ⟨b, t, hbytes⟩ := List.exists_cons_of_ne_nil (encode_ne_nil c' more)
        rw [hcons, hbytes]
        rfl
  · obtain ⟨b, t, hbytes⟩ := List.exists_cons_of_ne_nil (encode_ne_nil c [])
    have hb : b ≠ 0x24 := by
      rintro rfl
      have hmem : (0x24 : UInt8) ∈ Utf8.encode [c] := hbytes ▸ List.mem_cons_self
      have hone : String.utf8EncodeChar c = String.utf8EncodeChar '$' :=
        Utf8.encodeChar_of_mem (by decide) (by simpa [Utf8.encode] using hmem)
      have hsame : Utf8.encode [c] = Utf8.encode ['$'] := by simp [Utf8.encode, hone]
      exact hc (List.cons.inj (encode_injective hsame)).1
    have hfirst : (c == '$') = false := beq_eq_false_iff_ne.mpr hc
    rw [hcons, hbytes, hfirst, Bool.false_and, isReference]
    rintro b' t' heq
    exact hb (List.cons.inj heq).1

/-- **Different words stay different.** -/
lemma renames_word : Renames r.word := by
  refine ⟨fun a b hab => ?_, fun n hn => ?_⟩
  · by_cases ha : IsName a
    · by_cases hb : IsName b
      · obtain ⟨more, hmore, rfl⟩ := ha
        obtain ⟨more', hmore', rfl⟩ := hb
        rw [r.word_name hmore, r.word_name hmore'] at hab
        have hbehind : r.behind more = r.behind more' := (List.cons.inj (encode_injective hab)).2
        rw [r.injective more more' hmore hmore' hbehind]
      · exact absurd (r.word_other hb ▸ hab ▸ r.isName_word ha) hb
    · by_cases hb : IsName b
      · exact absurd (r.word_other ha ▸ hab.symm ▸ r.isName_word hb) ha
      · rwa [r.word_other ha, r.word_other hb] at hab
  · by_cases hname : IsName n
    · obtain ⟨more, hmore, rfl⟩ := hname
      rw [r.word_name hmore]
      rw [isReference_encode] at hn ⊢
      simp only [beq_self_eq_true, Bool.true_and, Bool.not_eq_true', List.isEmpty_eq_false_iff] at hn ⊢
      exact fun hnil => hn (r.nonempty more hmore hnil)
    · rwa [r.word_other hname]

/-! ## Tokens -/

/-- The first character stays. -/
lemma head?_applyFrom (fuel : Nat) (cs : List Char) : (r.applyFrom fuel cs).head? = cs.head? := by
  cases fuel with
  | zero => rfl
  | succ fuel =>
      cases cs with
      | nil => rfl
      | cons c rest =>
          unfold applyFrom
          dsimp only
          split
          · rfl
          split
          · rfl
          split
          · split <;> rfl
          split
          · rfl
          split
          · split <;> rfl
          · rfl

/-- Two scans that go on alike behind a token. -/
lemma scan_cons {x y : Except TokenError (List Token)} {t t' : Token} {ρ : Token → Token}
    (h : y = x.map (List.map ρ)) (ht : t' = ρ t) :
    (do return t' :: (← y)) = (do return t :: (← x) : Except TokenError (List Token)).map (List.map ρ) := by
  subst h ht
  cases x <;> rfl

lemma applyFrom_colon (fuel : Nat) (cs : List Char) :
    r.applyFrom (fuel + 1) (':' :: cs) = ':' :: r.applyFrom fuel cs := by
  have hcolon : isBlank ':' = false ∧ startsNumber ':' = false ∧ isIdentChar ':' = false := by decide
  have hother : (':' == ';') = false ∧ (':' == '"') = false := by decide
  simp only [applyFrom, hcolon, hother, Bool.false_eq_true, if_false]

/-- The token of a word that refers to no label. -/
lemma rename_plain {c : Char} {more : List Char} (h : (c == '$' && !more.isEmpty) = false) (line : Nat) :
    rename r.word ⟨Utf8.encode (c :: more), .ident, line⟩ = ⟨Utf8.encode (c :: more), .ident, line⟩ :=
  rename_word rfl ((isReference_encode c more).trans h)

/-- The token of a word that names a label. -/
lemma rename_name {more : List Char} (hmore : more.all isIdentChar = true) {kind : TokenKind}
    (h : kind = .label ∨ kind = .ident ∧ more ≠ []) (line : Nat) :
    rename r.word ⟨Utf8.encode ('$' :: more), kind, line⟩ = ⟨Utf8.encode ('$' :: r.behind more), kind,
      line⟩ := by
  have hname : labelName? ⟨Utf8.encode ('$' :: more), kind, line⟩ = some (Utf8.encode ('$' :: more)) := by
    rcases h with rfl | ⟨rfl, hne⟩
    · rfl
    · simp [labelName?, isReference_encode, hne]
  simp [rename, hname, r.word_name hmore]

/-- **From a place on the tokens are the same**, label names apart, as long as the rounds suffice for the text
with other names. -/
def Agrees (j k k' : Nat) (cs : List Char) (line : Nat) : Prop :=
  (r.applyFrom j cs).length ≤ k' →
    scanFrom k' (r.applyFrom j cs) line = (scanFrom k cs line).map (List.map (rename r.word))

section Rounds

variable {r} {c : Char} {rest : List Char} {j k k' line : Nat}

lemma agrees_nil : r.Agrees j k k' [] line := fun _ => by
  cases j <;> cases k <;> cases k' <;> rfl

lemma agrees_blank (hblank : isBlank c = true) (h : ∀ line, r.Agrees j k k' rest line) :
    r.Agrees (j + 1) (k + 1) (k' + 1) (c :: rest) line := by
  intro hk'
  simp only [applyFrom, hblank, if_true, List.length_cons, Nat.add_le_add_iff_right] at hk' ⊢
  by_cases hline : c = '\n'
  · simp only [scanFrom, hline, beq_self_eq_true, if_true]
    exact h _ hk'
  · simp only [scanFrom, beq_eq_false_iff_ne.mpr hline, hblank, if_true, Bool.false_eq_true, if_false]
    exact h _ hk'

lemma agrees_comment (h : r.Agrees j k k' (rest.dropWhile (· != '\n')) line) :
    r.Agrees (j + 1) (k + 1) (k' + 1) (';' :: rest) line := by
  intro hk'
  have hother : isBlank ';' = false ∧ (';' == '\n') = false := by decide
  have hhead := r.head?_applyFrom j (rest.dropWhile (· != '\n'))
  simp only [applyFrom, hother, Bool.false_eq_true, if_false, beq_self_eq_true, if_true,
    List.length_cons, List.length_append, Nat.add_le_add_iff_right] at hk' ⊢
  simp only [scanFrom, hother, Bool.false_eq_true, if_false, beq_self_eq_true, if_true,
    dropWhile_comment hhead]
  exact h (by omega)

/-- A string, or a quote that begins none. -/
lemma agrees_string (h : ∀ body after, splitString rest = some (body, after) → r.Agrees j k k' after line) :
    r.Agrees (j + 1) (k + 1) (k' + 1) ('"' :: rest) line := by
  intro hk'
  have hother : isBlank '"' = false ∧ ('"' == '\n') = false ∧ ('"' == ';') = false
      ∧ ('"' == '(') = false ∧ ('"' == ')') = false := by decide
  cases hsplit : splitString rest with
  | none =>
      simp only [applyFrom, scanFrom, hother, hsplit, Bool.false_eq_true, if_false, beq_self_eq_true, if_true]
      rfl
  | some parts =>
      obtain ⟨body, after⟩ := parts
      obtain ⟨-, hafter⟩ := splitString_eq hsplit
      simp only [applyFrom, hother, hsplit, Bool.false_eq_true, if_false, beq_self_eq_true, if_true,
        List.length_cons, List.length_append] at hk' ⊢
      simp only [scanFrom, hother, hsplit, hafter, Bool.false_eq_true, if_false, beq_self_eq_true, if_true]
      cases Quoted.decode body with
      | none => rfl
      | some value =>
          exact scan_cons (h body after hsplit (by omega)) (rename_of_kind (by simp) (by simp)).symm

/-- **A character that begins a lexeme**: neither a blank, nor a comment, nor a string. -/
structure Begins (c : Char) : Prop where
  blank : isBlank c = false
  line : (c == '\n') = false
  comment : (c == ';') = false
  quote : (c == '"') = false

lemma agrees_number (hc : Begins c) (hnumber : startsNumber c = true)
    (h : r.Agrees j k k' (splitNumber c rest).2 line) :
    r.Agrees (j + 1) (k + 1) (k' + 1) (c :: rest) line := by
  intro hk'
  have hparens : (c == '(') = false ∧ (c == ')') = false := by
    simp only [beq_eq_false_iff_ne]
    constructor <;> rintro rfl <;> exact absurd hnumber (by decide)
  cases hsplit : splitNumber c rest with
  | mk more after =>
      obtain ⟨-, hafter⟩ := splitNumber_eq hsplit
      have h : r.Agrees j k k' after line := by rwa [hsplit] at h
      simp only [applyFrom, hc.blank, hc.comment, hc.quote, hnumber, hsplit, Bool.false_eq_true, if_false,
        if_true, List.length_cons, List.length_append] at hk' ⊢
      simp only [scanFrom, hc.blank, hc.line, hc.comment, hparens, hc.quote, hnumber, hsplit,
        hafter _ (r.head?_applyFrom j after), Bool.false_eq_true, if_false, if_true]
      exact scan_cons (h (by omega)) (rename_of_kind (by simp) (by simp)).symm

/-- A bracket, or a character that no lexeme begins with. -/
lemma agrees_bracket (hc : Begins c) (hnumber : startsNumber c = false) (hident : isIdentChar c = false)
    (h : r.Agrees j k k' rest line) : r.Agrees (j + 1) (k + 1) (k' + 1) (c :: rest) line := by
  intro hk'
  simp only [applyFrom, hc.blank, hc.comment, hc.quote, hnumber, hident, Bool.false_eq_true, if_false,
    List.length_cons, Nat.add_le_add_iff_right] at hk' ⊢
  by_cases hopen : c = '('
  · subst hopen
    simp only [scanFrom, hc.line, hc.blank, hc.comment, Bool.false_eq_true, if_false, beq_self_eq_true, if_true]
    exact scan_cons (h hk') (rename_of_kind (by simp) (by simp)).symm
  have hopen : (c == '(') = false := beq_eq_false_iff_ne.mpr hopen
  by_cases hclose : c = ')'
  · subst hclose
    simp only [scanFrom, hc.line, hc.blank, hc.comment, hopen, Bool.false_eq_true, if_false, beq_self_eq_true,
      if_true]
    exact scan_cons (h hk') (rename_of_kind (by simp) (by simp)).symm
  have hclose : (c == ')') = false := beq_eq_false_iff_ne.mpr hclose
  simp only [scanFrom, hc.line, hc.blank, hc.comment, hopen, hclose, hc.quote, hnumber, hident,
    Bool.false_eq_true, if_false]
  rfl

/-- An identifier; a label is followed by a colon, which is one character more. -/
lemma agrees_identifier {more after : List Char} (hword : IsIdent (c :: more))
    (hafter : ∀ d ds, after = d :: ds → isIdentChar d = false) (hj : after.length ≤ j)
    (h : ∀ cs i, cs.length ≤ after.length → cs.length ≤ i → r.Agrees i k k' cs line) :
    r.Agrees (j + 1) (k + 1) (k' + 1) (c :: (more ++ after)) line := by
  intro hk'
  obtain ⟨⟨c', more', heq, hblank, hnumber, hother⟩, hall⟩ := id hword
  obtain ⟨rfl, rfl⟩ := List.cons.inj heq
  simp only [List.mem_cons, List.not_mem_nil, or_false, not_or] at hother
  obtain ⟨-, hsemi, -, -, hquote⟩ := hother
  simp only [List.all_cons, Bool.and_eq_true] at hall
  have hround : r.applyFrom (j + 1) (c :: (more ++ after))
      = if c == '$' && (!more.isEmpty || after.head? == some ':') then
          c :: (r.behind more ++ r.applyFrom j after)
        else c :: (more ++ r.applyFrom j after) := by
    simp only [applyFrom, hblank, hnumber, hall.1, beq_eq_false_iff_ne.mpr hsemi,
      beq_eq_false_iff_ne.mpr hquote,
      span_ident hall.2 hafter, Bool.false_eq_true, if_false, if_true]
  have hafter' : ∀ d ds, r.applyFrom j after = d :: ds → isIdentChar d = false := by
    intro d ds hd
    have hhead := r.head?_applyFrom j after
    rw [hd, List.head?_cons] at hhead
    obtain ⟨ds', hds'⟩ := List.head?_eq_some_iff.mp hhead.symm
    exact hafter d ds' hds'
  have hbehind : r.Agrees j k k' after line := h after j (le_refl _) hj
  rw [hround] at hk' ⊢
  rw [scanFrom_ident hword hafter]
  cases hnamed : c == '$' && (!more.isEmpty || after.head? == some ':') with
  | false =>
      have hlabel : ¬ (c = '$' ∧ after.head? = some ':') := by
        rintro ⟨hc, hcolon⟩
        simp [hc, hcolon] at hnamed
      have hplain : (c == '$' && !more.isEmpty) = false := by
        by_contra hname
        simp only [Bool.not_eq_false, Bool.and_eq_true] at hname
        simp [hname.1, hname.2] at hnamed
      simp only [hnamed, Bool.false_eq_true, if_false, List.length_cons, List.length_append] at hk' ⊢
      rw [scanFrom_ident hword hafter', scanBehind_ident hlabel, scanBehind_ident (by rwa [r.head?_applyFrom])]
      exact scan_cons (hbehind (by omega)) (r.rename_plain hplain line).symm
  | true =>
      rw [if_pos hnamed] at hk'
      simp only [Bool.and_eq_true, Bool.or_eq_true, beq_iff_eq, Bool.not_eq_true',
        List.isEmpty_eq_false_iff] at hnamed
      obtain ⟨rfl, hnamed⟩ := hnamed
      have hword' : IsIdent ('$' :: r.behind more) :=
        ⟨⟨'$', _, rfl, by decide, by decide, by decide⟩, by simp [hall.1, r.ident more hall.2]⟩
      simp only [List.length_cons, List.length_append] at hk'
      rw [if_pos rfl, scanFrom_ident hword' hafter']
      by_cases hcolon : after.head? = some ':'
      · obtain ⟨after', rfl⟩ := List.head?_eq_some_iff.mp hcolon
        obtain ⟨i, rfl⟩ : ∃ i, j = i + 1 := ⟨j - 1, by simp at hj; omega⟩
        rw [applyFrom_colon] at hk' ⊢
        simp only [List.length_cons] at hj hk'
        refine scan_cons (h after' i (by simp) (by omega) (by omega)) ?_
        exact (r.rename_name hall.2 (Or.inl rfl) line).symm
      · rw [scanBehind_ident (fun h => hcolon h.2), scanBehind_ident
          (by rw [r.head?_applyFrom]; exact fun h => hcolon h.2)]
        refine scan_cons (hbehind (by omega)) ?_
        exact (r.rename_name hall.2 (Or.inr ⟨rfl, hnamed.resolve_right hcolon⟩) line).symm

end Rounds

/-- **A text with other label names has the same tokens**, label names apart. -/
lemma agrees (n : Nat) : ∀ (cs : List Char) (j k k' line : Nat), cs.length ≤ n → cs.length ≤ j →
    cs.length ≤ k → r.Agrees j k k' cs line := by
  induction n with
  | zero =>
      intro cs j k k' line hn _ _
      rw [List.length_eq_zero_iff.mp (Nat.le_zero.mp hn)]
      exact agrees_nil
  | succ n ih =>
      intro cs j k k' line hn hj hk hk'
      cases cs with
      | nil => exact agrees_nil hk'
      | cons c rest =>
          obtain ⟨j, rfl⟩ : ∃ i, j = i + 1 := ⟨j - 1, by simp at hj; omega⟩
          obtain ⟨k, rfl⟩ : ∃ i, k = i + 1 := ⟨k - 1, by simp at hk; omega⟩
          obtain ⟨more, hmore⟩ := List.head?_eq_some_iff.mp (r.head?_applyFrom (j + 1) (c :: rest))
          obtain ⟨k', rfl⟩ : ∃ i, k' = i + 1 := ⟨k' - 1, by rw [hmore] at hk'; simp at hk'; omega⟩
          clear hmore more
          simp only [List.length_cons, Nat.add_le_add_iff_right] at hn hj hk
          have hbehind : ∀ cs i line, cs.length ≤ rest.length → cs.length ≤ i → r.Agrees i k k' cs line :=
            fun cs i line hcs hi => ih cs i k k' line (by omega) hi (by omega)
          by_cases hblank : isBlank c = true
          · exact agrees_blank hblank (fun line => hbehind rest j line (le_refl _) hj) hk'
          by_cases hsemi : c = ';'
          · subst hsemi
            have hlength := (List.dropWhile_suffix (l := rest) (· != '\n')).length_le
            exact agrees_comment (hbehind _ j line hlength (by omega)) hk'
          by_cases hquote : c = '"'
          · subst hquote
            refine agrees_string (fun body after hsplit => ?_) hk'
            obtain ⟨hrest, -⟩ := splitString_eq hsplit
            have hlength : after.length ≤ rest.length := by
              rw [hrest, List.length_append, List.length_cons]
              omega
            exact hbehind after j line hlength (by omega)
          have hc : Begins c := by
            refine ⟨Bool.not_eq_true _ ▸ hblank, beq_eq_false_iff_ne.mpr ?_, beq_eq_false_iff_ne.mpr hsemi,
              beq_eq_false_iff_ne.mpr hquote⟩
            rintro rfl
            exact hblank (by decide)
          by_cases hnumber : startsNumber c = true
          · have hlength : (splitNumber c rest).2.length ≤ rest.length := by
              obtain ⟨hrest, -⟩ := splitNumber_eq (rfl : splitNumber c rest = (_, _))
              conv_rhs => rw [hrest]
              rw [List.length_append]
              omega
            exact agrees_number hc hnumber (hbehind _ j line hlength (by omega)) hk'
          simp only [Bool.not_eq_true] at hnumber
          by_cases hident : isIdentChar c = true
          · have hsplit := List.takeWhile_append_dropWhile (p := isIdentChar) (l := rest)
            have hnext := List.head?_dropWhile_not isIdentChar rest
            have hall : (rest.takeWhile isIdentChar).all isIdentChar = true :=
              List.all_eq_true.mpr fun d hd => List.mem_takeWhile_imp hd
            generalize rest.takeWhile isIdentChar = more at hsplit hall
            generalize rest.dropWhile isIdentChar = after at hsplit hnext
            subst hsplit
            have hword : IsIdent (c :: more) := by
              refine ⟨⟨c, more, rfl, hc.blank, hnumber, ?_⟩, by simp [hident, hall]⟩
              have hparens : c ≠ '(' ∧ c ≠ ')' := by
                constructor <;> rintro rfl <;> exact absurd hident (by decide)
              simp [beq_eq_false_iff_ne.mp hc.line, hsemi, hquote, hparens]
            have hafter : ∀ d ds, after = d :: ds → isIdentChar d = false := by
              rintro d ds rfl
              simpa using hnext
            simp only [List.length_append] at hj hbehind
            exact agrees_identifier hword hafter (by omega)
              (fun cs i hcs hi => hbehind cs i line (by omega) hi) hk'
          · exact agrees_bracket hc hnumber (Bool.not_eq_true _ ▸ hident)
              (hbehind rest j line (le_refl _) hj) hk'

/-- **The tokens of a text with other label names.** -/
theorem scan_apply {source source' : Text} (h : Utf8.chars source' = r.apply (Utf8.chars source)) :
    Token.scan source' = (Token.scan source).map (List.map (rename r.word)) := by
  unfold Token.scan
  rw [h]
  exact r.agrees _ _ _ _ _ 1 (le_refl _) (le_refl _) (le_refl _) (le_refl _)

end LabelRenaming

namespace Assembly

/-- **A text with other label names assembles to the same classes.** -/
theorem classes_apply (r : LabelRenaming) {source source' : Text}
    (h : Utf8.chars source' = r.apply (Utf8.chars source)) :
    (classes source').toOption = (classes source).toOption := by
  unfold classes
  rw [r.scan_apply h]
  cases Token.scan source with
  | error e => rfl
  | ok toks =>
      have htokens : (ofTokens (toks.map (rename r.word))).toOption = (ofTokens toks).toOption.map id := by
        rw [Option.map_id_fun, id_eq]
        exact ofTokens_rename r.renames_word toks
      obtain ⟨e, e', h, h'⟩ | ⟨cs, h, h'⟩ := both_of_toOption htokens
      · simp only [Except.map, h, h']
        rfl
      · simp only [Except.map, h, h']
        rfl

/-- **How the assembler resolves labels.**  What is read as a method is a form, and the method has the labels
that the names of the form denote.  A form that mentions a name without defining it, or defines a name twice,
is rejected.  Other names, different for different labels, make no difference.

Names get 32-bit numbers when they are first mentioned, so a name without definition is found as long as
there are no more names than numbers. -/
structure LabelResolution : Prop where
  form : ∀ toks m rest, method toks = .ok (m, rest) → ∃ f : MethodForm, toks = f.tokens ++ rest ∧ AtEnd rest
  resolved : ∀ (f : MethodForm) m rest rest', AtEnd rest → method (f.tokens ++ rest) = .ok (m, rest') →
    rest' = rest ∧ f.Resolves m
  undefined : ∀ (f : MethodForm) rest, AtEnd rest → f.names.dedup.length ≤ 2 ^ 32 →
    (∃ n ∈ f.names, n ∉ f.definitions) → ∃ e, method (f.tokens ++ rest) = .error e
  twice : ∀ (f : MethodForm) rest, AtEnd rest → ¬ f.definitions.Nodup →
    ∃ e, method (f.tokens ++ rest) = .error e
  renamed : ∀ (r : LabelRenaming) source source', Utf8.chars source' = r.apply (Utf8.chars source) →
    (classes source').toOption = (classes source).toOption

/-- **Labels are resolved by their names.** -/
theorem labelResolution : LabelResolution where
  form toks m rest h := by
    obtain ⟨f, htoks, hrest, -⟩ := method_form h
    exact ⟨f, htoks, hrest⟩
  resolved f m rest rest' hrest h := MethodForm.read hrest h
  undefined f rest hrest hbound := by
    rintro ⟨n, hn, hundefined⟩
    cases h : method (f.tokens ++ rest) with
    | error e => exact ⟨e, rfl⟩
    | ok r => exact absurd ((MethodForm.read hrest h).2.defined hbound n hn) hundefined
  twice f rest hrest htwice := by
    cases h : method (f.tokens ++ rest) with
    | error e => exact ⟨e, rfl⟩
    | ok r => exact absurd (MethodForm.read hrest h).2.once htwice
  renamed r source source' h := classes_apply r h

/-- A section on one line. -/
def lineForm (word : String) (body : List Token) (flat : Flat body) : SectionForm :=
  ⟨⟨"(", .open_, 1⟩, ⟨word, .ident, 1⟩, body, ⟨")", .close, 1⟩, rfl, flat, rfl⟩

/-- A method with two code sections, and a range between them: its labels are mentioned before they are
defined, and in another order. -/
def branches (handler : String) : MethodForm where
  name := ⟨"f", .string, 1⟩
  desc := ⟨"()V", .string, 1⟩
  sections := [
    lineForm "stack" [⟨"1", .number, 1⟩] (by decide),
    lineForm "code" [⟨"goto", .ident, 1⟩, ⟨"$out", .ident, 1⟩, ⟨"$from", .label, 1⟩, ⟨"nop", .ident, 1⟩]
      (by decide),
    lineForm "catch" [⟨"$from", .ident, 1⟩, ⟨"$to", .ident, 1⟩, ⟨handler, .ident, 1⟩, ⟨"any", .ident, 1⟩]
      (by simp [Flat]),
    lineForm "code" [⟨"$to", .label, 1⟩, ⟨"$out", .label, 1⟩, ⟨"return", .ident, 1⟩] (by decide)]

theorem labelResolution_branches :
    (∃ m, method (branches "$out").tokens = .ok (m, []) ∧ (branches "$out").Resolves m
      ∧ sectionLabels m "code" = [2, 0, 1, 2] ∧ sectionLabels m "catch" = [0, 1, 2])
    ∧ ∃ e, method (branches "$gone").tokens = .error e := by
  have hend : AtEnd [] := by simp [AtEnd]
  have hread : ((method (branches "$out").tokens).toOption.map fun r =>
      (sectionLabels r.1 "code", sectionLabels r.1 "catch", r.2)) = some ([2, 0, 1, 2], [0, 1, 2], []) := by
    decide +kernel
  constructor
  · cases h : method (branches "$out").tokens with
    | error e => rw [h] at hread; cases hread
    | ok r =>
        obtain ⟨m, rest⟩ := r
        rw [h] at hread
        have hresult := Option.some.inj hread
        simp only [Prod.mk.injEq] at hresult
        obtain ⟨hcode, hcatch, rfl⟩ := hresult
        have hform := h
        rw [← List.append_nil (branches "$out").tokens] at hform
        exact ⟨m, rfl, (labelResolution.resolved _ _ _ _ hend hform).2, hcode, hcatch⟩
  · have hundefined : ∃ n ∈ (branches "$gone").names, n ∉ (branches "$gone").definitions := by decide +kernel
    have hbound : (branches "$gone").names.dedup.length ≤ 2 ^ 32 := by decide +kernel
    have herror := labelResolution.undefined _ [] hend hbound hundefined
    rwa [List.append_nil] at herror

end Assembly

end Suspension
