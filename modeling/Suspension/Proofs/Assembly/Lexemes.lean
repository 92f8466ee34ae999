import Suspension.Proofs.Assembly.Scanning

/-!
# Lexemes

**What a text is split into, piece by piece.**  A text that has tokens is a sequence of gaps and lexemes.
Whether characters form a lexeme depends on one character more, the one behind them, so a text that is
cut off behind a lexeme, or is written with other gaps, has the same tokens up to there.

* `Token.Gap`, `Token.Lexeme` — the pieces, `Token.Scanned` — a text made of them.
* `Token.scanFrom_eq_ok_iff` — the scan finds just these pieces.
* `Token.Scanned.cut` — a text up to a token, and up to the end of that token.
* `Token.spaced`, `Token.Lexeme.scans_written` — tokens written with single blanks between them.
* `Token.scan_stable` — both together.
-/

namespace Suspension

namespace Token

variable {c : Char} {cs piece rest rest' body more after : List Char} {w : Word} {t : Token}
  {toks pre post : List Token} {line fuel : Nat}

/-! ## Pieces -/

/-- **Characters between words**, in front of `rest`: a line end, another blank, or a comment up to the
end of its line. -/
inductive Gap : List Char → List Char → Prop where
  | lineEnd (rest : List Char) : Gap ['\n'] rest
  | blank {c : Char} (hblank : isBlank c = true) (hline : c ≠ '\n') (rest : List Char) : Gap [c] rest
  | comment {text rest : List Char} (hline : '\n' ∉ text)
      (hends : ∀ c more, rest = c :: more → c = '\n') : Gap (';' :: text) rest

/-- A character that is no gap and no word of one character, and begins no string. -/
def IsInner (c : Char) : Prop := isBlank c = false ∧ c ∉ ['\n', ';', '(', ')', '"']

/-- **The characters of a word**, in front of `rest`. -/
inductive Lexeme : Word → List Char → List Char → Prop where
  | open_ (rest : List Char) : Lexeme (.open_, "(") ['('] rest
  | close (rest : List Char) : Lexeme (.close, ")") [')'] rest
  | string {body : List Char} {value : Text}
      (hends : ∀ after, splitString (body ++ '"' :: after) = some (body, after))
      (hvalue : Quoted.decode body = some value) (rest : List Char) :
      Lexeme (.string, value) ('"' :: (body ++ ['"'])) rest
  | number {c : Char} {more rest : List Char} (hinner : IsInner c) (hstarts : startsNumber c = true)
      (hends : splitNumber c (more ++ rest) = (more, rest)) :
      Lexeme (.number, Utf8.encode (c :: more)) (c :: more) rest
  | ident {c : Char} {more rest : List Char} (hword : IsIdent (c :: more))
      (hends : ∀ d ds, rest = d :: ds → isIdentChar d = false)
      (hlabel : ¬ (c = '$' ∧ rest.head? = some ':')) :
      Lexeme (.ident, Utf8.encode (c :: more)) (c :: more) rest
  | label {more : List Char} (hword : IsIdent ('$' :: more)) (rest : List Char) :
      Lexeme (.label, Utf8.encode ('$' :: more)) ('$' :: (more ++ [':'])) rest

lemma Gap.length_pos (h : Gap piece rest) : 0 < piece.length := by
  cases h <;> exact Nat.succ_pos _

lemma Lexeme.length_pos (h : Lexeme w piece rest) : 0 < piece.length := by
  cases h <;> exact Nat.succ_pos _

/-- A gap stays one when the text is cut off. -/
lemma Gap.cut (h : Gap piece (rest ++ rest')) : Gap piece rest := by
  generalize hwhole : rest ++ rest' = whole at h
  cases h with
  | lineEnd => exact .lineEnd rest
  | blank hblank hline => exact .blank hblank hline rest
  | comment hline hends =>
      subst hwhole
      refine .comment hline ?_
      rintro c more rfl
      exact hends c (more ++ rest') rfl

/-- The characters of a number follow one another. -/
lemma isChain_splitNumber (h : splitNumber c cs = (more, after)) :
    (c :: more).IsChain fun p c => continuesNumber p c = true := by
  induction cs generalizing c more with
  | nil =>
      cases h
      exact .singleton c
  | cons d cs ih =>
      rw [splitNumber] at h
      split at h
      · next hcontinues =>
          cases hsplit : splitNumber d cs with
          | mk more₁ after₁ =>
              rw [hsplit] at h
              cases h
              exact List.isChain_cons_cons.mpr ⟨hcontinues, ih hsplit⟩
      · cases h
        exact .singleton c

/-- A word stays one when the text is cut off. -/
lemma Lexeme.cut (h : Lexeme w piece (rest ++ rest')) : Lexeme w piece rest := by
  generalize hwhole : rest ++ rest' = whole at h
  cases h with
  | open_ => exact .open_ rest
  | close => exact .close rest
  | string hends hvalue => exact .string hends hvalue rest
  | label hword => exact .label hword rest
  | number hinner hstarts hends =>
      refine .number hinner hstarts ?_
      cases rest with
      | nil => exact splitNumber_append (isChain_splitNumber hends) (by simp [Breaks])
      | cons d ds => exact (splitNumber_eq hends).2 (d :: ds) (by rw [← hwhole]; rfl)
  | ident hword hends hlabel =>
      subst hwhole
      cases rest with
      | nil => exact .ident hword (by simp) (by simp)
      | cons d ds =>
          refine .ident hword ?_ hlabel
          rintro d ds ⟨⟩
          exact hends d (ds ++ rest') rfl

/-! ## Lines -/

lemma notMem_of_isIdentChar (h : cs.all isIdentChar = true) : '\n' ∉ cs := by
  intro hmem
  have hline := List.all_eq_true.mp h '\n' hmem
  rw [isIdentChar_break rfl] at hline
  cases hline

lemma notMem_of_isChain (h : (c :: more).IsChain fun p c => continuesNumber p c = true) :
    '\n' ∉ more := by
  induction more generalizing c with
  | nil => simp
  | cons d more ih =>
      rw [List.isChain_cons_cons] at h
      rw [List.mem_cons, not_or]
      refine ⟨?_, ih h.2⟩
      rintro rfl
      rw [continuesNumber_break rfl] at h
      cases h.1

/-- **A word stands on one line.** -/
lemma Lexeme.count_eq_zero (h : Lexeme w piece rest) : piece.count '\n' = 0 := by
  rw [List.count_eq_zero]
  cases h with
  | open_ => decide
  | close => decide
  | string hends hvalue => simp [Quoted.notMem_of_decode hvalue]
  | number hinner hstarts hends =>
      rw [List.mem_cons, not_or]
      refine ⟨?_, notMem_of_isChain (isChain_splitNumber hends)⟩
      rintro rfl
      exact hinner.2 List.mem_cons_self
  | ident hword => exact notMem_of_isIdentChar hword.all
  | label hword => simpa using notMem_of_isIdentChar hword.all

/-! ## Rounds of the scan -/

lemma scanFrom_gap (h : Gap piece rest) (fuel line : Nat) :
    scanFrom (fuel + 1) (piece ++ rest) line = scanFrom fuel rest (line + piece.count '\n') := by
  cases h with
  | lineEnd => rfl
  | blank hblank hline => simp [scanFrom, hblank, hline]
  | @comment text rest hline hends =>
      have hdrop : (text ++ rest).dropWhile (· != '\n') = rest := by
        rw [List.dropWhile_append_of_pos fun c hc => by
          simpa using fun heq : c = '\n' => hline (heq ▸ hc)]
        cases rest with
        | nil => rfl
        | cons c more => simp [hends c more rfl]
      have hcount : (';' :: text).count '\n' = 0 := by
        rw [List.count_eq_zero]
        simpa using hline
      have hblank : isBlank ';' = false := by decide
      rw [hcount, List.cons_append, scanFrom, hdrop]
      simp [hblank]

lemma scanFrom_lexeme (h : Lexeme w piece rest) (fuel line : Nat) :
    scanFrom (fuel + 1) (piece ++ rest) line
      = (do return ⟨w.2, w.1, line⟩ :: (← scanFrom fuel rest line)) := by
  cases h with
  | open_ => rfl
  | close => rfl
  | @string body value hends hvalue =>
      have hsplit : splitString (body ++ ['"'] ++ rest) = some (body, rest) := by
        rw [List.append_assoc]
        exact hends rest
      have hblank : isBlank '"' = false := by decide
      rw [List.cons_append]
      generalize body ++ ['"'] ++ rest = quoted at hsplit ⊢
      simp [scanFrom, hblank, hsplit, hvalue]
  | number hinner hstarts hends =>
      obtain ⟨hblank, hother⟩ := hinner
      simp only [List.mem_cons, List.not_mem_nil, or_false, not_or] at hother
      obtain ⟨hline, hsemi, hopen, hclose, hquote⟩ := hother
      simp only [List.cons_append, scanFrom, beq_iff_eq, hline, hblank, hsemi, hopen, hclose, hquote,
        hstarts, if_false, if_true, Bool.false_eq_true, hends]
  | ident hword hends hlabel =>
      rw [List.cons_append, scanFrom_ident hword hends]
      exact scanBehind_ident hlabel fuel line _
  | @label more hword =>
      have hends : ∀ d ds, ':' :: rest = d :: ds → isIdentChar d = false := by
        rintro d ds ⟨⟩
        decide
      rw [List.cons_append, List.append_assoc]
      exact scanFrom_ident hword hends fuel line

/-- A comment goes on up to the end of its line. -/
lemma exists_comment (cs : List Char) : ∃ text rest, ';' :: cs = (';' :: text) ++ rest ∧
    Gap (';' :: text) rest := by
  refine ⟨cs.takeWhile (· != '\n'), cs.dropWhile (· != '\n'), ?_, .comment (fun hmem => ?_) ?_⟩
  · rw [List.cons_append, List.takeWhile_append_dropWhile]
  · simpa using List.mem_takeWhile_imp hmem
  · intro c more heq
    have hhead := List.head?_dropWhile_not (· != '\n') cs
    rw [heq] at hhead
    simpa using hhead

/-- An identifier goes on as long as its characters do; it defines a label if a dollar sign is in front
of it and a colon behind it. -/
lemma exists_identifier (hinner : IsInner c) (hstarts : startsNumber c = false)
    (hident : isIdentChar c = true) (cs : List Char) :
    ∃ w piece rest, c :: cs = piece ++ rest ∧ Lexeme w piece rest := by
  have hspan : cs = cs.takeWhile isIdentChar ++ cs.dropWhile isIdentChar :=
    List.takeWhile_append_dropWhile.symm
  have hword : IsIdent (c :: cs.takeWhile isIdentChar) := by
    refine ⟨⟨c, _, rfl, hinner.1, hstarts, hinner.2⟩, ?_⟩
    rw [List.all_cons, hident, Bool.true_and]
    exact List.all_takeWhile
  have hends : ∀ d ds, cs.dropWhile isIdentChar = d :: ds → isIdentChar d = false := by
    intro d ds heq
    have hhead := List.head?_dropWhile_not isIdentChar cs
    rw [heq] at hhead
    simpa using hhead
  by_cases hlabel : c = '$' ∧ (cs.dropWhile isIdentChar).head? = some ':'
  · obtain ⟨rfl, hcolon⟩ := hlabel
    obtain ⟨rest, hrest⟩ := List.head?_eq_some_iff.mp hcolon
    refine ⟨_, _, rest, ?_, .label hword rest⟩
    rw [List.cons_append, List.append_assoc, List.singleton_append, ← hrest, ← hspan]
  · exact ⟨_, _, _, by rw [List.cons_append, ← hspan], .ident hword hends hlabel⟩

/-- **Where a text that has tokens begins**: with a gap, or with a word. -/
lemma exists_piece (h : scanFrom (fuel + 1) (c :: cs) line = .ok toks) :
    ∃ piece rest, c :: cs = piece ++ rest ∧ (Gap piece rest ∨ ∃ w, Lexeme w piece rest) := by
  by_cases hline : c = '\n'
  · subst hline
    exact ⟨['\n'], cs, rfl, .inl (.lineEnd cs)⟩
  by_cases hblank : isBlank c = true
  · exact ⟨[c], cs, rfl, .inl (.blank hblank hline cs)⟩
  by_cases hsemi : c = ';'
  · subst hsemi
    obtain ⟨text, rest, hcs, hgap⟩ := exists_comment cs
    exact ⟨_, rest, hcs, .inl hgap⟩
  by_cases hopen : c = '('
  · subst hopen
    exact ⟨['('], cs, rfl, .inr ⟨_, .open_ cs⟩⟩
  by_cases hclose : c = ')'
  · subst hclose
    exact ⟨[')'], cs, rfl, .inr ⟨_, .close cs⟩⟩
  simp only [scanFrom, beq_iff_eq, hline, hblank, hsemi, hopen, hclose, if_false, Bool.false_eq_true] at h
  by_cases hquote : c = '"'
  · subst hquote
    simp only [if_true] at h
    split at h
    · cases h
    · next body after hsplit =>
        split at h
        · cases h
        · next value hvalue =>
            obtain ⟨hcs, hends⟩ := splitString_eq hsplit
            refine ⟨'"' :: (body ++ ['"']), after, ?_, .inr ⟨_, .string hends hvalue after⟩⟩
            rw [hcs, List.cons_append, List.append_assoc]
            rfl
  have hinner : IsInner c := by simp [IsInner, hblank, hline, hsemi, hopen, hclose, hquote]
  by_cases hstarts : startsNumber c = true
  · cases hsplit : splitNumber c cs with
    | mk more after =>
        obtain ⟨hcs, -⟩ := splitNumber_eq hsplit
        refine ⟨c :: more, after, by rw [hcs, List.cons_append],
          .inr ⟨_, .number hinner hstarts (hcs ▸ hsplit)⟩⟩
  by_cases hident : isIdentChar c = true
  · obtain ⟨w, piece, rest, hcs, hword⟩ := exists_identifier hinner (by simpa using hstarts) hident cs
    exact ⟨piece, rest, hcs, .inr ⟨w, hword⟩⟩
  · simp only [hquote, hstarts, hident, if_false, Bool.false_eq_true] at h
    cases h

/-! ## Texts made of pieces -/

/-- **A text made of gaps and words**, from a given line on, and its tokens. -/
inductive Scanned : Nat → List Char → List Token → Prop where
  | done (line : Nat) : Scanned line [] []
  | gap {line : Nat} {piece rest : List Char} {toks : List Token} (h : Gap piece rest)
      (hrest : Scanned (line + piece.count '\n') rest toks) : Scanned line (piece ++ rest) toks
  | word {line : Nat} {w : Word} {piece rest : List Char} {toks : List Token} (h : Lexeme w piece rest)
      (hrest : Scanned line rest toks) : Scanned line (piece ++ rest) (⟨w.2, w.1, line⟩ :: toks)

/-- **The scan finds just these pieces.** -/
lemma scanFrom_eq_ok_iff (hfuel : cs.length ≤ fuel) :
    scanFrom fuel cs line = .ok toks ↔ Scanned line cs toks := by
  constructor
  · intro h
    induction fuel generalizing cs line toks with
    | zero =>
        obtain rfl : cs = [] := List.length_eq_zero_iff.mp (by omega)
        cases h
        exact .done line
    | succ fuel ih =>
        cases cs with
        | nil =>
            cases h
            exact .done line
        | cons c cs =>
            obtain ⟨piece, rest, hcs, hgap | ⟨w, hword⟩⟩ := exists_piece h
            · have hlength : rest.length ≤ fuel := by
                have := hgap.length_pos
                rw [hcs, List.length_append] at hfuel
                omega
              rw [hcs, scanFrom_gap hgap] at h
              exact hcs ▸ .gap hgap (ih hlength h)
            · have hlength : rest.length ≤ fuel := by
                have := hword.length_pos
                rw [hcs, List.length_append] at hfuel
                omega
              rw [hcs, scanFrom_lexeme hword] at h
              cases hrest : scanFrom fuel rest line with
              | error e =>
                  rw [hrest] at h
                  cases h
              | ok toks' =>
                  rw [hrest] at h
                  cases h
                  exact hcs ▸ .word hword (ih hlength hrest)
  · intro h
    induction h generalizing fuel with
    | done => cases fuel <;> rfl
    | gap hgap _ ih =>
        have hlength := hgap.length_pos
        rw [List.length_append] at hfuel
        obtain ⟨fuel, rfl⟩ : ∃ n, fuel = n + 1 := ⟨fuel - 1, by omega⟩
        rw [scanFrom_gap hgap]
        exact ih (by omega)
    | word hword _ ih =>
        have hlength := hword.length_pos
        rw [List.length_append] at hfuel
        obtain ⟨fuel, rfl⟩ : ∃ n, fuel = n + 1 := ⟨fuel - 1, by omega⟩
        rw [scanFrom_lexeme hword, ih (by omega)]
        rfl

lemma scan_eq_ok_iff {source : Text} : scan source = .ok toks ↔ Scanned 1 (Utf8.chars source) toks :=
  scanFrom_eq_ok_iff (Nat.le_refl _)

/-- **A text cut off at a token**: in front of the token there are the tokens before it, and as many line
ends as the token's line says. -/
lemma Scanned.cut (h : Scanned line cs (pre ++ t :: post)) : ∃ before piece after,
    cs = before ++ piece ++ after ∧ Scanned line before pre ∧ Scanned line (before ++ piece) (pre ++ [t]) ∧
      Lexeme t.word piece after ∧ t.line = line + before.count '\n' := by
  generalize htoks : pre ++ t :: post = toks at h
  induction h generalizing pre with
  | done => simp at htoks
  | @gap line p rest toks hgap _ ih =>
      obtain ⟨before, piece, after, rfl, hbefore, hpiece, hword, hline⟩ := ih htoks
      rw [List.append_assoc] at hgap
      refine ⟨p ++ before, piece, after, by simp, .gap hgap.cut hbefore, ?_, hword, ?_⟩
      · rw [List.append_assoc]
        rw [← List.append_assoc] at hgap
        exact .gap hgap.cut hpiece
      · rw [hline, List.count_append, Nat.add_assoc]
  | @word line w p rest toks hlexeme hrest ih =>
      cases pre with
      | nil =>
          obtain ⟨rfl, -⟩ := List.cons.inj htoks
          refine ⟨[], p, rest, rfl, .done line, ?_, hlexeme, rfl⟩
          have hcut : Lexeme w p [] := Lexeme.cut (rest.nil_append.symm ▸ hlexeme)
          rw [List.nil_append, ← List.append_nil p]
          exact .word hcut (.done line)
      | cons t' pre =>
          obtain ⟨rfl, hpost⟩ := List.cons.inj htoks
          obtain ⟨before, piece, after, rfl, hbefore, hpiece, hword, hline⟩ := ih hpost
          rw [List.append_assoc] at hlexeme
          refine ⟨p ++ before, piece, after, by simp, .word hlexeme.cut hbefore, ?_, hword, ?_⟩
          · rw [List.append_assoc]
            rw [← List.append_assoc] at hlexeme
            exact .word hlexeme.cut hpiece
          · rw [hline, List.count_append, hlexeme.count_eq_zero, Nat.zero_add]

/-! ## Tokens with single blanks between them -/

/-- A token as it is written in a text: a string with its quotes, a label with its colon. -/
def written (t : Token) : Text := if t.kind == .label then t.render ++ Text.ofString ":" else t.render

/-- **Tokens written with single blanks between them.** -/
def spaced (toks : List Token) : Text := Text.join (Text.ofString " ") (toks.map written)

/-- A word stays one in front of a break. -/
lemma Lexeme.breaks (h : Lexeme w piece rest) (hrest' : Breaks rest') : Lexeme w piece rest' := by
  cases h with
  | open_ => exact .open_ rest'
  | close => exact .close rest'
  | string hends hvalue => exact .string hends hvalue rest'
  | number hinner hstarts hends =>
      exact .number hinner hstarts (splitNumber_append (isChain_splitNumber hends) hrest')
  | ident hword =>
      refine .ident hword (fun d ds heq => isIdentChar_break (hrest' d ds heq)) ?_
      rintro ⟨-, hcolon⟩
      obtain ⟨ds, rfl⟩ := List.head?_eq_some_iff.mp hcolon
      exact absurd (hrest' _ ds rfl) (by decide)
  | label hword => exact .label hword rest'

lemma Scans.lexeme {ws : List Word} (hscans : Scans rest ws) (h : Lexeme w piece rest) :
    Scans (piece ++ rest) (w :: ws) := by
  have hlength := h.length_pos
  exact hscans.take (by rw [List.length_append]; omega) (scanFrom_lexeme h)

/-- **A token is written as a word**: as it was found, or, if it is a string, in its quoted form. -/
lemma Lexeme.written (h : Lexeme t.word piece rest) : ∃ cs, t.written = Utf8.encode cs ∧
    ∀ rest ws, Breaks rest → Scans rest ws → Scans (cs ++ rest) (t.word :: ws) := by
  obtain ⟨value, kind, line⟩ := t
  by_cases hstring : kind = .string
  · subst hstring
    obtain ⟨forms, hforms, htext⟩ := Quoted.exists_written value
    exact ⟨_, htext, fun rest ws _ hscans => hscans.string hforms⟩
  · have hpiece : Token.written ⟨value, kind, line⟩ = Utf8.encode piece := by
      cases h with
      | open_ => rfl
      | close => rfl
      | string => exact absurd rfl hstring
      | number => rfl
      | ident => rfl
      | label hword => exact (Utf8.encode_append ('$' :: _) [':']).symm
    exact ⟨piece, hpiece, fun rest ws hrest hscans => hscans.lexeme (h.breaks hrest)⟩

lemma spaced_cons (t : Token) (toks : List Token) :
    spaced (t :: toks) = t.written ++ toks.flatMap fun t => Text.ofString " " ++ t.written := by
  unfold spaced
  induction toks generalizing t with
  | nil => simp [Text.join]
  | cons t' toks ih =>
      rw [List.map_cons, List.map_cons, Text.join, ← List.map_cons, ih, List.flatMap_cons,
        List.append_assoc, List.append_assoc]
      simp

/-- **Tokens that are written as words are found again.** -/
lemma scan_spaced (h : ∀ t ∈ toks, ∃ piece rest, Lexeme t.word piece rest) :
    ∃ toks', scan (spaced toks) = .ok toks' ∧ toks'.map word = toks.map word := by
  cases toks with
  | nil => exact ⟨[], rfl, rfl⟩
  | cons t toks =>
      have hrest : Prints (toks.flatMap fun t => Text.ofString " " ++ t.written)
          (toks.flatMap fun t => [t.word]) := by
        refine Prints.flatMap fun t' ht' => ?_
        obtain ⟨piece, rest, hpiece⟩ := h t' (List.mem_cons_of_mem t ht')
        obtain ⟨cs, hcs, hscans⟩ := hpiece.written
        rw [hcs]
        exact prints_spaced hscans
      obtain ⟨cs', hcs', hbreaks, hscans'⟩ := hrest
      obtain ⟨piece, rest, hpiece⟩ := h t List.mem_cons_self
      obtain ⟨cs, hcs, hscans⟩ := hpiece.written
      have hall := hscans cs' _ hbreaks (by simpa using hscans' [] [] (by simp [Breaks]) Scans.nil)
      rw [spaced_cons, hcs, hcs', ← Utf8.encode_append, scan, Utf8.chars_encode, List.map_cons,
        List.map_eq_flatMap]
      exact hall (cs ++ cs').length 1 (Nat.le_refl _)

/-- **Splitting a text into tokens is stable.**  The tokens of a text, written with single blanks between
them, are split into the same words.  In the text itself every token has its place: the text up to there
has just the tokens before it, with the characters of the token it has that token besides, and the token's
line is one more than the line ends before its first character. -/
theorem scan_stable {source : Text} {toks : List Token} (h : scan source = .ok toks) :
    (∃ toks', scan (spaced toks) = .ok toks' ∧ toks'.map word = toks.map word) ∧
      ∀ pre t post, toks = pre ++ t :: post → ∃ before piece after,
        Utf8.chars source = before ++ piece ++ after ∧
          scan (Utf8.encode before) = .ok pre ∧
          scan (Utf8.encode (before ++ piece)) = .ok (pre ++ [t]) ∧
          Lexeme t.word piece after ∧ t.line = 1 + before.count '\n' := by
  have hscanned := scan_eq_ok_iff.mp h
  refine ⟨scan_spaced fun t ht => ?_, ?_⟩
  · obtain ⟨pre, post, rfl⟩ := List.append_of_mem ht
    obtain ⟨-, piece, after, -, -, -, hword, -⟩ := hscanned.cut
    exact ⟨piece, after, hword⟩
  · rintro pre t post rfl
    obtain ⟨before, piece, after, hcs, hbefore, hpiece, hword, hline⟩ := hscanned.cut
    refine ⟨before, piece, after, hcs, scan_eq_ok_iff.mpr ?_, scan_eq_ok_iff.mpr ?_, hword, hline⟩
    · rwa [Utf8.chars_encode]
    · rwa [Utf8.chars_encode]

/-- A label behind a comment, and words that stand close together. -/
def crowded : Text := Text.ofString "; (\"\n$x:(ldc\"a\\n\\\"\"-1e+5e$y\n)"

/-- The theorem at these words. -/
theorem crowded_stable : ∃ toks, scan crowded = .ok toks ∧
    toks.map (·.line) = [2, 2, 2, 2, 2, 2, 3] ∧
    (∃ toks', scan (spaced toks) = .ok toks' ∧ toks'.map word = toks.map word) ∧
      ∀ pre t post, toks = pre ++ t :: post → ∃ before piece after,
        Utf8.chars crowded = before ++ piece ++ after ∧
          scan (Utf8.encode before) = .ok pre ∧
          scan (Utf8.encode (before ++ piece)) = .ok (pre ++ [t]) ∧
          Lexeme t.word piece after ∧ t.line = 1 + before.count '\n' := by
  have h : scan crowded = .ok [⟨"$x", .label, 2⟩, ⟨"(", .open_, 2⟩, ⟨"ldc", .ident, 2⟩,
      ⟨"a\n\"", .string, 2⟩, ⟨"-1e+5e", .number, 2⟩, ⟨"$y", .ident, 2⟩, ⟨")", .close, 3⟩] := by
    decide +kernel
  exact ⟨_, h, rfl, scan_stable h⟩

end Token

end Suspension
