import Suspension.Assembly.Parser
import Suspension.Assembly.Printer
import Suspension.Proofs.Assembly.Scanning

/-!
# Printed texts that are read

**What a reader makes of a printed text.**  A reader takes the tokens of a piece off the front and leaves
the others; some readers go on up to the end of their form, and need it behind the piece.

* `Assembly.Reads` — a reader takes a piece, and what it gives; `Reads.bind` follows the readers.
* `Assembly.ReadsUpTo` — a repetition takes a piece when it has a round for every word;
  `ReadsUpTo.step` and `ReadsUpTo.stop` are its rounds.
* `Assembly.Passes` — the sections of a form take what is read from one state to another.
-/

namespace Suspension

namespace Flag

/-- Every flag with a word is one bit. -/
lemma words_bit : ∀ w ∈ words, ∃ i < 32, w.2.toBitVec = BitVec.twoPow 32 i := by
  decide +kernel

lemma and_bit {w : Text × UInt32} (hw : w ∈ words) (flags : UInt32) :
    flags &&& w.2 = if has flags w.2 then w.2 else 0 := by
  obtain ⟨i, -, hi⟩ := words_bit w hw
  have hand : flags &&& w.2 = 0 ∨ flags &&& w.2 = w.2 := by
    simp only [← UInt32.toBitVec_inj, UInt32.toBitVec_and, hi, BitVec.and_twoPow]
    split
    · exact Or.inr rfl
    · exact Or.inl rfl
  unfold has
  rcases hand with h | h <;> rw [h] <;> split <;> simp_all

/-- The flags that have a word. -/
def named : UInt32 := words.foldl (fun acc w => acc ||| w.2) 0

lemma and_or (x y z : UInt32) : x &&& (y ||| z) = (x &&& y) ||| (x &&& z) := by
  simp only [← UInt32.toBitVec_inj, UInt32.toBitVec_and, UInt32.toBitVec_or, BitVec.and_or_distrib_left]

lemma foldl_or (acc : UInt32) (ws : List (Text × UInt32)) :
    ws.foldl (fun acc w => acc ||| w.2) acc = acc ||| ws.foldl (fun acc w => acc ||| w.2) 0 := by
  induction ws generalizing acc with
  | nil => simp
  | cons w ws ih =>
      rw [List.foldl_cons, List.foldl_cons, ih (acc ||| w.2), ih (0 ||| w.2), UInt32.or_assoc]
      simp

/-- **The words of the flags that are set** denote the flags that have a word. -/
lemma foldl_filter (flags : UInt32) {ws : List (Text × UInt32)} (hws : ∀ w ∈ ws, w ∈ words) :
    (ws.filter fun w => has flags w.2).foldl (fun acc w => acc ||| w.2) 0
      = flags &&& ws.foldl (fun acc w => acc ||| w.2) 0 := by
  induction ws with
  | nil => simp
  | cons w ws ih =>
      have hrest := ih fun w' hw' => hws w' (List.mem_cons_of_mem w hw')
      have hbit := and_bit (hws w List.mem_cons_self) flags
      rw [List.foldl_cons, foldl_or (0 ||| w.2), UInt32.zero_or, and_or, ← hrest,
        hbit, List.filter_cons]
      split
      · rw [List.foldl_cons, foldl_or, UInt32.zero_or]
      · simp

end Flag

namespace Assembly

open Token

variable {α β : Type} {after : List Token → Prop} {t t' : Text} {ws : List Word}

/-! ## Readers -/

/-- Nothing is asked of the tokens behind. -/
def Anything (_ : List Token) : Prop := True

/-- The form ends behind. -/
def AtClose (rest : List Token) : Prop := ∃ t more, rest = t :: more ∧ t.kind = .close

/-- **A reader takes words off the front**, whatever their lines. -/
def Takes (after : List Token → Prop) (p : Parse α) (ws : List Word) (Q : α → Prop) : Prop :=
  ∀ toks rest, toks.map Token.word = ws → after rest → ∃ a, p (toks ++ rest) = .ok (a, rest) ∧ Q a

/-- **A reader takes a printed piece.** -/
def Reads (after : List Token → Prop) (p : Parse α) (t : Text) (Q : α → Prop) : Prop :=
  ∃ ws, Prints t ws ∧ Takes after p ws Q

/-- A piece has one sequence of words. -/
lemma words_unique {ws' : List Word} (h : Prints t ws) (h' : Prints t ws') : ws = ws' := by
  obtain ⟨toks, hscan, rfl⟩ := h.scan
  obtain ⟨toks', hscan', rfl⟩ := h'.scan
  rw [hscan] at hscan'
  cases hscan'
  rfl

lemma exists_tokens (ws : List Word) : ∃ toks : List Token, toks.map Token.word = ws :=
  ⟨ws.map fun w => ⟨w.2, w.1, 0⟩, by simp [Function.comp_def, Token.word]⟩

lemma run_bind {p : Parse α} {f : α → Parse β} {toks rest : List Token} {a : α}
    (h : p toks = .ok (a, rest)) : (p >>= f) toks = f a rest := by
  have hbind : (p >>= f) toks = (p toks >>= fun x => f x.1 x.2) := rfl
  rw [hbind, h]
  rfl

lemma Takes.bind {p : Parse α} {f : α → Parse β} {ws' : List Word} {Q : α → Prop} {Q' : β → Prop}
    (h : Takes Anything p ws Q) (h' : ∀ a, Q a → Takes after (f a) ws' Q') :
    Takes after (p >>= f) (ws ++ ws') Q' := by
  intro toks rest htoks hafter
  obtain ⟨toks₁, toks₂, rfl, rfl, rfl⟩ := List.map_eq_append_iff.mp htoks
  obtain ⟨a, ha, hQ⟩ := h toks₁ (toks₂ ++ rest) rfl trivial
  obtain ⟨b, hb, hQ'⟩ := h' a hQ toks₂ rest rfl hafter
  rw [List.append_assoc, run_bind ha]
  exact ⟨b, hb, hQ'⟩

lemma Takes.mono {p : Parse α} {Q Q' : α → Prop} (h : Takes after p ws Q) (hQ : ∀ a, Q a → Q' a) :
    Takes after p ws Q' := by
  intro toks rest htoks hafter
  obtain ⟨a, ha, hQa⟩ := h toks rest htoks hafter
  exact ⟨a, ha, hQ a hQa⟩

lemma Reads.mono {p : Parse α} {Q Q' : α → Prop} (h : Reads after p t Q) (hQ : ∀ a, Q a → Q' a) :
    Reads after p t Q' := by
  obtain ⟨ws, hws, htakes⟩ := h
  exact ⟨ws, hws, htakes.mono hQ⟩

lemma Reads.of_anything {p : Parse α} {Q : α → Prop} (h : Reads Anything p t Q) : Reads after p t Q := by
  obtain ⟨ws, hws, htakes⟩ := h
  exact ⟨ws, hws, fun toks rest htoks _ => htakes toks rest htoks trivial⟩

lemma Reads.pure {a : α} {Q : α → Prop} (h : Q a) : Reads after (pure a) [] Q := by
  refine ⟨[], Prints.nil, fun toks rest htoks _ => ⟨a, ?_, h⟩⟩
  rw [List.map_eq_nil_iff.mp htoks]
  rfl

/-- **One reader after another.** -/
lemma Reads.bind {p : Parse α} {f : α → Parse β} {Q : α → Prop} {Q' : β → Prop}
    (h : Reads Anything p t Q) (h' : ∀ a, Q a → Reads after (f a) t' Q') :
    Reads after (p >>= f) (t ++ t') Q' := by
  obtain ⟨ws, hws, htakes⟩ := h
  obtain ⟨toks, htoks⟩ := exists_tokens ws
  obtain ⟨a, -, hQ⟩ := htakes toks [] htoks trivial
  obtain ⟨ws', hws', -⟩ := h' a hQ
  refine ⟨ws ++ ws', hws.append hws', htakes.bind fun b hb => ?_⟩
  obtain ⟨ws'', hws'', htakes'⟩ := h' b hb
  rwa [words_unique hws'' hws'] at htakes'

/-- What is read is checked and further used. -/
lemma Reads.check {p : Parse α} {f : α → Parse β} {Q : α → Prop} {Q' : β → Prop} (h : Reads after p t Q)
    (hf : ∀ a, Q a → ∃ b, f a = Pure.pure b ∧ Q' b) : Reads after (p >>= f) t Q' := by
  obtain ⟨ws, hws, htakes⟩ := h
  refine ⟨ws, hws, fun toks rest htoks hafter => ?_⟩
  obtain ⟨a, ha, hQ⟩ := htakes toks rest htoks hafter
  obtain ⟨b, hb, hQ'⟩ := hf a hQ
  refine ⟨b, ?_, hQ'⟩
  rw [run_bind ha, hb]
  rfl

/-- What is read, further used. -/
lemma Reads.map {p : Parse α} {f : α → β} {Q : α → Prop} {Q' : β → Prop} (h : Reads after p t Q)
    (hQ : ∀ a, Q a → Q' (f a)) : Reads after (do return f (← p)) t Q' :=
  h.check fun a ha => ⟨f a, rfl, hQ a ha⟩

/-- A reader whose faults are reported differently. -/
lemma Reads.wrap {p q : Parse α} {Q : α → Prop} (h : Reads after p t Q)
    (hq : ∀ toks r, p toks = .ok r → q toks = .ok r) : Reads after q t Q := by
  obtain ⟨ws, hws, htakes⟩ := h
  refine ⟨ws, hws, fun toks rest htoks hafter => ?_⟩
  obtain ⟨a, ha, hQ⟩ := htakes toks rest htoks hafter
  exact ⟨a, hq _ _ ha, hQ⟩

/-! ## Single words -/

lemma takes_expect (kind : TokenKind) (v : Text) :
    Takes Anything (expect kind) [(kind, v)] fun t => t.value = v := by
  intro toks rest htoks _
  obtain ⟨tok, rfl, hword⟩ := List.map_eq_singleton_iff.mp htoks
  obtain ⟨rfl, rfl⟩ := Prod.mk.inj hword
  have hround : expect tok.kind (tok :: rest)
      = (if tok.kind == tok.kind then Pure.pure tok
          else throw (.expected tok.line tok.kind tok.value) : Parse Token) rest := rfl
  refine ⟨tok, ?_, rfl⟩
  rw [List.singleton_append, hround, beq_self_eq_true]
  rfl

lemma reads_ident {v : Text} (h : Prints t [(.ident, v)]) :
    Reads Anything (expect .ident) t fun tok => tok.value = v := ⟨_, h, takes_expect _ _⟩

lemma reads_string (s : Text) :
    Reads Anything string (Text.ofString " " ++ Quoted.encode s) fun a => a = s :=
  Reads.map ⟨_, prints_string s, takes_expect _ _⟩ fun _ h => h

/-- **A number**, by what its text denotes. -/
lemma reads_literal {p : Token → Parse α} {cs : List Char} {a : α}
    (h : Prints t [(.number, Utf8.encode cs)])
    (hp : ∀ tok, Utf8.chars tok.value = cs → p tok = Pure.pure a) :
    Reads Anything (expect .number >>= p) t fun b => b = a := by
  refine ⟨_, h, fun toks rest htoks hafter => ⟨a, ?_, rfl⟩⟩
  obtain ⟨tok, htok, hvalue⟩ := takes_expect _ _ toks rest htoks hafter
  rw [run_bind htok, hp tok (by rw [hvalue, Utf8.chars_encode])]
  rfl

lemma reads_word (n : UInt32) :
    Reads Anything word (Text.ofString " " ++ Text.ofNat n.toNat) fun a => a = n := by
  have hprints := prints_nat n.toNat
  rw [Text.ofNat_eq] at hprints ⊢
  refine reads_literal hprints fun tok hvalue => ?_
  rw [hvalue, Literal.unsigned?_toDigits (n := n.toNat) n.toNat_lt]
  simp

lemma reads_integer {width : Nat} {v : Int} (hlow : -2 ^ (width - 1) ≤ v) (hhigh : v < 2 ^ (width - 1)) :
    Reads Anything (integer width) (Text.ofString " " ++ Text.ofInt v) fun a => a = v := by
  have hprints := prints_int v
  rw [Text.ofInt_eq] at hprints ⊢
  refine reads_literal hprints fun tok hvalue => ?_
  rw [hvalue, Literal.integer?_intChars hlow hhigh]

lemma reads_float {f : FloatFormat} (hf : f.Narrow) {bits : Nat} (h : f.IsFinite bits) :
    Reads Anything (float f) (Text.ofString " " ++ f.general bits) fun a => a = bits := by
  obtain ⟨cs, htext, hnumber, hliteral⟩ := FloatFormat.exists_general hf h
  rw [htext]
  refine reads_literal (prints_number hnumber) fun tok hvalue => ?_
  rw [hvalue, hliteral]

/-! ## Repetitions -/

/-- **A repetition takes a piece**, when it has a round for every word. -/
def ReadsUpTo (p : Nat → Parse α) (t : Text) (Q : α → Prop) : Prop :=
  ∃ ws, Prints t ws ∧ ∀ n, ws.length ≤ n → Takes AtClose (p n) ws Q

lemma ReadsUpTo.map {p : Nat → Parse α} {f : α → β} {Q : α → Prop} {Q' : β → Prop}
    (h : ReadsUpTo p t Q) (hQ : ∀ a, Q a → Q' (f a)) :
    ReadsUpTo (fun n => do return f (← p n)) t Q' := by
  obtain ⟨ws, hws, htakes⟩ := h
  refine ⟨ws, hws, fun n hn toks rest htoks hafter => ?_⟩
  obtain ⟨a, ha, hQa⟩ := htakes n hn toks rest htoks hafter
  exact ⟨f a, run_bind ha, hQ a hQa⟩

/-- The tokens that are left are rounds enough. -/
lemma ReadsUpTo.start {p : Nat → Parse α} {Q : α → Prop} (h : ReadsUpTo p t Q) (k : Nat) :
    Reads AtClose (do p ((← get).length + k)) t Q := by
  obtain ⟨ws, hws, htakes⟩ := h
  refine ⟨ws, hws, fun toks rest htoks hafter => ?_⟩
  have hlength : ws.length ≤ (toks ++ rest).length + k := by
    rw [← htoks, List.length_map, List.length_append]
    omega
  exact htakes _ hlength toks rest htoks hafter

/-- **The end of a repetition.** -/
lemma ReadsUpTo.stop {p : Nat → Parse α} {q : Nat → Parse α} {a : α} {Q : α → Prop}
    (hzero : p 0 = Pure.pure a)
    (hsucc : ∀ n, p (n + 1) = do if ← atClose then return a else q n) (ha : Q a) :
    ReadsUpTo p [] Q := by
  refine ⟨[], Prints.nil, fun n _ toks rest htoks hafter => ⟨a, ?_, ha⟩⟩
  rw [List.map_eq_nil_iff.mp htoks, List.nil_append]
  cases n with
  | zero => rw [hzero]; rfl
  | succ n =>
      obtain ⟨tok, more, rfl, hkind⟩ := hafter
      have hclose : atClose (tok :: more) = .ok (true, tok :: more) := by
        simp only [atClose, hkind]
        rfl
      rw [hsucc, run_bind hclose]
      rfl

/-- The first word of a piece. -/
def Begins (kind : TokenKind) (t : Text) : Prop := ∃ v ws, Prints t ((kind, v) :: ws)

/-- **One round of a repetition.** -/
lemma ReadsUpTo.step {p : Nat → Parse β} {q : Parse α} {f : α → Nat → Parse β} {b : β} {Q : α → Prop}
    {Q' : β → Prop} {kind : TokenKind}
    (hsucc : ∀ n, p (n + 1) = do
      if ← atClose then return b else
        let a ← q
        f a n)
    (hkind : kind ≠ .close) (hbegins : Begins kind t) (hround : Reads Anything q t Q)
    (hrest : ∀ a, Q a → ReadsUpTo (f a) t' Q') : ReadsUpTo p (t ++ t') Q' := by
  obtain ⟨ws, hws, htakes⟩ := hround
  obtain ⟨v, more, hfirst⟩ := hbegins
  obtain rfl := words_unique hws hfirst
  obtain ⟨toks, htoks⟩ := exists_tokens ((kind, v) :: more)
  obtain ⟨a, -, hQ⟩ := htakes toks [] htoks trivial
  obtain ⟨ws', hws', -⟩ := hrest a hQ
  refine ⟨(kind, v) :: more ++ ws', hws.append hws', fun n hn => ?_⟩
  obtain ⟨n, rfl⟩ : ∃ k, n = k + 1 := ⟨n - 1, by simp at hn; omega⟩
  have hboth : Takes AtClose (q >>= fun a => f a n) ((kind, v) :: more ++ ws') Q' := by
    refine htakes.bind fun a ha => ?_
    obtain ⟨ws'', hws'', htakes'⟩ := hrest a ha
    obtain rfl := words_unique hws'' hws'
    exact htakes' n (by simp at hn; omega)
  intro toks rest htoks hafter
  obtain ⟨tok, toks', rfl, hword, -⟩ := List.map_eq_cons_iff.mp htoks
  have hopen : atClose (tok :: toks' ++ rest) = .ok (false, tok :: toks' ++ rest) := by
    have : tok.kind = kind := congrArg Prod.fst hword
    simp [atClose, this, hkind]
  rw [hsucc, run_bind hopen]
  exact hboth _ rest htoks hafter

/-! ## Strings and flags up to the end of a form -/

lemma begins_string (s : Text) : Begins .string (Text.ofString " " ++ Quoted.encode s) :=
  ⟨s, [], prints_string s⟩

/-- **Strings up to the end of a form.** -/
lemma reads_strings (names : List Text) :
    Reads AtClose strings (names.flatMap fun s => Text.ofString " " ++ Quoted.encode s)
      fun a => a = names := by
  have hall : ReadsUpTo stringsUpTo (names.flatMap fun s => Text.ofString " " ++ Quoted.encode s)
      fun a => a = names := by
    induction names with
    | nil => exact .stop rfl (fun n => rfl) rfl
    | cons s names ih =>
        refine .step (fun n => rfl) (by decide) (begins_string s) (reads_string s) ?_
        rintro _ rfl
        exact ih.map fun _ h => by rw [h]
  exact hall.start 0

lemma flag_words : ∀ w ∈ Flag.words, Flag.words.lookup w.1 = some w.2
    ∧ ∃ cs, w.1 = Utf8.encode cs ∧ isPlainWord cs = true := by
  have hall : ∀ w ∈ Flag.words, Flag.words.lookup w.1 = some w.2
      ∧ w.1 = Utf8.encode (Utf8.chars w.1) ∧ isPlainWord (Utf8.chars w.1) = true := by decide +kernel
  exact fun w hw => ⟨(hall w hw).1, _, (hall w hw).2⟩

/-- A section may be empty. -/
lemma join_eq (ts : List Text) (hts : ts ≠ []) : Text.ofString " " ++ Text.join (Text.ofString " ") ts
    = ts.flatMap fun t => Text.ofString " " ++ t := by
  induction ts with
  | nil => exact absurd rfl hts
  | cons t ts ih =>
      cases ts with
      | nil => simp [Text.join]
      | cons t' ts =>
          rw [List.flatMap_cons, ← ih (by simp), Text.join]
          · simp only [List.append_assoc]
          · simp

/-- Words with blanks between them. -/
lemma Reads.join {p : Parse α} {ts : List Text} {Q : α → Prop}
    (h : Reads after p (ts.flatMap fun t => Text.ofString " " ++ t) Q) :
    Reads after p (Text.ofString " " ++ Text.join (Text.ofString " ") ts) Q := by
  by_cases hts : ts = []
  · subst hts
    obtain ⟨ws, hws, htakes⟩ := h
    obtain rfl := words_unique hws Prints.nil
    refine ⟨[], ?_, htakes⟩
    rw [Text.join, List.append_nil]
    exact prints_blank (by decide)
  · rwa [join_eq ts hts]

/-- **Flag words up to the end of a form.** -/
lemma reads_flags (flags : UInt32) (h : flags &&& Flag.named = flags) :
    Reads AtClose Assembly.flags (Text.ofString " " ++ flagWords flags) fun a => a = flags := by
  have hall : ∀ (ws : List (Text × UInt32)) (acc : UInt32), (∀ w ∈ ws, w ∈ Flag.words) →
      ReadsUpTo (fun n => flagsUpTo n acc) ((ws.map (·.1)).flatMap fun t => Text.ofString " " ++ t)
        fun a => a = ws.foldl (fun acc w => acc ||| w.2) acc := by
    intro ws
    induction ws with
    | nil => exact fun acc _ => .stop rfl (fun n => rfl) rfl
    | cons w ws ih =>
        intro acc hws
        obtain ⟨hlookup, cs, htext, hcs⟩ := flag_words w (hws w List.mem_cons_self)
        have hprints := prints_ident (isIdent_of_isPlainWord hcs)
        rw [← htext] at hprints
        refine .step (fun n => rfl) (by decide) ⟨_, [], hprints⟩ (reads_ident hprints) ?_
        intro tok htok
        simp only [htok, hlookup]
        exact ih _ fun w' hw' => hws w' (List.mem_cons_of_mem w hw')
  have hflags := Flag.foldl_filter flags fun w (hw : w ∈ Flag.words) => hw
  refine Reads.join (((hall _ 0 fun w hw => (List.mem_filter.mp hw).1).start 0).mono ?_)
  rintro _ rfl
  rw [hflags]
  exact h

/-! ## Forms -/

/-- A form with its contents. -/
def formText (indent keyword : String) (contents : Text) : Text :=
  Text.ofString indent ++ (Text.ofString "(" ++ Text.ofString keyword) ++ contents ++ Text.ofString ")"

lemma sectionLine_eq (indent keyword : String) (contents : Text) :
    sectionLine indent keyword contents = formText indent keyword (Text.ofString " " ++ contents) := by
  simp only [sectionLine, formText, List.append_assoc]

/-- The words that a form may begin with. -/
structure IsOpening (indent keyword : String) : Prop where
  blank : indent.toList.all (fun c => c == ' ' || c == '\n') = true
  word : isPlainWord keyword.toList = true

lemma IsOpening.prints {indent keyword : String} (h : IsOpening indent keyword) :
    Prints (Text.ofString indent ++ (Text.ofString "(" ++ Text.ofString keyword))
      [(.open_, "("), (.ident, keyword)] :=
  (prints_blank h.blank).append (prints_open (isIdent_of_isPlainWord h.word))

/-- The end of a form. -/
lemma Reads.close {p : Parse α} {Q : α → Prop} (h : Reads AtClose p t Q) :
    Reads Anything (do
      let a ← p
      closeForm
      return a) (t ++ Text.ofString ")") Q := by
  obtain ⟨ws, hws, htakes⟩ := h
  refine ⟨_, hws.append prints_close, fun toks rest htoks _ => ?_⟩
  obtain ⟨toks₁, toks₂, rfl, rfl, hclose⟩ := List.map_eq_append_iff.mp htoks
  obtain ⟨tok, rfl, hword⟩ := List.map_eq_singleton_iff.mp hclose
  have hkind : tok.kind = .close := congrArg Prod.fst hword
  obtain ⟨a, ha, hQ⟩ := htakes toks₁ (tok :: rest) rfl ⟨tok, rest, rfl, hkind⟩
  obtain ⟨tok', htok', -⟩ := takes_expect TokenKind.close ")" [tok] rest hclose trivial
  refine ⟨a, ?_, hQ⟩
  rw [List.append_assoc, List.singleton_append, run_bind ha]
  have hform : closeForm (tok :: rest) = .ok ((), rest) := run_bind htok'
  exact run_bind hform

/-- **A form**: its keyword, its contents and its end. -/
lemma reads_form {indent keyword : String} (hopening : IsOpening indent keyword) {p : Token → Parse α}
    {Q : α → Prop} (h : ∀ tok, tok.value = Text.ofString keyword → Reads AtClose (p tok) t Q) :
    Reads Anything (do
      let _ ← expect .open_
      let kw ← expect .ident
      let a ← p kw
      closeForm
      return a) (formText indent keyword t) Q := by
  have hkeyword : Reads Anything (do
      let _ ← expect .open_
      expect .ident) (Text.ofString indent ++ (Text.ofString "(" ++ Text.ofString keyword))
      fun tok => tok.value = Text.ofString keyword :=
    ⟨_, hopening.prints, (takes_expect TokenKind.open_ "(").bind fun _ _ => takes_expect .ident keyword⟩
  have hform := hkeyword.bind fun tok htok => (h tok htok).close
  simp only [bind_assoc] at hform
  rw [formText, List.append_assoc]
  exact hform

/-! ## Sections -/

section Sections

variable {σ : Type} {sections : Nat → σ → Parse σ} {sect : σ → Token → Parse σ} {P P' P'' : σ → Prop}

/-- **A sequence of sections**, each a form of its own. -/
structure IsSections (sections : Nat → σ → Parse σ) (sect : σ → Token → Parse σ) : Prop where
  zero : ∀ s, sections 0 s = Pure.pure s
  succ : ∀ n s, sections (n + 1) s = do
    if ← atClose then return s else
      let _ ← expect .open_
      let kw ← expect .ident
      let s ← sect s kw
      closeForm
      sections n s

/-- **What sections do to the state**, whatever sections follow. -/
def Passes (sections : Nat → σ → Parse σ) (t : Text) (P P' : σ → Prop) : Prop :=
  ∀ s, P s → ∀ t' Q, (∀ s', P' s' → ReadsUpTo (fun n => sections n s') t' Q) →
    ReadsUpTo (fun n => sections n s) (t ++ t') Q

lemma Passes.nil (h : ∀ s, P s → P' s) : Passes sections [] P P' :=
  fun s hs _ _ hrest => hrest s (h s hs)

lemma Passes.append (h : Passes sections t P P') (h' : Passes sections t' P' P'') :
    Passes sections (t ++ t') P P'' := by
  intro s hs t'' Q hrest
  rw [List.append_assoc]
  exact h s hs _ Q fun s' hs' => h' s' hs' _ Q hrest

/-- **One section.** -/
lemma Passes.form (hsections : IsSections sections sect) {indent keyword : String}
    (hopening : IsOpening indent keyword)
    (h : ∀ s, P s → ∀ tok, tok.value = Text.ofString keyword → Reads AtClose (sect s tok) t P') :
    Passes sections (formText indent keyword t) P P' := by
  intro s hs t' Q hrest
  have hround := reads_form hopening (h s hs)
  have hbegins : Begins .open_ (formText indent keyword t) := by
    obtain ⟨ws, hws, -⟩ := h s hs ⟨keyword, .ident, 0⟩ rfl
    exact ⟨_, _, (hopening.prints.append hws).append prints_close⟩
  refine ReadsUpTo.step (b := s) (fun n => ?_) (by decide) hbegins hround hrest
  simp only [hsections.succ, bind_assoc, pure_bind]

/-- A section that may be left out. -/
lemma Passes.optional {b : Bool} (hpresent : b = true → Passes sections t P P')
    (habsent : b = false → ∀ s, P s → P' s) : Passes sections (optional b t) P P' := by
  cases b with
  | true => exact hpresent rfl
  | false => exact .nil (habsent rfl)

/-- The sections up to the end of the form. -/
lemma Passes.readsUpTo (hsections : IsSections sections sect) (h : Passes sections t P P') {s : σ}
    (hs : P s) : ReadsUpTo (fun n => sections n s) t P' := by
  have hall := h s hs [] P' fun s' hs' => .stop (hsections.zero s') (fun n => hsections.succ n s') hs'
  rwa [List.append_nil] at hall

end Sections

end Assembly

end Suspension
