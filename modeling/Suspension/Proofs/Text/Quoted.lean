import Mathlib.Data.Nat.Digits.Defs
import Suspension.Assembly.Token
import Suspension.Proofs.Number.Numeral

/-!
# Quoted texts are read back

**Whatever bytes a text has, its written form denotes it.**  Each item of the text is written by one of
four forms; the scan for the closing quote passes over every one of them, and reading the part between
the quotes gives the bytes of the items.

* `Quoted.Written` — the forms in which an item is written.
* `Quoted.exists_written` — a text between its quotes.
* `Token.splitString_written`, `Quoted.decode_written` — the scan and the reading.
* `Quoted.notMem_of_decode` — a text between quotes stays on its line.
-/

namespace Suspension

namespace Quoted

/-! ## The written forms -/

/-- A character that may stand between quotes by itself. -/
def IsPlain (c : Char) : Prop := c ≠ '"' ∧ c ≠ '\n' ∧ c ≠ '\\'

instance (c : Char) : Decidable (IsPlain c) := inferInstanceAs (Decidable (_ ∧ _))

/-- **How an item is written**: a character by itself, by the letter behind a backslash, as a byte, or
by its number. -/
inductive Written : Utf8.Item → List Char → Prop where
  | plain {c : Char} (hc : IsPlain c) : Written (.char c) [c]
  | letter {c l : Char} {b : UInt8} (hl : controlOfLetter? l = some b)
      (hc : String.utf8EncodeChar c = [b]) : Written (.char c) ['\\', l]
  | byte {i : Utf8.Item} {x y : Char} {n : Nat} (hplain : ∀ c ∈ [x, y], IsPlain c)
      (hn : hexValue? 0 [x, y] = some n) (hi : i.bytes = [UInt8.ofNat n]) :
      Written i ['\\', 'x', x, y]
  | short {i : Utf8.Item} {x y z w : Char} {n : Nat} (hplain : ∀ c ∈ [x, y, z, w], IsPlain c)
      (hn : hexValue? 0 [x, y, z, w] = some n) (hi : scalar? n = some i.bytes) :
      Written i ['\\', 'u', x, y, z, w]
  | long {i : Utf8.Item} {x y z w x' y' z' w' : Char} {n : Nat}
      (hplain : ∀ c ∈ [x, y, z, w, x', y', z', w'], IsPlain c)
      (hn : hexValue? 0 [x, y, z, w, x', y', z', w'] = some n) (hi : scalar? n = some i.bytes) :
      Written i ['\\', 'U', x, y, z, w, x', y', z', w']

lemma hexDigit?_digitChar : ∀ d < 16, hexDigit? d.digitChar = some d := by decide

lemma isPlain_digitChar : ∀ d < 16, IsPlain d.digitChar := by decide

/-- **Hexadecimal digits of a given number** are read back. -/
lemma exists_hexDigits {k n : Nat} (hk : 0 < k) (hn : n < 16 ^ k) :
    ∃ ds, ds.length = k ∧ Text.hexPadded k n = Utf8.encode ds
      ∧ (∀ c ∈ ds, IsPlain c) ∧ hexValue? 0 ds = some n := by
  have hlength := Nat.toDigits_length 16 n k hk hn
  refine ⟨_, ?_, Text.hexPadded_eq k n, fun c hc => ?_, ?_⟩
  · rw [List.length_append, List.length_replicate]
    omega
  · rw [List.mem_append, List.mem_replicate] at hc
    rcases hc with ⟨-, rfl⟩ | hc
    · decide
    · obtain ⟨d, hd, rfl⟩ := exists_digit (by omega) hc
      exact isPlain_digitChar d hd
  · have hzeros : ∀ k, hexValue? 0 (List.replicate k '0' ++ Nat.toDigits 16 n)
        = hexValue? 0 (Nat.toDigits 16 n) := by
      intro k
      induction k with
      | zero => rfl
      | succ k ih =>
          rw [List.replicate_succ, List.cons_append, ← ih]
          rfl
    have hread := read_toDigits (b := 16) (f := hexValue?) (by omega)
      (fun acc d cs hd => by simp [hexValue?, hexDigit?_digitChar d hd]) n 0 []
    rw [hzeros]
    simpa [hexValue?] using hread

lemma numeric_eq {mark : Char} {k n : Nat} {ds : List Char}
    (h : Text.hexPadded k n = Utf8.encode ds) :
    numeric mark k n = Utf8.encode ('\\' :: mark :: ds) := by
  rw [numeric, h]
  simp [Utf8.encode, Text.ofString]

/-- An item of one byte, by its number. -/
lemma written_byte {i : Utf8.Item} {n : Nat} (hn : n < 256) (hi : i.bytes = [UInt8.ofNat n]) :
    ∃ cs, numeric 'x' 2 n = Utf8.encode cs ∧ Written i cs := by
  obtain ⟨ds, hlen, hds, hplain, hvalue⟩ := exists_hexDigits (k := 2) (by omega) hn
  match ds, hlen with
  | [x, y], _ => exact ⟨_, numeric_eq hds, .byte hplain hvalue hi⟩

/-- The number of a character denotes it. -/
lemma scalar?_toNat (c : Char) : scalar? c.toNat = some (Utf8.Item.char c).bytes := by
  have hvalid : c.toNat < 0xd800 ∨ 0xdfff < c.toNat ∧ c.toNat < 0x110000 := c.valid
  simp [scalar?, hvalid, Utf8.Item.bytes, Char.ofNat_toNat]

/-- A character by its number. -/
lemma written_number (c : Char) :
    ∃ cs, (if c.toNat < 0x10000 then numeric 'u' 4 c.toNat else numeric 'U' 8 c.toNat)
      = Utf8.encode cs ∧ Written (.char c) cs := by
  have hvalid : c.toNat < 0xd800 ∨ 0xdfff < c.toNat ∧ c.toNat < 0x110000 := c.valid
  split
  · next hlt =>
      obtain ⟨ds, hlen, hds, hplain, hvalue⟩ := exists_hexDigits (k := 4) (n := c.toNat)
        (by omega) (by omega)
      match ds, hlen with
      | [x, y, z, w], _ => exact ⟨_, numeric_eq hds, .short hplain hvalue (scalar?_toNat c)⟩
  · obtain ⟨ds, hlen, hds, hplain, hvalue⟩ := exists_hexDigits (k := 8) (n := c.toNat)
      (by omega) (by omega)
    match ds, hlen with
    | [x, y, z, w, x', y', z', w'], _ =>
        exact ⟨_, numeric_eq hds, .long hplain hvalue (scalar?_toNat c)⟩

lemma encodeChar_ascii {c : Char} (h : c.toNat < 0x80) :
    String.utf8EncodeChar c = [UInt8.ofNat c.toNat] := by
  simp only [String.utf8EncodeChar, Char.toNat_val, if_pos (Nat.le_of_lt_succ h)]

/-- **Every item is written by one of the forms.** -/
lemma exists_written_item (i : Utf8.Item) : ∃ cs, escapeItem i = Utf8.encode cs ∧ Written i cs := by
  have hsingle : ∀ c, String.utf8EncodeChar c = Utf8.encode [c] := by simp [Utf8.encode]
  have hpair : ∀ c, Text.ofString "\\" ++ String.utf8EncodeChar c = Utf8.encode ['\\', c] := by
    simp [Utf8.encode, Text.ofString]
  cases i with
  | stray b => exact written_byte (UInt8.toNat_lt b) (by simp [Utf8.Item.bytes])
  | char c =>
      simp only [escapeItem, escape]
      split
      · next hmark =>
          refine ⟨_, hpair c, ?_⟩
          simp only [Bool.or_eq_true, beq_iff_eq] at hmark
          rcases hmark with rfl | rfl
          · exact .letter rfl rfl
          · exact .letter rfl rfl
      next hmark =>
      simp only [Bool.or_eq_true, beq_iff_eq, not_or] at hmark
      split
      · next hprintable =>
          refine ⟨_, hsingle c, .plain ⟨hmark.1, ?_, hmark.2⟩⟩
          rintro rfl
          revert hprintable
          decide
      split
      · next l hl =>
          have hletter : c.toNat < 0x80 ∧ controlOfLetter? l = some (UInt8.ofNat c.toNat) := by
            unfold controlLetter? at hl
            split at hl <;> cases hl <;> simp_all [controlOfLetter?]
          exact ⟨_, hpair l, .letter hletter.2 (encodeChar_ascii hletter.1)⟩
      split
      · next hlow =>
          simp only [Bool.or_eq_true, decide_eq_true_eq, beq_iff_eq] at hlow
          exact written_byte (by omega) (encodeChar_ascii (by omega))
      · exact written_number c

/-- **A text between its quotes**: the forms of its items. -/
lemma exists_written (t : Text) :
    ∃ forms : List (List Char), List.Forall₂ Written (Utf8.items t) forms
      ∧ encode t = Utf8.encode ('"' :: (forms.flatten ++ ['"'])) := by
  have hall : ∀ items : List Utf8.Item, ∃ forms : List (List Char),
      List.Forall₂ Written items forms ∧ items.flatMap escapeItem = Utf8.encode forms.flatten := by
    intro items
    induction items with
    | nil => exact ⟨[], .nil, rfl⟩
    | cons i items ih =>
        obtain ⟨forms, hforms, htext⟩ := ih
        obtain ⟨cs, hcs, hwritten⟩ := exists_written_item i
        refine ⟨cs :: forms, .cons hwritten hforms, ?_⟩
        rw [List.flatMap_cons, hcs, htext, List.flatten_cons, Utf8.encode_append]
  obtain ⟨forms, hforms, htext⟩ := hall (Utf8.items t)
  refine ⟨forms, hforms, ?_⟩
  rw [encode, htext]
  simp [Utf8.encode, Text.ofString]

/-! ## Reading -/

variable {i : Utf8.Item} {cs rest : List Char} {t : Text}

/-- One form is read as the bytes of its item. -/
lemma Written.decode_append (h : Written i cs) (ht : decode rest = some t) :
    decode (cs ++ rest) = some (i.bytes ++ t) := by
  cases h with
  | plain hc =>
      obtain ⟨hquote, hline, hslash⟩ := hc
      rw [List.singleton_append, decode]
      · simp [hquote, hline, hslash, ht, Utf8.Item.bytes]
      all_goals simp_all
  | @letter c l b hl hc =>
      have hne : l ≠ 'x' ∧ l ≠ 'u' ∧ l ≠ 'U' := by
        refine ⟨?_, ?_, ?_⟩ <;> rintro rfl <;> cases hl
      have hstep : decode ('\\' :: l :: rest) = some (b :: t) := by
        rcases rest with _ | ⟨d, _ | ⟨e, rest'⟩⟩ <;> rw [decode] <;> simp_all
      simp [hstep, Utf8.Item.bytes, hc]
  | byte hplain hn hi => simp [decode, hn, ht, hi]
  | short hplain hn hi => simp [decode, hn, ht, hi]
  | long hplain hn hi => simp [decode, hn, ht, hi]

/-- **A text between its quotes is read back.** -/
lemma decode_written {items : List Utf8.Item} {forms : List (List Char)}
    (h : List.Forall₂ Written items forms) :
    decode forms.flatten = some (items.flatMap Utf8.Item.bytes) := by
  induction h with
  | nil => rfl
  | cons hfirst _ ih => exact hfirst.decode_append ih

/-- A line end is no digit. -/
lemma notMem_of_hexValue? {acc v : Nat} {cs : List Char} (h : hexValue? acc cs = some v) :
    '\n' ∉ cs := by
  induction cs generalizing acc with
  | nil => simp
  | cons c cs ih =>
      obtain ⟨d, hd, hrest⟩ := Option.bind_eq_some_iff.mp h
      rw [List.mem_cons, not_or]
      refine ⟨?_, ih hrest⟩
      rintro rfl
      cases hd

lemma ne_of_octalDigit? {c : Char} {v : Nat} (h : octalDigit? c = some v) : '\n' ≠ c := by
  rintro rfl
  cases h

/-- **Between quotes there is no line end.** -/
lemma notMem_of_decode {body : List Char} {t : Text} (h : decode body = some t) : '\n' ∉ body := by
  fun_induction decode body generalizing t with
  | case1 => simp
  | case2 a b rest ih =>
      obtain ⟨v, hv, h⟩ := Option.bind_eq_some_iff.mp h
      obtain ⟨t', ht, -⟩ := Option.bind_eq_some_iff.mp h
      simpa [and_assoc] using And.intro (notMem_of_hexValue? hv) (ih ht)
  | case3 a b c d rest ih =>
      obtain ⟨v, hv, h⟩ := Option.bind_eq_some_iff.mp h
      obtain ⟨_, -, h⟩ := Option.bind_eq_some_iff.mp h
      obtain ⟨t', ht, -⟩ := Option.bind_eq_some_iff.mp h
      simpa [and_assoc] using And.intro (notMem_of_hexValue? hv) (ih ht)
  | case4 a b c d e f g i rest ih =>
      obtain ⟨v, hv, h⟩ := Option.bind_eq_some_iff.mp h
      obtain ⟨_, -, h⟩ := Option.bind_eq_some_iff.mp h
      obtain ⟨t', ht, -⟩ := Option.bind_eq_some_iff.mp h
      simpa [and_assoc] using And.intro (notMem_of_hexValue? hv) (ih ht)
  | case5 c rest _ _ _ b hc ih =>
      obtain ⟨t', ht, -⟩ := Option.bind_eq_some_iff.mp h
      have hne : '\n' ≠ c := by
        rintro rfl
        cases hc
      simpa using And.intro hne (ih ht)
  | case6 c _ d e rest _ _ _ ih =>
      obtain ⟨x, hx, h⟩ := Option.bind_eq_some_iff.mp h
      obtain ⟨y, hy, h⟩ := Option.bind_eq_some_iff.mp h
      obtain ⟨z, hz, h⟩ := Option.bind_eq_some_iff.mp h
      simp only at h
      split at h
      · obtain ⟨t', ht, -⟩ := Option.bind_eq_some_iff.mp h
        simpa using And.intro (ne_of_octalDigit? hx)
          ⟨ne_of_octalDigit? hy, ne_of_octalDigit? hz, ih ht⟩
      · cases h
  | case7 => cases h
  | case8 => cases h
  | case9 c rest _ _ _ _ hplain ih =>
      obtain ⟨t', ht, -⟩ := Option.bind_eq_some_iff.mp h
      have hne : '\n' ≠ c := by
        rintro rfl
        exact hplain rfl
      simpa using And.intro hne (ih ht)

end Quoted

namespace Token

open Quoted

lemma splitString_plain {c : Char} {cs : List Char} (h : IsPlain c) :
    splitString (c :: cs) = (splitString cs).map fun (body, after) => (c :: body, after) := by
  obtain ⟨hquote, hline, hslash⟩ := h
  rw [splitString]
  · simp [hquote, hline, hslash]
  · simp_all

lemma splitString_escape (c : Char) (cs : List Char) : splitString ('\\' :: c :: cs)
    = (splitString cs).map fun (body, after) => ('\\' :: c :: body, after) := by
  rw [splitString]

/-- The scan for the closing quote passes over a form. -/
lemma splitString_append {i : Utf8.Item} {cs rest body after : List Char} (h : Written i cs)
    (hrest : splitString rest = some (body, after)) :
    splitString (cs ++ rest) = some (cs ++ body, after) := by
  cases h with
  | plain hc => simp [splitString_plain hc, hrest]
  | letter hl hc => simp [splitString_escape, hrest]
  | byte hplain hn hi | short hplain hn hi | long hplain hn hi =>
      simp only [List.forall_mem_cons] at hplain
      simp [splitString_escape, splitString_plain, hplain, hrest]

/-- **The closing quote of a text is found.** -/
lemma splitString_written {items : List Utf8.Item} {forms : List (List Char)} {after : List Char}
    (h : List.Forall₂ Written items forms) :
    splitString (forms.flatten ++ '"' :: after) = some (forms.flatten, after) := by
  induction h with
  | nil =>
      rw [List.flatten_nil, List.nil_append, splitString]
      · simp
      · simp
  | cons hfirst _ ih =>
      rw [List.flatten_cons, List.append_assoc]
      exact splitString_append hfirst ih

end Token

end Suspension
