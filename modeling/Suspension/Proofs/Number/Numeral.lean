import Mathlib.Tactic.Common
import Mathlib.Tactic.Ring
import Suspension.Number.Literal
import Suspension.Proofs.Text.Utf8

/-!
# Numerals that are read back

**A number is written by its digits and read from them.**  The numerals of a text are the library's
`Nat.toDigits`, so that what a reader makes of a numeral follows from what it makes of one digit.

* `Text.ofNat_eq`, `Text.hexPadded_eq`, `Text.ofInt_eq` — numerals as characters.
* `read_toDigits` — a reader that goes from digit to digit.
* `Literal.unsigned?_toDigits`, `Literal.integer?_intChars` — literals are read back.
-/

namespace Suspension

/-! ## Writing -/

namespace Text

lemma digit_eq : ∀ n < 16, [digit n] = String.utf8EncodeChar n.digitChar := by decide

/-- The digits of a number, in front of others. -/
lemma digits_eq {b : Nat} (hb : 1 < b) (hb' : b ≤ 16) {fuel n : Nat} (h : n < fuel)
    (cs : List Char) :
    digits b fuel n (Utf8.encode cs) = Utf8.encode (Nat.toDigits b n ++ cs) := by
  have hdigit : ∀ {d : Nat} (cs : List Char), d < b →
      digit d :: Utf8.encode cs = Utf8.encode (d.digitChar :: cs) := by
    intro d cs hd
    have hcons : Utf8.encode (d.digitChar :: cs)
        = String.utf8EncodeChar d.digitChar ++ Utf8.encode cs := rfl
    rw [hcons, ← digit_eq d (by omega)]
    rfl
  induction fuel generalizing n cs with
  | zero => omega
  | succ fuel ih =>
      unfold digits
      split
      · next hlt => rw [Nat.toDigits_of_lt_base hlt, hdigit cs hlt, List.singleton_append]
      · next hge =>
          have hless : n / b < n := Nat.div_lt_self (by omega) hb
          rw [Nat.toDigits_of_base_le hb (by omega), hdigit cs (Nat.mod_lt n (by omega)),
            ih (by omega), List.append_assoc, List.singleton_append]

/-- **A number in decimal.** -/
lemma ofNat_eq (n : Nat) : ofNat n = Utf8.encode (Nat.toDigits 10 n) := by
  have h := digits_eq (b := 10) (by omega) (by omega) (Nat.lt_succ_self n) []
  rw [List.append_nil] at h
  exact h

lemma hex_eq (n : Nat) : hex n = Utf8.encode (Nat.toDigits 16 n) := by
  have h := digits_eq (b := 16) (by omega) (by omega) (Nat.lt_succ_self n) []
  rw [List.append_nil] at h
  exact h

end Text

/-- A number that is not zero does not begin with a zero. -/
lemma exists_toDigits {b n : Nat} (hb : 1 < b) (hn : 0 < n) :
    ∃ d cs, 0 < d ∧ d < b ∧ Nat.toDigits b n = d.digitChar :: cs := by
  induction n using Nat.strongRecOn with
  | ind n ih =>
      by_cases hlt : n < b
      · exact ⟨n, [], hn, hlt, Nat.toDigits_of_lt_base hlt⟩
      · have hless : n / b < n := Nat.div_lt_self hn hb
        obtain ⟨d, cs, hd, hd', hcs⟩ := ih _ hless (Nat.div_pos (by omega) (by omega))
        refine ⟨d, cs ++ [(n % b).digitChar], hd, hd', ?_⟩
        rw [Nat.toDigits_of_base_le hb (by omega), hcs, List.cons_append]

/-- A numeral consists of digits. -/
lemma exists_digit {b n : Nat} (hb : 1 < b) {c : Char} (h : c ∈ Nat.toDigits b n) :
    ∃ d, d < b ∧ c = d.digitChar := by
  induction n using Nat.strongRecOn with
  | ind n ih =>
      by_cases hlt : n < b
      · rw [Nat.toDigits_of_lt_base hlt, List.mem_singleton] at h
        exact ⟨n, hlt, h⟩
      · rw [Nat.toDigits_of_base_le hb (by omega), List.mem_append, List.mem_singleton] at h
        rcases h with h | h
        · exact ih _ (Nat.div_lt_self (by omega) hb) h
        · exact ⟨n % b, Nat.mod_lt n (by omega), h⟩

/-- Digits take one byte each. -/
lemma length_encode_toDigits {b : Nat} (hb : 1 < b) (hb' : b ≤ 16) (n : Nat) :
    (Utf8.encode (Nat.toDigits b n)).length = (Nat.toDigits b n).length := by
  have hall : ∀ d < 16, (String.utf8EncodeChar d.digitChar).length = 1 := by decide
  have hone : ∀ c ∈ Nat.toDigits b n, (String.utf8EncodeChar c).length = 1 := by
    intro c hc
    obtain ⟨d, hd, rfl⟩ := exists_digit hb hc
    exact hall d (by omega)
  rw [Utf8.encode, List.length_flatMap, List.map_congr_left hone, List.map_const',
    List.sum_replicate_nat, Nat.mul_one]

namespace Text

/-- **A number in hexadecimal**, filled up with zeros. -/
lemma hexPadded_eq (width n : Nat) : hexPadded width n = Utf8.encode
    (List.replicate (width - (Nat.toDigits 16 n).length) '0' ++ Nat.toDigits 16 n) := by
  have hlength : (hex n).length = (Nat.toDigits 16 n).length := by
    rw [hex_eq]
    exact length_encode_toDigits (by omega) (by omega) n
  have hzeros : ∀ k, List.replicate k 0x30 = Utf8.encode (List.replicate k '0') := by
    intro k
    induction k with
    | zero => rfl
    | succ k ih =>
        rw [List.replicate_succ, List.replicate_succ, ih]
        rfl
  rw [Utf8.encode_append, ← hex_eq, ← hlength, ← hzeros]
  rfl

/-- The characters of an integer. -/
def intChars (v : Int) : List Char :=
  (if v < 0 then ['-'] else []) ++ Nat.toDigits 10 v.natAbs

/-- **An integer in decimal.** -/
lemma ofInt_eq (v : Int) : ofInt v = Utf8.encode (intChars v) := by
  cases v with
  | ofNat n =>
      have hpos : ¬ Int.ofNat n < 0 := Int.not_lt.mpr (Int.natCast_nonneg n)
      simp only [ofInt, ofNat_eq, intChars, if_neg hpos]
      rfl
  | negSucc n =>
      have hneg : Int.negSucc n < 0 := Int.negSucc_lt_zero n
      simp only [ofInt, ofNat_eq, intChars, if_pos hneg, Int.natAbs_negSucc]
      rfl

end Text

/-! ## Reading -/

/-- **A reader that goes from digit to digit** reads the number that was written. -/
lemma read_toDigits {α : Type} {b : Nat} (hb : 1 < b) {f : Nat → List Char → α}
    (hf : ∀ acc d cs, d < b → f acc (d.digitChar :: cs) = f (acc * b + d) cs)
    (n acc : Nat) (cs : List Char) :
    f acc (Nat.toDigits b n ++ cs) = f (acc * b ^ (Nat.toDigits b n).length + n) cs := by
  induction n using Nat.strongRecOn generalizing cs with
  | ind n ih =>
      by_cases hlt : n < b
      · rw [Nat.toDigits_of_lt_base hlt, List.singleton_append, hf acc n cs hlt,
          List.length_singleton, pow_one]
      · have hless : n / b < n := Nat.div_lt_self (by omega) hb
        rw [Nat.toDigits_of_base_le hb (by omega), List.append_assoc, ih _ hless,
          List.singleton_append, hf _ _ _ (Nat.mod_lt n (by omega)), List.length_append,
          List.length_singleton, pow_succ, Nat.add_mul, Nat.add_assoc, Nat.mul_comm (n / b),
          Nat.div_add_mod, Nat.mul_assoc]

namespace Literal

lemma digit?_digitChar : ∀ d < 10, digit? d.digitChar = some d := by decide

lemma ofDigits?_toDigits (n : Nat) : ofDigits? 10 0 (Nat.toDigits 10 n) = some n := by
  have h := read_toDigits (b := 10) (f := ofDigits? 10) (by omega)
    (fun acc d cs hd => by simp [ofDigits?, digit?_digitChar d hd, hd]) n 0 []
  simpa [ofDigits?] using h

/-- **A decimal numeral is read back.** -/
lemma natural?_toDigits (n : Nat) : natural? (Nat.toDigits 10 n) = some n := by
  rcases Nat.eq_zero_or_pos n with rfl | hn
  · decide
  · obtain ⟨d, cs, hd, hd', hcs⟩ := exists_toDigits (b := 10) (by omega) hn
    have hne : d.digitChar ≠ '0' := by
      have hall : ∀ d < 10, 0 < d → d.digitChar ≠ '0' := by decide
      exact hall d hd' hd
    have hvalue := ofDigits?_toDigits n
    rw [hcs] at hvalue ⊢
    unfold natural?
    split
    · simp_all
    · simp_all
    · simp_all
    · exact hvalue

lemma dropUnderscores_toDigits (n : Nat) : dropUnderscores (Nat.toDigits 10 n) = Nat.toDigits 10 n := by
  refine List.filter_eq_self.mpr fun c hc => ?_
  obtain ⟨d, hd, rfl⟩ := exists_digit (by omega) hc
  have hall : ∀ d < 10, (d.digitChar != '_') = true := by decide
  exact hall d hd

/-- A numeral has no sign. -/
lemma splitSign_toDigits (n : Nat) :
    splitSign (Nat.toDigits 10 n) = (false, Nat.toDigits 10 n) := by
  have hall : ∀ d < 10, d.digitChar ≠ '+' ∧ d.digitChar ≠ '-' := by decide
  obtain ⟨c, cs, hcs⟩ := List.exists_cons_of_length_pos (Nat.length_toDigits_pos (b := 10) (n := n))
  obtain ⟨d, hd, rfl⟩ := exists_digit (by omega) (hcs ▸ List.mem_cons_self : c ∈ Nat.toDigits 10 n)
  obtain ⟨hplus, hminus⟩ := hall d hd
  rw [hcs]
  unfold splitSign
  split
  · simp_all
  · simp_all
  · rfl

/-- **An unsigned literal is read back.** -/
lemma unsigned?_toDigits {width n : Nat} (h : n < 2 ^ width) :
    unsigned? width (Nat.toDigits 10 n) = some n := by
  simp [unsigned?, dropUnderscores_toDigits, natural?_toDigits, h]

/-- **A signed literal is read back.** -/
lemma integer?_intChars {width : Nat} {v : Int} (hlow : -2 ^ (width - 1) ≤ v)
    (hhigh : v < 2 ^ (width - 1)) : integer? width (Text.intChars v) = some v := by
  have hpow : ((2 ^ (width - 1) : Nat) : Int) = 2 ^ (width - 1) := by simp
  by_cases hneg : v < 0
  · have hsplit : splitSign (dropUnderscores (Text.intChars v))
        = (true, Nat.toDigits 10 v.natAbs) := by
      have hcons : Text.intChars v = '-' :: Nat.toDigits 10 v.natAbs := by
        simp [Text.intChars, hneg]
      have hdrop := dropUnderscores_toDigits v.natAbs
      rw [hcons]
      simp only [dropUnderscores] at hdrop ⊢
      simp [hdrop, splitSign]
    have hle : v.natAbs ≤ 2 ^ (width - 1) := by omega
    simp only [integer?, hsplit, natural?_toDigits, if_true, Nat.pow_eq]
    rw [if_pos hle]
    congr 1
    omega
  · have hcs : Text.intChars v = Nat.toDigits 10 v.natAbs := by simp [Text.intChars, hneg]
    have hlt : v.natAbs < 2 ^ (width - 1) := by omega
    simp only [integer?, hcs, dropUnderscores_toDigits, splitSign_toDigits, natural?_toDigits, Nat.pow_eq]
    rw [if_neg (by simp), if_pos hlt]
    congr 1
    omega

end Literal

end Suspension
