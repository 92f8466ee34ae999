import Mathlib.Data.List.TakeWhile
import Suspension.Assembly.Token
import Suspension.Proofs.Number.Numeral
import Suspension.Proofs.Number.Shortest

/-!
# Decimal literals

**A literal by its parts.**  The reader takes the digits before and behind the point together, and rounds
what they denote with the exponent; a decimal in the neighbourhood of a float is rounded to the float.

* `Token.IsNumber` — the characters of a number token.
* `Literal.float?_of_parts` — a literal by its parts.
* `Literal.nearestDecimal?_of_contains` — a decimal in the neighbourhood of a float.
-/

namespace Suspension

/-- **The characters of a number token.** -/
def Token.IsNumber (cs : List Char) : Prop :=
  ∃ c more, cs = c :: more ∧ (c = '-' ∨ Literal.isDecimal c = true)
    ∧ (c :: more).IsChain fun previous c => continuesNumber previous c = true

namespace Literal

/-! ## Reading by parts -/

/-- Decimal digits only. -/
def AllDecimal (cs : List Char) : Prop := ∀ c ∈ cs, isDecimal c = true

variable {cs whole frac tail rest : List Char}

lemma isDecimal_bounds {c : Char} (h : isDecimal c = true) : 48 ≤ c.toNat ∧ c.toNat ≤ 57 := by
  simp only [isDecimal, Bool.and_eq_true, decide_eq_true_eq, Char.le_def, UInt32.le_iff_toNat_le] at h
  exact h

lemma isDigit_of_isDecimal {c : Char} (h : isDecimal c = true) : isDigit c = true := by
  obtain ⟨hlow, hhigh⟩ := isDecimal_bounds h
  rw [isDigit, if_pos (by omega)]
  simp only [Char.isDigit, Bool.and_eq_true, decide_eq_true_eq, ge_iff_le, UInt32.le_iff_toNat_le]
  exact ⟨hlow, hhigh⟩

lemma isDecimal_digitChar : ∀ d < 10, isDecimal d.digitChar = true := by decide

lemma allDecimal_toDigits (n : Nat) : AllDecimal (Nat.toDigits 10 n) := by
  intro c hc
  obtain ⟨d, hd, rfl⟩ := exists_digit (by omega) hc
  exact isDecimal_digitChar d hd

lemma AllDecimal.append (h : AllDecimal cs) (h' : AllDecimal rest) : AllDecimal (cs ++ rest) :=
  fun c hc => (List.mem_append.mp hc).elim (h c) (h' c)

lemma allDecimal_zeros (k : Nat) : AllDecimal (List.replicate k '0') := by
  intro c hc
  obtain ⟨-, rfl⟩ := List.mem_replicate.mp hc
  rfl

/-- What may follow the digits: nothing, or an exponent. -/
def Stops (tail : List Char) : Prop := tail = [] ∨ ∃ more, tail = 'e' :: more

lemma spanDecimal_append (h : AllDecimal whole) (hrest : ∀ c more, rest = c :: more → isDecimal c = false) :
    spanDecimal (whole ++ rest) = (whole, rest) := by
  have hnone : rest.takeWhile isDecimal = [] ∧ rest.dropWhile isDecimal = rest := by
    cases rest with
    | nil => simp
    | cons c more => simp [hrest c more rfl]
  rw [spanDecimal, List.span_eq_takeWhile_dropWhile, List.takeWhile_append_of_pos h,
    List.dropWhile_append_of_pos h, hnone.1, hnone.2, List.append_nil]

/-- The digits behind the point, and the rest. -/
def splitPoint (cs : List Char) : List Char × List Char :=
  match cs with
  | '.' :: more => spanDecimal more
  | _ => ([], cs)

lemma float?_eq (f : FloatFormat) (literal : List Char) : float? f literal =
    let (neg, cs) := splitSign (dropUnderscores literal)
    let (whole, rest) := spanDecimal cs
    let (frac, rest) := splitPoint rest
    if whole.isEmpty && frac.isEmpty then none
    else
      match exponent? rest with
      | none => none
      | some e =>
        let ds := (whole ++ frac).dropWhile (· == '0')
        match nearestDecimal? f (decimalValue ds) (e - frac.length) ds.length with
        | none => none
        | some bits => some (if neg then f.negate bits else bits) := rfl

/-- **A literal by its parts**: digits before and behind the point, and the exponent. -/
lemma float?_of_parts {f : FloatFormat} {neg : Bool} {e : Int}
    (hsplit : splitSign (dropUnderscores cs) = (neg, whole ++ rest)) (hwhole : AllDecimal whole)
    (hne : whole ≠ []) (hfrac : AllDecimal frac) (htail : Stops tail)
    (hrest : rest = tail ∧ frac = [] ∨ rest = '.' :: (frac ++ tail))
    (he : exponent? tail = some e) :
    float? f cs = (nearestDecimal? f (decimalValue ((whole ++ frac).dropWhile (· == '0')))
      (e - frac.length) ((whole ++ frac).dropWhile (· == '0')).length).map
        fun bits => if neg then f.negate bits else bits := by
  have hstop : ∀ c more, tail = c :: more → isDecimal c = false := by
    rcases htail with rfl | ⟨more, rfl⟩
    · simp
    · rintro c _ ⟨⟩
      decide
  have hspan : spanDecimal (whole ++ rest) = (whole, rest) := by
    refine spanDecimal_append hwhole ?_
    rcases hrest with ⟨rfl, -⟩ | rfl
    · exact hstop
    · rintro c _ ⟨⟩
      decide
  have hpoint : splitPoint rest = (frac, tail) := by
    rcases hrest with ⟨rfl, rfl⟩ | rfl
    · rcases htail with rfl | ⟨more, rfl⟩ <;> rfl
    · exact spanDecimal_append hfrac hstop
  have hnonempty : (whole.isEmpty && frac.isEmpty) = false := by simp [hne]
  simp only [float?_eq, hsplit, hspan, hpoint, hnonempty, he, Bool.false_eq_true, if_false]
  generalize nearestDecimal? _ _ _ _ = r
  cases r <;> rfl

/-! ## Digits and their value -/

/-- The value of digits, continuing from `acc`. -/
def valueFrom (acc : Nat) (cs : List Char) : Nat :=
  cs.foldl (fun acc c => acc * 10 + (c.toNat - '0'.toNat)) acc

lemma valueFrom_append (acc : Nat) (xs ys : List Char) :
    valueFrom acc (xs ++ ys) = valueFrom (valueFrom acc xs) ys := List.foldl_append

lemma valueFrom_eq (acc : Nat) (cs : List Char) :
    valueFrom acc cs = acc * 10 ^ cs.length + decimalValue cs := by
  induction cs generalizing acc with
  | nil => simp [valueFrom, decimalValue]
  | cons c cs ih =>
      have hstep : ∀ acc, valueFrom acc (c :: cs)
          = valueFrom (acc * 10 + (c.toNat - '0'.toNat)) cs := fun _ => rfl
      have hvalue : decimalValue (c :: cs) = valueFrom 0 (c :: cs) := rfl
      rw [hvalue, hstep, hstep, ih, ih (0 * 10 + _), List.length_cons, pow_succ]
      ring

lemma decimalValue_append (xs ys : List Char) :
    decimalValue (xs ++ ys) = decimalValue xs * 10 ^ ys.length + decimalValue ys :=
  (valueFrom_append 0 xs ys).trans (valueFrom_eq _ ys)

lemma decimalValue_zeros (k : Nat) : decimalValue (List.replicate k '0') = 0 := by
  induction k with
  | zero => rfl
  | succ k ih =>
      rw [List.replicate_succ', decimalValue_append, ih]
      rfl

lemma decimalValue_toDigits (n : Nat) : decimalValue (Nat.toDigits 10 n) = n := by
  have hdigit : ∀ d < 10, d.digitChar.toNat - '0'.toNat = d := by decide
  have h := read_toDigits (b := 10) (f := valueFrom) (by omega)
    (fun acc d cs hd => by simp only [valueFrom, List.foldl_cons, hdigit d hd]) n 0 []
  rw [List.append_nil, Nat.zero_mul, Nat.zero_add] at h
  exact h

/-- Digits without a zero in front: their number is known from their value. -/
lemma decimalValue_bounds {c : Char} {cs : List Char} (h : AllDecimal (c :: cs)) (hc : c ≠ '0') :
    10 ^ cs.length ≤ decimalValue (c :: cs) ∧ decimalValue (c :: cs) < 10 ^ (cs.length + 1) := by
  have hdigit : ∀ {c : Char}, isDecimal c = true → c.toNat - '0'.toNat ≤ 9
      ∧ (c ≠ '0' → 1 ≤ c.toNat - '0'.toNat) := by
    intro c hc
    obtain ⟨hlow, hhigh⟩ := isDecimal_bounds hc
    have h0 : '0'.toNat = 48 := rfl
    refine ⟨by omega, fun hne => ?_⟩
    have : c.toNat ≠ 48 := fun heq => hne (Char.toNat_inj.mp heq)
    omega
  have hless : ∀ cs, AllDecimal cs → decimalValue cs < 10 ^ cs.length := by
    intro cs hcs
    induction cs using List.reverseRecOn with
    | nil => decide
    | append_singleton cs c ih =>
        have hlast := (hdigit (hcs c (by simp))).1
        have hinit := ih fun c' hc' => hcs c' (by simp [hc'])
        rw [decimalValue_append, List.length_append, pow_add]
        have hone : decimalValue [c] = c.toNat - '0'.toNat := by simp [decimalValue]
        rw [hone, List.length_singleton, pow_one]
        omega
  have hsplit : decimalValue (c :: cs) = (c.toNat - '0'.toNat) * 10 ^ cs.length + decimalValue cs := by
    have happ := decimalValue_append [c] cs
    simpa [decimalValue] using happ
  obtain ⟨hnine, hone⟩ := hdigit (h c (by simp))
  have hrest := hless cs fun c' hc' => h c' (by simp [hc'])
  have hlow := Nat.mul_le_mul_right (10 ^ cs.length) (hone hc)
  have hhigh := Nat.mul_le_mul_right (10 ^ cs.length) hnine
  rw [hsplit, pow_succ]
  omega

/-- An exponent of four digits counts in full. -/
lemma exponentValue_eq {cs : List Char} (h : decimalValue cs < 10000) :
    exponentValue cs = decimalValue cs := by
  have hle : ∀ (cs : List Char) acc, acc ≤ valueFrom acc cs := by
    intro cs acc
    rw [valueFrom_eq]
    have := Nat.le_mul_of_pos_right acc (Nat.pow_pos (n := cs.length) (by omega : 0 < 10))
    omega
  have hstep : ∀ (cs : List Char) acc, valueFrom acc cs < 10000 →
      cs.foldl (fun acc c => if acc < 10000 then acc * 10 + (c.toNat - '0'.toNat) else acc) acc
        = valueFrom acc cs := by
    intro cs
    induction cs with
    | nil => intro acc _; rfl
    | cons c cs ih =>
        intro acc hacc
        have hcons : valueFrom acc (c :: cs) = valueFrom (acc * 10 + (c.toNat - '0'.toNat)) cs := rfl
        rw [hcons] at hacc ⊢
        have := hle cs (acc * 10 + (c.toNat - '0'.toNat))
        rw [List.foldl_cons, if_pos (by omega)]
        exact ih _ hacc
  exact hstep cs 0 h

/-- **An exponent is read back.** -/
lemma exponent?_eq {e : Int} (he : e.natAbs < 10000) (zeros : Nat) :
    exponent? ('e' :: (if e < 0 then '-' else '+') ::
      (List.replicate zeros '0' ++ Nat.toDigits 10 e.natAbs)) = some e := by
  generalize hds : List.replicate zeros '0' ++ Nat.toDigits 10 e.natAbs = ds
  have hall : AllDecimal ds := by
    subst hds
    intro c hc
    rcases List.mem_append.mp hc with hc | hc
    · exact allDecimal_zeros zeros c hc
    · exact allDecimal_toDigits _ c hc
  have hne : ds ≠ [] := by
    subst hds
    have := Nat.length_toDigits_pos (b := 10) (n := e.natAbs)
    intro hnil
    simp_all
  have hvalue : exponentValue ds = e.natAbs := by
    have hds' : decimalValue ds = e.natAbs := by
      rw [← hds, decimalValue_append, decimalValue_zeros, decimalValue_toDigits]
      omega
    rw [exponentValue_eq (by omega), hds']
  have hspan : spanDecimal ds = (ds, []) := by
    have h : spanDecimal (ds ++ []) = (ds, []) := spanDecimal_append hall (by simp)
    rwa [List.append_nil] at h
  split
  · simp [exponent?, splitSign, hspan, hne, hvalue, -Nat.cast_natAbs]
    omega
  · simp [exponent?, splitSign, hspan, hne, hvalue, -Nat.cast_natAbs]
    omega

/-! ## Literals as they are written -/

/-- The exponent of a literal, with at least two digits. -/
def exponentChars (e : Int) : List Char :=
  'e' :: (if e < 0 then '-' else '+') ::
    (List.replicate (2 - (Nat.toDigits 10 e.natAbs).length) '0' ++ Nat.toDigits 10 e.natAbs)

/-- The exponent, if there is one. -/
def exponentTail : Option Int → List Char
  | none => []
  | some e => exponentChars e

/-- Digits before and behind the point, and the exponent. -/
def literalChars (whole frac : List Char) (e : Option Int) : List Char :=
  whole ++ ((if frac.isEmpty then [] else '.' :: frac) ++ exponentTail e)

/-- A literal with its sign. -/
def signed (neg : Bool) (cs : List Char) : List Char := (if neg then ['-'] else []) ++ cs

lemma mem_signed {neg : Bool} {e : Option Int} (hwhole : AllDecimal whole) (hfrac : AllDecimal frac)
    {c : Char} (hc : c ∈ signed neg (literalChars whole frac e)) :
    isDecimal c = true ∨ c ∈ ['-', '+', '.', 'e'] := by
  simp only [signed, literalChars, List.mem_append] at hc
  rcases hc with hc | hc | hc | hc
  · cases neg <;> simp_all
  · exact Or.inl (hwhole c hc)
  · cases frac with
    | nil => simp at hc
    | cons c' more =>
        rcases List.mem_cons.mp hc with rfl | hc
        · simp
        · exact Or.inl (hfrac c hc)
  · cases e with
    | none => simp [exponentTail] at hc
    | some e =>
        simp only [exponentTail, exponentChars, List.mem_cons, List.mem_append] at hc
        rcases hc with rfl | rfl | hc | hc
        · simp
        · split <;> simp
        · exact Or.inl (allDecimal_zeros _ c hc)
        · exact Or.inl (allDecimal_toDigits _ c hc)

/-- **A signed literal is read by its parts.** -/
lemma float?_signed {f : FloatFormat} {neg : Bool} {e : Option Int} (hwhole : AllDecimal whole)
    (hne : whole ≠ []) (hfrac : AllDecimal frac) (he : (e.getD 0).natAbs < 10000) :
    float? f (signed neg (literalChars whole frac e))
      = (nearestDecimal? f (decimalValue ((whole ++ frac).dropWhile (· == '0')))
        (e.getD 0 - frac.length) ((whole ++ frac).dropWhile (· == '0')).length).map
        fun bits => if neg then f.negate bits else bits := by
  have hexponent : exponent? (exponentTail e) = some (e.getD 0) := by
    cases e with
    | none => rfl
    | some e => exact exponent?_eq he _
  have hstops : Stops (exponentTail e) := by
    cases e with
    | none => exact Or.inl rfl
    | some e => exact Or.inr ⟨_, rfl⟩
  have hunder : dropUnderscores (signed neg (literalChars whole frac e))
      = signed neg (literalChars whole frac e) := by
    refine List.filter_eq_self.mpr fun c hc => ?_
    rcases mem_signed hwhole hfrac hc with hc | hc
    · simp only [bne_iff_ne]
      rintro rfl
      exact absurd hc (by decide)
    · simp only [List.mem_cons, List.not_mem_nil, or_false] at hc
      rcases hc with rfl | rfl | rfl | rfl <;> rfl
  have hsign : splitSign (signed neg (literalChars whole frac e))
      = (neg, literalChars whole frac e) := by
    obtain ⟨c, more, rfl⟩ := List.exists_cons_of_ne_nil hne
    have hc := hwhole c List.mem_cons_self
    cases neg with
    | true => rfl
    | false =>
        unfold splitSign signed literalChars
        split
        · next heq =>
            cases heq
            exact absurd hc (by decide)
        · next heq =>
            cases heq
            exact absurd hc (by decide)
        · rfl
  refine float?_of_parts (by rw [hunder, hsign, literalChars]) hwhole hne hfrac hstops ?_ hexponent
  cases frac with
  | nil => exact Or.inl ⟨rfl, rfl⟩
  | cons c more => exact Or.inr rfl

/-- Characters with which every number goes on. -/
lemma isChain_append {xs ys : List Char}
    (hxs : ∀ c ∈ xs, ∀ p, Token.continuesNumber p c = true)
    (hys : ∀ p, (p :: ys).IsChain fun p c => Token.continuesNumber p c = true) (p : Char) :
    (p :: (xs ++ ys)).IsChain fun p c => Token.continuesNumber p c = true := by
  induction xs generalizing p with
  | nil => exact hys p
  | cons c xs ih =>
      rw [List.cons_append, List.isChain_cons_cons]
      exact ⟨hxs c List.mem_cons_self p, ih (fun c' hc' => hxs c' (List.mem_cons_of_mem c hc')) c⟩

/-- **A signed literal is one token.** -/
lemma isNumber_signed {neg : Bool} {e : Option Int} (hwhole : AllDecimal whole) (hne : whole ≠ [])
    (hfrac : AllDecimal frac) : Token.IsNumber (signed neg (literalChars whole frac e)) := by
  have hdigits : ∀ {cs : List Char}, AllDecimal cs → ∀ c ∈ cs, ∀ p, Token.continuesNumber p c = true :=
    fun hcs c hc p => by simp [Token.continuesNumber, isDigit_of_isDecimal (hcs c hc)]
  have htail : ∀ p, (p :: exponentTail e).IsChain fun p c => Token.continuesNumber p c = true := by
    intro p
    cases e with
    | none => exact List.isChain_singleton p
    | some e =>
        have he : Token.continuesNumber p 'e' = true := by simp [Token.continuesNumber]
        have hsign : Token.continuesNumber 'e' (if e < 0 then '-' else '+') = true := by
          split <;> decide
        have hend := isChain_append (hdigits ((allDecimal_zeros
          (2 - (Nat.toDigits 10 e.natAbs).length)).append (allDecimal_toDigits e.natAbs)))
          List.isChain_singleton (if e < 0 then '-' else '+')
        rw [List.append_nil] at hend
        exact List.isChain_cons_cons.mpr ⟨he, List.isChain_cons_cons.mpr ⟨hsign, hend⟩⟩
  have hpoint : ∀ p, (p :: ((if frac.isEmpty then [] else '.' :: frac) ++ exponentTail e)).IsChain
      fun p c => Token.continuesNumber p c = true := by
    refine isChain_append ?_ htail
    intro c hc p
    cases frac with
    | nil => simp at hc
    | cons c' more =>
        rcases List.mem_cons.mp hc with rfl | hc
        · simp [Token.continuesNumber]
        · exact hdigits hfrac c hc p
  obtain ⟨c, more, rfl⟩ := List.exists_cons_of_ne_nil hne
  cases neg with
  | true => exact ⟨'-', _, rfl, Or.inl rfl, isChain_append (hdigits hwhole) hpoint '-'⟩
  | false =>
      refine ⟨c, _, rfl, Or.inr (hwhole c List.mem_cons_self), isChain_append ?_ hpoint c⟩
      exact hdigits fun c' hc' => hwhole c' (List.mem_cons_of_mem c hc')

/-! ## Decimals near a float -/

section Near

open Shortest

variable {f : FloatFormat} {m c k : Nat} {q s : Int} {lowest : Bool}

/-- The decimals near the floats in use have a moderate exponent. -/
lemma exponent_bounds (hm : 0 < m) (hm' : m < 2 ^ 53) (hq : -1100 ≤ q) (hq' : q ≤ 1000)
    (hlow : 10 ^ k ≤ c) (hhigh : c < 10 ^ (k + 1))
    (h : (Interval.of m q lowest).Contains (c * 10 ^ s)) :
    -400 ≤ (k + 1 : Int) + s ∧ (k + 1 : Int) + s ≤ 400 := by
  obtain ⟨hbelow, habove, -⟩ := h.of hm
  have hpos : (0 : ℚ) < 2 ^ q := by positivity
  have hten : (0 : ℚ) < 10 ^ s := by positivity
  rw [le_div_iff₀ hpos] at hbelow
  rw [div_le_iff₀ hpos] at habove
  have hone : (1 : ℚ) ≤ m := by exact_mod_cast hm
  have hbig : (m : ℚ) + 1 ≤ 2 ^ 53 := by exact_mod_cast hm'
  constructor
  · by_contra hlt
    have hx : (c * 10 ^ s : ℚ) < 10 ^ (-400 : Int) := by
      calc (c * 10 ^ s : ℚ) < 10 ^ (k + 1) * 10 ^ s := by
            gcongr
            exact_mod_cast hhigh
        _ = 10 ^ ((k + 1 : Int) + s) := by rw [zpow_add₀ (by norm_num)]; norm_cast
        _ ≤ 10 ^ (-400 : Int) := zpow_le_zpow_right₀ (by norm_num) (by omega)
    have hgap : (10 : ℚ) ^ (-400 : Int) ≤ 2 ^ (q - 1) :=
      ten_zpow_le (fun _ => by omega) fun _ => by omega
    rw [zpow_sub_one₀ (by norm_num)] at hgap
    have hhalf : (2 : ℚ) ^ q * 2⁻¹ ≤ (m - if lowest then 1 / 4 else 1 / 2) * 2 ^ q := by
      rw [mul_comm]
      refine mul_le_mul_of_nonneg_right ?_ (le_of_lt hpos)
      split <;> linarith
    exact absurd (lt_of_le_of_lt (le_trans hhalf hbelow) hx) (not_lt.mpr hgap)
  · by_contra hlt
    have hx : (10 : ℚ) ^ (400 : Int) ≤ c * 10 ^ s := by
      calc (10 : ℚ) ^ (400 : Int) ≤ 10 ^ ((k : Int) + s) :=
            zpow_le_zpow_right₀ (by norm_num) (by omega)
        _ = 10 ^ k * 10 ^ s := by rw [zpow_add₀ (by norm_num)]; norm_cast
        _ ≤ c * 10 ^ s := by
            gcongr
            exact_mod_cast hlow
    have hgap : (10 : ℚ) ^ (-400 : Int) ≤ 2 ^ (-(53 + q)) :=
      ten_zpow_le (fun _ => by omega) fun _ => by omega
    rw [zpow_neg, zpow_neg, inv_le_inv₀ (by positivity) (by positivity),
      zpow_add₀ (by norm_num)] at hgap
    have hmore : ((m : ℚ) + 1 / 2) * 2 ^ q < 2 ^ (53 : Int) * 2 ^ q := by
      refine mul_lt_mul_of_pos_right (lt_of_lt_of_le ?_ hbig) hpos
      linarith
    exact absurd (lt_of_le_of_lt (le_trans hx habove) hmore) (not_lt.mpr hgap)

/-- **A decimal in the neighbourhood of a float** is read as the float. -/
lemma nearestDecimal?_of_contains (hm : 0 < m) (hm' : m < 2 ^ 53) (hq : -1100 ≤ q) (hq' : q ≤ 1000)
    (hfits : f.Fits m q) (hlowest : lowest = true ↔ m = 2 ^ f.fractionBits ∧ f.leastScale < q)
    (hlow : 10 ^ k ≤ c) (hhigh : c < 10 ^ (k + 1))
    (h : (Interval.of m q lowest).Contains (c * 10 ^ s)) :
    nearestDecimal? f c s (k + 1) = f.pack? m q := by
  obtain ⟨hleast, hmost⟩ := exponent_bounds hm hm' hq hq' hlow hhigh h
  have hc : 0 < c := Nat.lt_of_lt_of_le (Nat.pow_pos (by omega)) hlow
  have hne : (c == 0) = false := by simp [Nat.ne_of_gt hc]
  unfold nearestDecimal?
  rw [hne, if_neg (by simp), if_neg (by push_cast; omega), if_neg (by push_cast; omega)]
  split
  · next hs =>
      obtain ⟨j, rfl⟩ := Int.eq_ofNat_of_zero_le hs
      refine FloatFormat.nearest?_of_contains hm hfits hlowest ?_ (by omega) ?_
      · simp only [Int.toNat_natCast, Nat.pow_eq]
        positivity
      · convert h using 1
        simp
  · next hs =>
      obtain ⟨j, rfl⟩ : ∃ j : Nat, s = -(j : Int) := ⟨(-s).toNat, by omega⟩
      refine FloatFormat.nearest?_of_contains hm hfits hlowest hc ?_ ?_
      · simp only [neg_neg, Int.toNat_natCast, Nat.pow_eq]
        positivity
      · convert h using 1
        simp [div_eq_mul_inv]

end Near

end Literal

end Suspension
