import Mathlib.Algebra.Order.Field.Power
import Mathlib.Data.Rat.Cast.Order
import Mathlib.Tactic.FieldSimp
import Mathlib.Tactic.Linarith
import Mathlib.Tactic.NormNum
import Mathlib.Tactic.Positivity
import Mathlib.Tactic.Ring
import Suspension.Number.Shortest

/-!
# Rounding a ratio to a float

**A ratio in the neighbourhood of a float is rounded to that float.**  The neighbourhood of `m · 2^q` is
what `Shortest.Interval.of` describes: half a unit to either side, a quarter of a unit below the least
mantissa of a binade, the ends only if the mantissa is even.

* `roundHalfEven_eq` — rounding to the nearest whole number.
* `FloatFormat.Scale` — the scale at which a ratio is rounded, and `FloatFormat.nearest?_eq`.
* `FloatFormat.nearest?_of_contains` — the neighbourhoods.
-/

namespace Suspension

/-! ## Units -/

/-- A ratio in units of a power of `b`. -/
lemma div_unit {b num den : Nat} (hb : 0 < b) (hden : 0 < den) (k : Int) :
    0 < (if k ≤ 0 then den else den * Nat.pow b k.toNat) ∧
      ((if k ≤ 0 then num * Nat.pow b (-k).toNat else num : Nat) : ℚ)
        / (if k ≤ 0 then den else den * Nat.pow b k.toNat : Nat) = num / den / (b : ℚ) ^ k := by
  have hb' : (b : ℚ) ≠ 0 := by positivity
  simp only [Nat.pow_eq]
  split
  · next hk =>
      obtain ⟨j, rfl⟩ : ∃ j : Nat, k = -(j : Int) := ⟨(-k).toNat, by omega⟩
      refine ⟨hden, ?_⟩
      simp only [neg_neg, Int.toNat_natCast, Nat.cast_mul, Nat.cast_pow, zpow_neg, zpow_natCast,
        div_inv_eq_mul]
      ring
  · next hk =>
      obtain ⟨j, rfl⟩ := Int.eq_ofNat_of_zero_le (Int.le_of_lt (Int.not_le.mp hk))
      refine ⟨by positivity, ?_⟩
      simp only [Int.toNat_natCast, Nat.cast_mul, Nat.cast_pow, zpow_natCast]
      rw [div_div]

variable {num den : Nat}

/-- **A ratio in units of a power of two**: a quotient and its remainder. -/
lemma FloatFormat.inUnits_eq (num : Nat) (hden : 0 < den) (q : Int) :
    ∃ n d : Nat, 0 < d ∧ (n : ℚ) / d = num / den / 2 ^ q ∧ inUnits num den q = (n / d, n % d, d) := by
  obtain ⟨hd, hnd⟩ := div_unit (b := 2) (by omega) hden q
  exact ⟨_, _, hd, by exact_mod_cast hnd, rfl⟩

/-- **A ratio in units of a power of ten**: a quotient and its remainder. -/
lemma Shortest.inTens_eq (num : Nat) (hden : 0 < den) (k : Int) :
    ∃ n d : Nat, 0 < d ∧ (n : ℚ) / d = num / den / 10 ^ k ∧ inTens num den k = (n / d, n % d, d) := by
  obtain ⟨hd, hnd⟩ := div_unit (b := 10) (by omega) hden k
  exact ⟨_, _, hd, by exact_mod_cast hnd, rfl⟩

namespace FloatFormat

/-- **Rounding to the nearest whole number**, which is even in a tie. -/
lemma roundHalfEven_eq {n d m : Nat} (hd : 0 < d) (hlow : (m : ℚ) - 1 / 2 ≤ n / d)
    (hhigh : (n : ℚ) / d ≤ m + 1 / 2)
    (htie : m % 2 = 1 → (m : ℚ) - 1 / 2 < n / d ∧ (n : ℚ) / d < m + 1 / 2) :
    roundHalfEven (n / d) (n % d) d = m := by
  have hd' : (0 : ℚ) < d := by exact_mod_cast hd
  have hlow' : 2 * m * d ≤ 2 * n + d := by
    rw [le_div_iff₀ hd'] at hlow
    have h : (2 * m * d : ℚ) ≤ 2 * n + d := by linarith
    exact_mod_cast h
  have hhigh' : 2 * n ≤ (2 * m + 1) * d := by
    rw [div_le_iff₀ hd'] at hhigh
    have h : (2 * n : ℚ) ≤ (2 * m + 1) * d := by linarith
    exact_mod_cast h
  have htie' : m % 2 = 1 → 2 * m * d < 2 * n + d ∧ 2 * n < (2 * m + 1) * d := by
    intro hodd
    obtain ⟨h₁, h₂⟩ := htie hodd
    rw [lt_div_iff₀ hd'] at h₁
    rw [div_lt_iff₀ hd'] at h₂
    have h₁' : (2 * m * d : ℚ) < 2 * n + d := by linarith
    have h₂' : (2 * n : ℚ) < (2 * m + 1) * d := by linarith
    exact ⟨by exact_mod_cast h₁', by exact_mod_cast h₂'⟩
  have hn := Nat.div_add_mod n d
  have hr := Nat.mod_lt n hd
  generalize n / d = k at *
  generalize n % d = r at *
  subst hn
  have hk : k ≤ m := by
    by_contra hlt
    have hmul := Nat.mul_le_mul_left d (Nat.not_le.mp hlt)
    linarith
  have hk' : m ≤ k + 1 := by
    by_contra hlt
    have hmul := Nat.mul_le_mul_left d (Nat.not_le.mp hlt)
    linarith
  obtain rfl | rfl : m = k ∨ m = k + 1 := by omega
  · -- rounded down
    have hless : 2 * r ≤ d := by linarith
    have hodd : m % 2 = 1 → 2 * r < d := fun hodd => by linarith [(htie' hodd).2]
    unfold roundHalfEven
    split_ifs with h₁ h₂ h₃
    · rfl
    · omega
    · rfl
    · simp only [beq_iff_eq] at h₃
      have := hodd (by omega)
      omega
  · have hmore : d ≤ 2 * r := by linarith
    have hodd : (k + 1) % 2 = 1 → d < 2 * r := fun hodd => by linarith [(htie' hodd).1]
    unfold roundHalfEven
    split_ifs with h₁ h₂ h₃
    · omega
    · rfl
    · simp only [beq_iff_eq] at h₃
      have := hodd (by omega)
      omega
    · rfl

/-! ## Scales -/

/-- **The scale at which a ratio is rounded**: the mantissa has its bits, unless the scale is the least
one. -/
structure Scale (f : FloatFormat) (x : ℚ) (q : Int) : Prop where
  least : f.leastScale ≤ q
  below : x / 2 ^ q < 2 ^ (f.fractionBits + 1)
  above : q = f.leastScale ∨ 2 ^ f.fractionBits ≤ x / 2 ^ q

/-- The bits of a mantissa at a scale. -/
def pack? (f : FloatFormat) (m : Nat) (q : Int) : Option Nat :=
  let e : Nat := if m < 2 ^ f.fractionBits then 0 else (q - f.leastScale).toNat + 1
  if f.topExponent ≤ e then none else some (e * 2 ^ f.fractionBits + m % 2 ^ f.fractionBits)

lemma log2_bounds {n : Nat} (hn : 0 < n) : ((2 : ℚ) ^ n.log2 ≤ n) ∧ (n : ℚ) < 2 ^ (n.log2 + 1) := by
  have hlow := Nat.log2_self_le (Nat.ne_of_gt hn)
  have hhigh : n < 2 ^ (n.log2 + 1) := Nat.lt_log2_self
  exact ⟨by exact_mod_cast hlow, by exact_mod_cast hhigh⟩

/-- The guess of the scale is at most one too small. -/
lemma ratio_bounds (hnum : 0 < num) (hden : 0 < den) :
    (2 : ℚ) ^ ((num.log2 : Int) - den.log2 - 1) ≤ num / den
      ∧ (num / den : ℚ) < 2 ^ ((num.log2 : Int) - den.log2 + 1) := by
  obtain ⟨hnum₁, hnum₂⟩ := log2_bounds hnum
  obtain ⟨hden₁, hden₂⟩ := log2_bounds hden
  have hden' : (0 : ℚ) < den := by exact_mod_cast hden
  constructor
  · calc (2 : ℚ) ^ ((num.log2 : Int) - den.log2 - 1) = 2 ^ num.log2 / 2 ^ (den.log2 + 1) := by
          rw [sub_sub, zpow_sub₀ (by norm_num), zpow_natCast]
          norm_cast
      _ ≤ num / den := by gcongr
  · calc (num / den : ℚ) < 2 ^ (num.log2 + 1) / 2 ^ den.log2 := by gcongr
      _ = (2 : ℚ) ^ ((num.log2 : Int) - den.log2 + 1) := by
          rw [sub_add_eq_add_sub, zpow_sub₀ (by norm_num), zpow_natCast]
          norm_cast

/-- **A ratio is rounded at its scale.** -/
lemma nearest?_eq (f : FloatFormat) (hnum : 0 < num) (hden : 0 < den) :
    ∃ (q : Int) (n d : Nat), f.Scale (num / den) q ∧ 0 < d ∧ (n : ℚ) / d = num / den / 2 ^ q ∧
      f.nearest? num den =
        if roundHalfEven (n / d) (n % d) d = 2 ^ (f.fractionBits + 1)
        then f.pack? (2 ^ f.fractionBits) (q + 1)
        else f.pack? (roundHalfEven (n / d) (n % d) d) q := by
  obtain ⟨hlow, hhigh⟩ := ratio_bounds hnum hden
  generalize hguess : (num.log2 : Int) - den.log2 - 1 - f.fractionBits = guess at hlow hhigh
  have hpos : ∀ j : Int, (0 : ℚ) < 2 ^ j := fun j => by positivity
  -- at the guessed scale the mantissa has one bit too many at most
  have hlow : (2 : ℚ) ^ f.fractionBits ≤ num / den / 2 ^ guess := by
    rw [le_div_iff₀ (hpos guess), ← zpow_natCast, ← zpow_add₀ (by norm_num)]
    refine le_trans (le_of_eq ?_) hlow
    congr 1
    omega
  have hhigh : (num / den / 2 ^ guess : ℚ) < 2 ^ (f.fractionBits + 2) := by
    rw [div_lt_iff₀ (hpos guess), ← zpow_natCast, ← zpow_add₀ (by norm_num)]
    refine lt_of_lt_of_eq hhigh ?_
    congr 1
    push_cast
    omega
  obtain ⟨n₀, d₀, hd₀, hnd₀, hunits₀⟩ := inUnits_eq num hden (max f.leastScale guess)
  have hfloor : Nat.pow 2 (f.fractionBits + 1) ≤ n₀ / d₀
      ↔ (2 : ℚ) ^ (f.fractionBits + 1) ≤ num / den / 2 ^ max f.leastScale guess := by
    rw [Nat.pow_eq, Nat.le_div_iff_mul_le hd₀, ← hnd₀, le_div_iff₀ (by exact_mod_cast hd₀)]
    exact_mod_cast Iff.rfl
  generalize hq₀ : max f.leastScale guess = q₀ at *
  have hscale : f.Scale (num / den)
      (if Nat.pow 2 (f.fractionBits + 1) ≤ n₀ / d₀ then q₀ + 1 else q₀) := by
    have hnext : (num / den / 2 ^ (q₀ + 1) : ℚ) = num / den / 2 ^ q₀ / 2 := by
      rw [zpow_add₀ (by norm_num), zpow_one, ← div_div]
    rcases le_or_gt f.leastScale guess with hle | hlt
    · obtain rfl : guess = q₀ := by omega
      split
      · next hbig =>
          rw [hfloor, pow_succ] at hbig
          rw [pow_add] at hhigh
          refine ⟨by omega, ?_, Or.inr ?_⟩
          · rw [hnext, pow_succ]
            linarith
          · rw [hnext]
            linarith
      · next hsmall =>
          rw [hfloor, not_le] at hsmall
          exact ⟨hle, hsmall, Or.inr hlow⟩
    · obtain rfl : f.leastScale = q₀ := by omega
      -- the least scale is coarser than the guess, so the mantissa fits
      have hsmall : (num / den / 2 ^ f.leastScale : ℚ) < 2 ^ (f.fractionBits + 1) := by
        have hstep : (2 : ℚ) * 2 ^ guess ≤ 2 ^ f.leastScale := by
          rw [← zpow_one_add₀ (by norm_num)]
          exact zpow_le_zpow_right₀ (by norm_num) (by omega)
        rw [div_lt_iff₀ (hpos _)] at hhigh ⊢
        have hmul := mul_le_mul_of_nonneg_left hstep
          (by positivity : (0 : ℚ) ≤ 2 ^ (f.fractionBits + 1))
        refine lt_of_lt_of_le hhigh (le_trans (le_of_eq ?_) hmul)
        ring
      rw [if_neg (by rw [hfloor, not_le]; exact hsmall)]
      exact ⟨le_refl _, hsmall, Or.inl rfl⟩
  generalize hq : (if Nat.pow 2 (f.fractionBits + 1) ≤ n₀ / d₀ then q₀ + 1 else q₀) = q at hscale
  obtain ⟨n, d, hd, hnd, hunits⟩ := inUnits_eq num hden q
  refine ⟨q, n, d, hscale, hd, hnd, ?_⟩
  have hne : (num == 0) = false := by simp [Nat.ne_of_gt hnum]
  simp only [nearest?, hne, Bool.false_eq_true, if_false, hguess, hq₀, hunits₀, hq, hunits, pack?,
    beq_iff_eq]
  simp only [Nat.pow_eq]
  split <;> rfl

/-! ## Neighbourhoods -/

end FloatFormat

namespace Shortest

/-- One quarter of the unit of an interval. -/
def Interval.unit (i : Interval) : ℚ := i.num / i.den

/-- **A number lies in an interval.** -/
def Interval.Contains (i : Interval) (x : ℚ) : Prop :=
  if i.closed then i.low * i.unit ≤ x ∧ x ≤ i.high * i.unit
  else i.low * i.unit < x ∧ x < i.high * i.unit

variable {m : Nat} {q : Int} {lowest : Bool} {x : ℚ}

lemma Interval.unit_of : (Interval.of m q lowest).unit = 2 ^ (q - 2) := by
  unfold Interval.unit Interval.of
  simp only [Nat.pow_eq]
  split
  · next hq =>
      obtain ⟨j, rfl⟩ : ∃ j : Nat, q = j + 2 := ⟨(q - 2).toNat, by omega⟩
      simp
  · next hq =>
      obtain ⟨j, rfl⟩ : ∃ j : Nat, q = 2 - j := ⟨(2 - q).toNat, by omega⟩
      simp

/-- **The neighbourhood of a float in its own units**: half a unit, a quarter below the least mantissa,
and the ends only for an even mantissa. -/
lemma Interval.Contains.of (hm : 0 < m) (h : (Interval.of m q lowest).Contains x) :
    (m : ℚ) - (if lowest then 1 / 4 else 1 / 2) ≤ x / 2 ^ q ∧ x / 2 ^ q ≤ m + 1 / 2 ∧
      (m % 2 = 1 → (m : ℚ) - (if lowest then 1 / 4 else 1 / 2) < x / 2 ^ q
        ∧ x / 2 ^ q < m + 1 / 2) := by
  have hpos : (0 : ℚ) < 2 ^ q := by positivity
  have hunit : (Interval.of m q lowest).unit = 2 ^ q / 4 := by
    rw [Interval.unit_of, zpow_sub₀ (by norm_num)]
    norm_num
  have hlow : ((Interval.of m q lowest).low : ℚ) = 4 * (m - if lowest then 1 / 4 else 1 / 2) := by
    cases lowest <;> simp only [Interval.of, Bool.false_eq_true, if_false, if_true] <;>
      rw [Nat.cast_sub (by omega)] <;> push_cast <;> ring
  have hhigh : ((Interval.of m q lowest).high : ℚ) = 4 * (m + 1 / 2) := by
    simp only [Interval.of]
    push_cast
    ring
  have hclosed : (Interval.of m q lowest).closed = (m % 2 == 0) := rfl
  unfold Interval.Contains at h
  rw [hunit, hlow, hhigh, hclosed] at h
  simp only [le_div_iff₀ hpos, div_le_iff₀ hpos, lt_div_iff₀ hpos, div_lt_iff₀ hpos]
  split at h
  · next heven =>
      simp only [beq_iff_eq] at heven
      exact ⟨by linarith [h.1], by linarith [h.2], fun hodd => by omega⟩
  · exact ⟨by linarith [h.1], by linarith [h.2], fun _ => ⟨by linarith [h.1], by linarith [h.2]⟩⟩

end Shortest

namespace FloatFormat

open Shortest

/-- **A mantissa that a float has at a scale.** -/
structure Fits (f : FloatFormat) (m : Nat) (q : Int) : Prop where
  mantissa : m < 2 ^ (f.fractionBits + 1)
  least : f.leastScale ≤ q
  full : q = f.leastScale ∨ 2 ^ f.fractionBits ≤ m

/-- **A ratio in the neighbourhood of a float is rounded to it.** -/
theorem nearest?_of_contains {f : FloatFormat} {m : Nat} {q : Int} {lowest : Bool} (hm : 0 < m)
    (hfits : f.Fits m q) (hlowest : lowest = true ↔ m = 2 ^ f.fractionBits ∧ f.leastScale < q)
    (hnum : 0 < num) (hden : 0 < den) (h : (Interval.of m q lowest).Contains (num / den)) :
    f.nearest? num den = f.pack? m q := by
  obtain ⟨q', n, d, hscale, hd, hnd, hnearest⟩ := nearest?_eq f hnum hden
  obtain ⟨hlow, hhigh, htie⟩ := h.of hm
  rw [hnearest]
  have hhalf : (if lowest then 1 / 4 else 1 / 2 : ℚ) ≤ 1 / 2 := by
    split <;> norm_num
  have hmantissa : (m : ℚ) + 1 ≤ 2 ^ (f.fractionBits + 1) := by exact_mod_cast hfits.mantissa
  have hone : (1 : ℚ) ≤ 2 ^ f.fractionBits := one_le_pow₀ (by norm_num)
  -- a coarser scale makes a smaller mantissa
  have hcoarse : ∀ {j k : Int} {c : Nat}, j + c ≤ k →
      (num / den / 2 ^ k : ℚ) * 2 ^ c ≤ num / den / 2 ^ j := by
    intro j k c hjk
    have hstep : (2 : ℚ) ^ j * 2 ^ c ≤ 2 ^ k := by
      rw [← zpow_natCast, ← zpow_add₀ (by norm_num)]
      exact zpow_le_zpow_right₀ (by norm_num) hjk
    rw [div_mul_eq_mul_div, div_le_div_iff₀ (by positivity) (by positivity)]
    calc (num / den * 2 ^ c * 2 ^ j : ℚ) = num / den * (2 ^ j * 2 ^ c) := by ring
      _ ≤ num / den * 2 ^ k := by gcongr
  rcases lt_trichotomy q' q with hlt | rfl | hgt
  · -- just below a power of two, at the finer scale
    have hfull : 2 ^ f.fractionBits ≤ m := hfits.full.resolve_left (by have := hscale.least; omega)
    have hfull' : (2 : ℚ) ^ f.fractionBits ≤ m := by exact_mod_cast hfull
    have hbelow := hscale.below
    have hup := hcoarse (c := 1) (j := q') (k := q) (by omega)
    rw [pow_succ] at hbelow
    have hm' : m = 2 ^ f.fractionBits := by
      by_contra hne
      have hmore : (2 : ℚ) ^ f.fractionBits + 1 ≤ m := by
        exact_mod_cast Nat.lt_of_le_of_ne hfull (Ne.symm hne)
      linarith
    have hmq : (m : ℚ) = 2 ^ f.fractionBits := by exact_mod_cast hm'
    rw [if_pos (hlowest.mpr ⟨hm', by have := hscale.least; omega⟩), hmq] at hlow
    have hq : q' + 1 = q := by
      by_contra hne
      have := hcoarse (c := 2) (j := q') (k := q) (by push_cast; omega)
      linarith
    have hround : roundHalfEven (n / d) (n % d) d = 2 ^ (f.fractionBits + 1) := by
      have hcast : ((2 ^ (f.fractionBits + 1) : Nat) : ℚ) = 2 * 2 ^ f.fractionBits := by
        push_cast
        ring
      refine roundHalfEven_eq hd ?_ ?_ fun hodd => ?_
      · rw [hcast, hnd]
        linarith
      · rw [hcast, hnd]
        linarith
      · rw [pow_succ] at hodd
        omega
    rw [if_pos hround, hq, hm']
  · have hround : roundHalfEven (n / d) (n % d) d = m := by
      refine roundHalfEven_eq hd ?_ ?_ fun hodd => ?_
      · rw [hnd]
        linarith
      · rw [hnd]
        exact hhigh
      · rw [hnd]
        obtain ⟨h₁, h₂⟩ := htie hodd
        exact ⟨by linarith, h₂⟩
    rw [hround, if_neg (Nat.ne_of_lt hfits.mantissa)]
  · -- a coarser scale would need a larger number
    exfalso
    have habove := hscale.above.resolve_left (by have := hfits.least; omega)
    have := hcoarse (c := 1) (j := q) (k := q') (by omega)
    rw [pow_succ] at hmantissa
    linarith

end FloatFormat

end Suspension
