import Suspension.Proofs.Number.Rounding

/-!
# The shortest decimal lies in its interval

**The search for a decimal ends with one that rounds to the float.**  A grid as fine as a quarter of the
float's unit has a point in the interval, and the search gets to such a grid before its fuel is used up.

* `Shortest.Interval.holds_iff` — the test of the search, in rational numbers.
* `Shortest.Interval.onGrid?_isSome` — a grid that is fine enough.
* `Shortest.decimal_contains` — the decimal that is found.
-/

namespace Suspension

namespace Shortest

variable {i : Interval} {m n : Nat} {q k : Int} {lowest : Bool}

/-- A power of ten as a ratio of natural numbers. -/
lemma exists_ten_zpow (k : Int) : ∃ t u : Nat, 0 < u ∧ (10 : ℚ) ^ k = t / u
    ∧ (∀ n, (if 0 ≤ k then n * Nat.pow 10 k.toNat else n) = n * t)
    ∧ (if 0 ≤ k then 1 else Nat.pow 10 (-k).toNat) = u := by
  simp only [Nat.pow_eq]
  split
  · next hk =>
      obtain ⟨j, rfl⟩ := Int.eq_ofNat_of_zero_le hk
      exact ⟨10 ^ j, 1, by omega, by simp, by simp, rfl⟩
  · next hk =>
      obtain ⟨j, rfl⟩ : ∃ j : Nat, k = -(j : Int) := ⟨(-k).toNat, by omega⟩
      exact ⟨1, 10 ^ j, by positivity, by simp, by simp, by simp⟩

/-- **The test of the search.** -/
lemma Interval.holds_iff (hden : 0 < i.den) : i.holds n k = true ↔ i.Contains (n * 10 ^ k) := by
  obtain ⟨t, u, hu, htu, hscaled, hunit⟩ := exists_ten_zpow k
  have hden' : (0 : ℚ) < i.den := by exact_mod_cast hden
  have hu' : (0 : ℚ) < u := by exact_mod_cast hu
  have hratio : ∀ c : Nat, (c * i.unit : ℚ) = (c * (i.num * u) : Nat) / (i.den * u : Nat) := by
    intro c
    unfold Interval.unit
    push_cast
    field_simp
  have hpoint : (n * 10 ^ k : ℚ) = (n * t * i.den : Nat) / (i.den * u : Nat) := by
    rw [htu]
    push_cast
    field_simp
  have hpos : (0 : ℚ) < (i.den * u : Nat) := by
    push_cast
    positivity
  unfold Interval.holds Interval.Contains
  rw [hscaled, hunit]
  simp only [hratio, hpoint, div_le_div_iff_of_pos_right hpos, div_lt_div_iff_of_pos_right hpos,
    Nat.cast_le, Nat.cast_lt]
  split <;> simp

/-! ## Grids -/

lemma Interval.den_of_pos : 0 < (Interval.of m q lowest).den := by
  unfold Interval.of
  simp only [Nat.pow_eq]
  split <;> positivity

/-- A point that the search finds. -/
lemma Interval.onGrid?_contains (hden : 0 < i.den) (h : i.onGrid? k = some n) :
    i.Contains (n * 10 ^ k) := by
  rw [← Interval.holds_iff hden]
  unfold Interval.onGrid? at h
  obtain ⟨⟨n', r, d⟩, hn⟩ : ∃ x, inTens (i.value * i.num) i.den k = x := ⟨_, rfl⟩
  simp only [hn] at h
  split at h
  · next hboth =>
      simp only [Bool.and_eq_true] at hboth
      cases h
      split_ifs
      · exact hboth.1
      · exact hboth.2
      · exact hboth.1
      · exact hboth.2
  split at h
  · next hbelow =>
      cases h
      exact hbelow
  split at h
  · next habove =>
      cases h
      exact habove
  · cases h

/-- **A grid as fine as a quarter of the unit** has a point in the interval: the next one below the
value. -/
lemma Interval.onGrid?_isSome (hm : 0 < m) (hk : (10 : ℚ) ^ k ≤ 2 ^ (q - 2)) :
    ∃ n, (Interval.of m q lowest).onGrid? k = some n := by
  generalize hi : Interval.of m q lowest = i
  have hden : 0 < i.den := hi ▸ Interval.den_of_pos
  have hunit : i.unit = 2 ^ (q - 2) := hi ▸ Interval.unit_of
  have hlow : i.low + 1 ≤ i.value := by
    subst hi
    cases lowest <;> simp only [Interval.of, Bool.false_eq_true, if_false, if_true] <;> omega
  have hhigh : i.value + 1 ≤ i.high := by
    subst hi
    simp only [Interval.of]
    omega
  have hpos : (0 : ℚ) < 10 ^ k := by positivity
  obtain ⟨n, d, hd, hnd, hunits⟩ := inTens_eq (i.value * i.num) hden k
  have hvalue : (n : ℚ) / d * 10 ^ k = i.value * i.unit := by
    rw [hnd, div_mul_cancel₀ _ (ne_of_gt hpos), Interval.unit]
    push_cast
    ring
  have hd' : (0 : ℚ) < d := by exact_mod_cast hd
  have hfloor : ((n / d : Nat) : ℚ) ≤ n / d := by
    rw [le_div_iff₀ hd']
    exact_mod_cast Nat.div_mul_le_self n d
  have hceil : (n : ℚ) / d < (n / d : Nat) + 1 := by
    rw [div_lt_iff₀ hd', mul_comm]
    exact_mod_cast Nat.lt_mul_div_succ n hd
  have hpoint : ((n / d : Nat) * 10 ^ k : ℚ) ≤ i.value * i.unit := by
    rw [← hvalue]
    gcongr
  have hnear : (i.value * i.unit : ℚ) < (n / d : Nat) * 10 ^ k + 10 ^ k := by
    rw [← hvalue, ← add_one_mul]
    gcongr
  have hquarter : (0 : ℚ) < i.unit := by
    rw [hunit]
    positivity
  have hlow' : (i.low * i.unit : ℚ) + i.unit ≤ i.value * i.unit := by
    rw [← add_one_mul]
    gcongr
    exact_mod_cast hlow
  have hhigh' : (i.value * i.unit : ℚ) + i.unit ≤ i.high * i.unit := by
    rw [← add_one_mul]
    gcongr
    exact_mod_cast hhigh
  have hbelow : i.holds (n / d) k = true := by
    rw [Interval.holds_iff hden, Interval.Contains]
    split
    · exact ⟨by linarith, by linarith⟩
    · exact ⟨by linarith, by linarith⟩
  unfold Interval.onGrid?
  simp only [hunits, hbelow, Bool.true_and]
  split
  · exact ⟨_, rfl⟩
  · exact ⟨_, rfl⟩

/-! ## The search -/

/-- **The search ends with a point of the interval**, if one of its grids has one. -/
lemma search_contains (hden : 0 < i.den) {fuel : Nat} {k k' : Int}
    (hgrid : ∃ n, i.onGrid? k' = some n) (hk : k' ≤ k) (hfuel : k < k' + fuel) :
    i.Contains ((search i fuel k).1 * 10 ^ (search i fuel k).2) := by
  induction fuel generalizing k with
  | zero => omega
  | succ fuel ih =>
      unfold search
      split
      · next n hn => exact Interval.onGrid?_contains hden hn
      · next hnone =>
          have hne : k ≠ k' := by
            rintro rfl
            obtain ⟨n, hn⟩ := hgrid
            rw [hn] at hnone
            cases hnone
          exact ih (by omega) (by push_cast at hfuel; omega)

/-- Powers of ten below powers of two: `10 ^ 3 ≤ 2 ^ 10` and `2 ^ 33 ≤ 10 ^ 10`. -/
lemma ten_zpow_le {k j : Int} (hpos : 0 ≤ j → 10 * k ≤ 3 * j) (hneg : j < 0 → 33 * k ≤ 10 * j) :
    (10 : ℚ) ^ k ≤ 2 ^ j := by
  rcases lt_or_ge j 0 with hj | hj
  · have hstep : ((10 : ℚ) ^ k) ^ 33 ≤ (2 ^ j) ^ 33 := by
      obtain ⟨c, rfl⟩ : ∃ c : Nat, j = -(c : Int) := ⟨(-j).toNat, by omega⟩
      calc ((10 : ℚ) ^ k) ^ 33 = 10 ^ (33 * k) := by rw [← zpow_natCast, ← zpow_mul, mul_comm]; rfl
        _ ≤ 10 ^ (10 * (-(c : Int))) := zpow_le_zpow_right₀ (by norm_num) (hneg hj)
        _ = ((10 ^ 10 : ℚ) ^ c)⁻¹ := by
            rw [mul_neg, zpow_neg, zpow_mul, zpow_natCast]
            norm_num
        _ ≤ ((2 ^ 33 : ℚ) ^ c)⁻¹ := by gcongr; norm_num
        _ = (2 ^ (-(c : Int))) ^ 33 := by
            rw [zpow_neg, zpow_natCast, inv_pow, ← pow_mul, ← pow_mul, mul_comm]
    exact (pow_le_pow_iff_left₀ (by positivity) (by positivity) (by norm_num)).mp hstep
  · have hstep : ((10 : ℚ) ^ k) ^ 10 ≤ (2 ^ j) ^ 10 := by
      obtain ⟨c, rfl⟩ := Int.eq_ofNat_of_zero_le hj
      calc ((10 : ℚ) ^ k) ^ 10 = 10 ^ (10 * k) := by rw [← zpow_natCast, ← zpow_mul, mul_comm]; rfl
        _ ≤ 10 ^ (3 * (c : Int)) := zpow_le_zpow_right₀ (by norm_num) (hpos hj)
        _ = (10 ^ 3 : ℚ) ^ c := by
            rw [zpow_mul, zpow_natCast]
            norm_num
        _ ≤ (2 ^ 10 : ℚ) ^ c := by gcongr; norm_num
        _ = (2 ^ (c : Int)) ^ 10 := by rw [zpow_natCast, ← pow_mul, ← pow_mul, mul_comm]
    exact (pow_le_pow_iff_left₀ (by positivity) (by positivity) (by norm_num)).mp hstep

/-- **The shortest decimal of a float lies in its interval.** -/
theorem decimal_contains (hm : 0 < m) (hm' : m < 2 ^ 53) (hq : -1100 ≤ q) (hq' : q ≤ 1000) :
    (Interval.of m q lowest).Contains
      ((decimal m q lowest).1 * 10 ^ (decimal m q lowest).2) := by
  have hlog : m.log2 < 53 := (Nat.log2_lt (Nat.ne_of_gt hm)).mpr hm'
  unfold decimal
  generalize hestimate : ((m.log2 : Int) + q) * 1233 / 4096 = estimate
  -- the last grid of the search is fine enough
  have hlast : ∃ n, (Interval.of m q lowest).onGrid? (estimate - 21) = some n := by
    refine Interval.onGrid?_isSome hm (ten_zpow_le (fun hj => ?_) fun hj => ?_) <;> omega
  exact search_contains Interval.den_of_pos hlast (by omega) (by omega)

end Shortest

end Suspension
