import Mathlib.Tactic
import Suspension.Codec.Reader
import Suspension.Codec.Writer

/-!
# LEB128 numbers

The container's numbers are groups of seven bits, and a number has many spellings: zero groups may
be appended to a short one, and the last group of a long one may hold bits beyond the word.  This
module says which byte strings spell which number, without the reader: `Groups` for the bits,
`SpellsU32`, `SpellsS32` and `SpellsS64` for the three kinds of numbers.

* `spells_u32`, `spells_s32`, `spells_s64` — what the writer writes spells the number.
* `length_u32_le`, `length_s32_le`, `length_s64_le` — **the writer's spelling is a shortest one.**
-/

namespace Suspension

/-- **A string of groups**: bytes with the top bit set and then one without.  `n` is the number that
the groups make, lowest group first, and `last` the last byte. -/
inductive Groups : Bytes → Nat → UInt8 → Prop
  | last {b : UInt8} (h : b.toNat < 128) : Groups [b] b.toNat b
  | more {b : UInt8} {bs : Bytes} {n : Nat} {last : UInt8} (h : 128 ≤ b.toNat)
      (rest : Groups bs n last) : Groups (b :: bs) (b.toNat % 128 + 128 * n) last

/-- A spelling of an unsigned word: at most five groups, bits beyond the word dropped. -/
def SpellsU32 (bs : Bytes) (v : UInt32) : Prop :=
  ∃ n last, Groups bs n last ∧ bs.length ≤ 5 ∧ v = UInt32.ofNat n

/-- A spelling of a signed word of 32 bits: at most five groups. -/
def SpellsS32 (bs : Bytes) (v : Int32) : Prop :=
  ∃ n last, Groups bs n last ∧ bs.length ≤ 5 ∧
    v = Int32.ofInt (Reader.signedValue n (7 * bs.length) last)

/-- A spelling of a signed word of 64 bits: at most ten groups. -/
def SpellsS64 (bs : Bytes) (v : Int64) : Prop :=
  ∃ n last, Groups bs n last ∧ bs.length ≤ 10 ∧
    v = Int64.ofInt (Reader.signedValue n (7 * bs.length) last)

namespace Groups

lemma length_pos {bs : Bytes} {n : Nat} {last : UInt8} (h : Groups bs n last) : 0 < bs.length := by
  cases h <;> simp

/-- What `k` groups can hold, and where the last of them stands in the number. -/
lemma bounds {bs : Bytes} {n : Nat} {last : UInt8} (h : Groups bs n last) :
    last.toNat < 128 ∧ last.toNat * 128 ^ (bs.length - 1) ≤ n ∧
      n < (last.toNat + 1) * 128 ^ (bs.length - 1) := by
  induction h with
  | last h => simp [h]
  | @more b bs n last h rest ih =>
    obtain ⟨hlast, hlow, hhigh⟩ := ih
    have hpos := rest.length_pos
    have hpow : 128 ^ ((b :: bs).length - 1) = 128 * 128 ^ (bs.length - 1) := by
      rw [← pow_succ', List.length_cons]
      congr 1
      omega
    have hdigit : b.toNat % 128 < 128 := Nat.mod_lt _ (by omega)
    refine ⟨hlast, ?_, ?_⟩ <;> rw [hpow, Nat.mul_left_comm] <;> omega

end Groups

lemma toNat_ofNat_byte {n : Nat} (h : n < 256) : (UInt8.ofNat n).toNat = n := by
  simp [Nat.mod_eq_of_lt h]

/-! ## Unsigned numbers -/

/-- The writer's groups make the number, as long as there is fuel for all of them. -/
lemma groups_unsignedLeb (fuel n : Nat) (h : n < 128 ^ (fuel + 1)) :
    ∃ last, Groups (Writer.unsignedLeb (fuel + 1) n) n last := by
  induction fuel generalizing n with
  | zero =>
    have hn : n < 128 := by simpa using h
    refine ⟨UInt8.ofNat n, ?_⟩
    have hb := toNat_ofNat_byte (show n < 256 by omega)
    simpa [Writer.unsignedLeb, hn, hb] using Groups.last (b := UInt8.ofNat n) (by omega)
  | succ fuel ih =>
    rw [Writer.unsignedLeb]
    split
    · next hn =>
      have hb := toNat_ofNat_byte (show n < 256 by omega)
      exact ⟨_, by simpa [hb] using Groups.last (b := UInt8.ofNat n) (by omega)⟩
    · next hn =>
      obtain ⟨last, hlast⟩ := ih (n / 128) (by
        rw [Nat.div_lt_iff_lt_mul (by omega)]
        simpa [pow_succ] using h)
      have hb := toNat_ofNat_byte (show n % 128 + 128 < 256 by omega)
      have hmore := Groups.more (b := UInt8.ofNat (n % 128 + 128)) (by omega) hlast
      refine ⟨last, ?_⟩
      have hval : (UInt8.ofNat (n % 128 + 128)).toNat % 128 + 128 * (n / 128) = n := by
        rw [hb]
        omega
      rwa [hval] at hmore

lemma length_unsignedLeb_le_fuel (fuel n : Nat) : (Writer.unsignedLeb fuel n).length ≤ fuel := by
  induction fuel generalizing n with
  | zero => simp [Writer.unsignedLeb]
  | succ fuel ih =>
    rw [Writer.unsignedLeb]
    split
    · simp
    · simpa using ih _

/-- A number below `128 ^ k` is written in at most `k` bytes. -/
lemma length_unsignedLeb_le (fuel n k : Nat) (h : n < 128 ^ (k + 1)) :
    (Writer.unsignedLeb fuel n).length ≤ k + 1 := by
  induction fuel generalizing n k with
  | zero => simp [Writer.unsignedLeb]
  | succ fuel ih =>
    rw [Writer.unsignedLeb]
    split
    · simp
    · next hn =>
      cases k with
      | zero => simp at h; omega
      | succ k =>
        have hdiv : n / 128 < 128 ^ (k + 1) := by
          rw [Nat.div_lt_iff_lt_mul (by omega)]
          simpa [pow_succ] using h
        simpa using ih _ _ hdiv

theorem spells_u32 (v : UInt32) : SpellsU32 (Writer.u32 v) v := by
  have hv : v.toNat < 128 ^ (4 + 1) := lt_trans v.toNat_lt (by norm_num)
  obtain ⟨last, h⟩ := groups_unsignedLeb 4 v.toNat hv
  exact ⟨v.toNat, last, h, length_unsignedLeb_le_fuel 5 _, by simp⟩

/-- **No spelling of an unsigned word is shorter than the writer's.** -/
theorem length_u32_le {bs : Bytes} {v : UInt32} (h : SpellsU32 bs v) :
    (Writer.u32 v).length ≤ bs.length := by
  obtain ⟨n, last, hg, hlen, rfl⟩ := h
  obtain ⟨hlast, -, hn⟩ := hg.bounds
  have hpos := hg.length_pos
  by_cases hfive : bs.length = 5
  · rw [hfive]
    exact length_unsignedLeb_le_fuel 5 _
  · have hbound : n < 128 ^ (bs.length - 1 + 1) := by
      rw [pow_succ']
      exact lt_of_lt_of_le hn (Nat.mul_le_mul_right _ (by omega))
    have hword : (UInt32.ofNat n).toNat ≤ n := by
      simpa [UInt32.toNat_ofNat'] using Nat.mod_le n _
    have := length_unsignedLeb_le 5 _ _ (lt_of_le_of_lt hword hbound)
    simp only [Writer.u32]
    omega

/-! ## Signed numbers -/

/-- The test that ends a signed number: what is left is the sign, and bit 6 repeats it. -/
lemma signedLeb_stop_iff (v : Int) :
    ((v / 128 == 0 && v % 128 < 64) || (v / 128 == -1 && 64 ≤ v % 128)) = true ↔
      -64 ≤ v ∧ v < 64 := by
  simp only [Bool.or_eq_true, Bool.and_eq_true, beq_iff_eq, decide_eq_true_eq]
  omega

/-- What is left of a signed number when its writing stops is one group. -/
lemma groups_sign {v : Int} (hlow : -64 ≤ v) (hhigh : v < 64) :
    ∃ n last, Groups [UInt8.ofNat (v % 128).toNat] n last ∧
      (n : Int) = v + (if v < 0 then 128 else 0) ∧ (64 ≤ last.toNat ↔ v < 0) := by
  have hb := toNat_ofNat_byte (show (v % 128).toNat < 256 by omega)
  refine ⟨_, _, Groups.last (b := UInt8.ofNat (v % 128).toNat) (by omega), ?_, by omega⟩
  split <;> omega

/-- The writer's groups make the number, a negative one moved up by what the groups can hold, and
bit 6 of the last byte is the sign. -/
lemma groups_signedLeb (fuel : Nat) (v : Int) (hlow : -(64 * 128 ^ fuel : Int) ≤ v)
    (hhigh : v < 64 * 128 ^ fuel) :
    ∃ n last, Groups (Writer.signedLeb (fuel + 1) v) n last ∧
      (n : Int) = v + (if v < 0 then 128 ^ (Writer.signedLeb (fuel + 1) v).length else 0) ∧
      (64 ≤ last.toNat ↔ v < 0) := by
  induction fuel generalizing v with
  | zero =>
    have hv : -64 ≤ v ∧ v < 64 := by constructor <;> simpa using ‹_›
    rw [Writer.signedLeb, if_pos ((signedLeb_stop_iff v).2 hv)]
    simpa using groups_sign hv.1 hv.2
  | succ fuel ih =>
    rw [Writer.signedLeb]
    split
    · next hstop =>
      have hv := (signedLeb_stop_iff v).1 hstop
      simpa using groups_sign hv.1 hv.2
    · next hgo =>
      obtain ⟨n, last, hg, hn, hsign⟩ := ih (v / 128)
        (by rw [pow_succ] at hlow; omega) (by rw [pow_succ] at hhigh; omega)
      have hb := toNat_ofNat_byte (show (v % 128).toNat + 128 < 256 by omega)
      refine ⟨_, _, Groups.more (b := UInt8.ofNat ((v % 128).toNat + 128)) (by omega) hg, ?_,
        by omega⟩
      have hdigit : (((v % 128).toNat + 128) % 128 : Nat) = (v % 128).toNat := by omega
      have hneg : v / 128 < 0 ↔ v < 0 := by omega
      rw [hb, hdigit, List.length_cons, pow_succ']
      push_cast
      rw [hn, Int.toNat_of_nonneg (by omega)]
      simp only [hneg]
      split <;> omega

lemma length_signedLeb_le_fuel (fuel : Nat) (v : Int) :
    (Writer.signedLeb fuel v).length ≤ fuel := by
  induction fuel generalizing v with
  | zero => simp [Writer.signedLeb]
  | succ fuel ih =>
    rw [Writer.signedLeb]
    split
    · simp
    · simpa using ih _

/-- A number that `k` groups can hold with its sign is written in at most `k` bytes. -/
lemma length_signedLeb_le (fuel : Nat) (v : Int) (k : Nat) (hlow : -(64 * 128 ^ k : Int) ≤ v)
    (hhigh : v < 64 * 128 ^ k) : (Writer.signedLeb fuel v).length ≤ k + 1 := by
  induction fuel generalizing v k with
  | zero => simp [Writer.signedLeb]
  | succ fuel ih =>
    rw [Writer.signedLeb]
    split
    · simp
    · next hgo =>
      cases k with
      | zero => exact absurd ((signedLeb_stop_iff v).2 (by constructor <;> simpa using ‹_›)) hgo
      | succ k =>
        have := ih (v / 128) k (by rw [pow_succ] at hlow; omega) (by rw [pow_succ] at hhigh; omega)
        simpa using this

/-- The signed value of groups that do not fill 64 bits lies in the range of so many groups. -/
lemma Groups.signedValue_bounds {bs : Bytes} {n : Nat} {last : UInt8} (h : Groups bs n last)
    (hlen : bs.length ≤ 9) :
    -(64 * 128 ^ (bs.length - 1) : Int) ≤ Reader.signedValue n (7 * bs.length) last ∧
      Reader.signedValue n (7 * bs.length) last < 64 * 128 ^ (bs.length - 1) := by
  obtain ⟨hlast, hlow, hhigh⟩ := h.bounds
  have hpos := h.length_pos
  obtain ⟨k, hk⟩ : ∃ k, bs.length = k + 1 := ⟨bs.length - 1, by omega⟩
  rw [hk] at hlow hhigh hlen ⊢
  simp only [Nat.add_sub_cancel] at hlow hhigh ⊢
  have hpow : (2 : Int) ^ (7 * (k + 1)) = 128 * 128 ^ k := by
    rw [pow_mul, ← pow_succ']
    norm_num
  have hlow' : (last.toNat : Int) * 128 ^ k ≤ n := by exact_mod_cast hlow
  have hhigh' : (n : Int) < (last.toNat + 1) * 128 ^ k := by exact_mod_cast hhigh
  have hk0 : (0 : Int) < 128 ^ k := by positivity
  have hmod : last.toNat % 128 = last.toNat := Nat.mod_eq_of_lt hlast
  simp only [Reader.signedValue, hmod]
  split
  · next hs =>
    simp only [Bool.and_eq_true, decide_eq_true_eq] at hs
    have h64 : (64 : Int) ≤ last.toNat := by exact_mod_cast hs.2
    have h128 : (last.toNat : Int) + 1 ≤ 128 := by exact_mod_cast hlast
    simp only [Nat.pow_eq, Nat.cast_pow, Nat.cast_ofNat, hpow]
    constructor <;> nlinarith
  · next hs =>
    simp only [Bool.and_eq_true, decide_eq_true_eq, not_and_or, not_le] at hs
    have h64 : (last.toNat : Int) + 1 ≤ 64 := by
      have : last.toNat < 64 := hs.resolve_left (by omega)
      exact_mod_cast this
    constructor <;> nlinarith

/-- Groups that do not fill 64 bits and make a number as the writer's do have it as their signed
value. -/
lemma signedValue_eq {v : Int} {n len : Nat} {last : UInt8} (hlen : len ≤ 9)
    (hlast : last.toNat < 128) (hn : (n : Int) = v + (if v < 0 then 128 ^ len else 0))
    (hsign : 64 ≤ last.toNat ↔ v < 0) : Reader.signedValue n (7 * len) last = v := by
  have hpow : (2 : Int) ^ (7 * len) = 128 ^ len := by
    rw [pow_mul]
    norm_num
  have h64 : 7 * len < 64 := by omega
  simp only [Reader.signedValue, Nat.mod_eq_of_lt hlast, h64, decide_true, Bool.true_and,
    decide_eq_true_eq, hsign, Nat.pow_eq, Nat.cast_pow, Nat.cast_ofNat, hpow, hn]
  split <;> simp

theorem spells_s32 (v : Int32) : SpellsS32 (Writer.s32 v) v := by
  have hlow : -(64 * 128 ^ 4 : Int) ≤ v.toInt := le_trans (by norm_num) v.le_toInt
  have hhigh : v.toInt < 64 * 128 ^ 4 := lt_trans v.toInt_lt (by norm_num)
  obtain ⟨n, last, hg, hn, hsign⟩ := groups_signedLeb 9 v.toInt
    (le_trans (by norm_num) hlow) (lt_trans hhigh (by norm_num))
  simp only [Nat.reduceAdd] at hg hn
  have hlen := length_signedLeb_le 10 v.toInt 4 hlow hhigh
  refine ⟨n, last, hg, hlen, ?_⟩
  rw [Writer.s32, signedValue_eq (by omega) hg.bounds.1 hn hsign, Int32.ofInt_toInt]

theorem spells_s64 (v : Int64) : SpellsS64 (Writer.s64 v) v := by
  obtain ⟨n, last, hg, hn, hsign⟩ := groups_signedLeb 9 v.toInt
    (le_trans (by norm_num) v.le_toInt) (lt_trans v.toInt_lt (by norm_num))
  simp only [Nat.reduceAdd] at hg hn
  have hten := length_signedLeb_le_fuel 10 v.toInt
  refine ⟨n, last, hg, hten, ?_⟩
  rw [Writer.s64]
  by_cases hlen : (Writer.signedLeb 10 v.toInt).length ≤ 9
  · rw [signedValue_eq hlen hg.bounds.1 hn hsign, Int64.ofInt_toInt]
  · -- ten groups fill the word: no sign is added, and what is above the word is dropped
    have hlen10 : (Writer.signedLeb 10 v.toInt).length = 10 := by omega
    rw [hlen10] at hn ⊢
    have hpow : (128 : Int) ^ 10 = (2 ^ 64 : Nat) * 64 := by norm_num
    have hself : v.toInt.bmod (2 ^ 64) = v.toInt :=
      (Int64.ofInt_eq_iff_bmod_eq_toInt _ _).1 (Int64.ofInt_toInt v)
    refine ((Int64.ofInt_eq_iff_bmod_eq_toInt _ _).2 ?_).symm
    simp only [Reader.signedValue, Nat.reduceMul, Nat.reduceLT, decide_false, Bool.false_and,
      Bool.false_eq_true, if_false, hn, hpow]
    split
    · rw [Int.add_mul_bmod_self_left, hself]
    · rw [add_zero, hself]

/-- **No spelling of a signed word of 32 bits is shorter than the writer's.** -/
theorem length_s32_le {bs : Bytes} {v : Int32} (h : SpellsS32 bs v) :
    (Writer.s32 v).length ≤ bs.length := by
  obtain ⟨n, last, hg, hlen, rfl⟩ := h
  have hpos := hg.length_pos
  set x := Reader.signedValue n (7 * bs.length) last
  by_cases hfive : bs.length = 5
  · have hlow := (Int32.ofInt x).le_toInt
    have hhigh := (Int32.ofInt x).toInt_lt
    have := length_signedLeb_le 10 (Int32.ofInt x).toInt 4 (le_trans (by norm_num) hlow)
      (lt_trans hhigh (by norm_num))
    simpa [hfive, Writer.s32] using this
  · obtain ⟨hlow, hhigh⟩ := hg.signedValue_bounds (by omega)
    have hpow : (128 : Int) ^ (bs.length - 1) ≤ 128 ^ 3 :=
      pow_le_pow_right₀ (by norm_num) (by omega)
    have hx : (Int32.ofInt x).toInt = x := by
      rw [Int32.toInt_ofInt, Int.bmod_eq_of_le (by simp [Int32.size]; omega)]
      simp [Int32.size]
      omega
    have := length_signedLeb_le 10 x (bs.length - 1) hlow hhigh
    rw [Writer.s32, hx]
    omega

/-- **No spelling of a signed word of 64 bits is shorter than the writer's.** -/
theorem length_s64_le {bs : Bytes} {v : Int64} (h : SpellsS64 bs v) :
    (Writer.s64 v).length ≤ bs.length := by
  obtain ⟨n, last, hg, hlen, rfl⟩ := h
  have hpos := hg.length_pos
  set x := Reader.signedValue n (7 * bs.length) last
  by_cases hten : bs.length = 10
  · simpa [hten, Writer.s64] using length_signedLeb_le_fuel 10 (Int64.ofInt x).toInt
  · obtain ⟨hlow, hhigh⟩ := hg.signedValue_bounds (by omega)
    have hpow : (128 : Int) ^ (bs.length - 1) ≤ 128 ^ 8 :=
      pow_le_pow_right₀ (by norm_num) (by omega)
    have hx : (Int64.ofInt x).toInt = x := by
      rw [Int64.toInt_ofInt, Int.bmod_eq_of_le (by simp [Int64.size]; omega)]
      simp [Int64.size]
      omega
    have := length_signedLeb_le 10 x (bs.length - 1) hlow hhigh
    rw [Writer.s64, hx]
    omega

end Suspension
