import Suspension.Proofs.Number.Decimal

/-!
# Floats that are read back

**The text of a finite float is read as the same bits.**  The text has the digits of a decimal in the
neighbourhood of the float, with a point or an exponent.

* `FloatFormat.classify_finite` — the bits of a finite float.
* `Shortest.exists_significant` — the digits that are written.
* `FloatFormat.exists_general` — the text, and what is read.
-/

namespace Suspension

namespace FloatFormat

/-! ## The bits of a finite float -/

/-- The bits without the sign. -/
lemma magnitude_eq (f : FloatFormat) (bits : Nat) : bits % 2 ^ (f.fractionBits + f.exponentBits)
    = f.exponent bits * 2 ^ f.fractionBits + f.fraction bits := by
  simp only [exponent, fraction, Nat.pow_eq]
  rw [pow_add, Nat.mod_mul]
  ring

/-- Bits that are neither an infinity nor a not-a-number. -/
def IsFinite (f : FloatFormat) (bits : Nat) : Prop :=
  bits < 2 ^ (f.fractionBits + f.exponentBits + 1)
    ∧ ∃ m q lowest, f.classify bits = .finite m q lowest

instance (f : FloatFormat) (bits : Nat) : Decidable (f.IsFinite bits) :=
  match hclass : f.classify bits with
  | .finite _ _ _ =>
    decidable_of_iff (bits < 2 ^ (f.fractionBits + f.exponentBits + 1)) (by simp [IsFinite, hclass])
  | .infinite | .notANumber => isFalse (by simp [IsFinite, hclass])

/-- **What a finite float denotes**: a mantissa that fits its scale, whose bits are those of the float
without the sign. -/
lemma classify_finite {f : FloatFormat} {bits m : Nat} {q : Int} {lowest : Bool}
    (h : f.classify bits = .finite m q lowest) :
    f.Fits m q ∧ (lowest = true ↔ m = 2 ^ f.fractionBits ∧ f.leastScale < q)
      ∧ q < f.leastScale + 2 ^ f.exponentBits
      ∧ f.pack? m q = some (bits % 2 ^ (f.fractionBits + f.exponentBits)) := by
  have hfraction : f.fraction bits < 2 ^ f.fractionBits := Nat.mod_lt _ (Nat.pow_pos (by omega))
  have hexponent : f.exponent bits < 2 ^ f.exponentBits := Nat.mod_lt _ (Nat.pow_pos (by omega))
  have htop : f.topExponent = 2 ^ f.exponentBits - 1 := rfl
  have hcast : ((2 ^ f.exponentBits : Nat) : Int) = 2 ^ f.exponentBits := by push_cast; rfl
  rw [magnitude_eq]
  unfold classify at h
  simp only [Nat.pow_eq] at h
  split at h
  · split at h <;> cases h
  next htop' =>
  simp only [beq_iff_eq] at htop'
  split at h
  · next hzero =>
      simp only [beq_iff_eq] at hzero
      cases h
      refine ⟨⟨by rw [pow_succ]; omega, le_refl _, Or.inl rfl⟩, by simp, by omega, ?_⟩
      simp only [pack?, if_pos hfraction, hzero]
      rw [if_neg (by omega), Nat.mod_eq_of_lt hfraction]
  · next hzero =>
      simp only [beq_iff_eq] at hzero
      cases h
      refine ⟨⟨by rw [pow_succ]; omega, by omega, Or.inr (by omega)⟩, ?_, by omega, ?_⟩
      · simp only [Bool.and_eq_true, beq_iff_eq, bne_iff_ne]
        constructor
        · rintro ⟨hfrac, hne⟩
          exact ⟨by omega, by omega⟩
        · rintro ⟨hm, hlt⟩
          exact ⟨by omega, by omega⟩
      · have he : (f.leastScale + ((f.exponent bits : Int) - 1) - f.leastScale).toNat + 1
            = f.exponent bits := by omega
        have hfull : ¬ f.fraction bits + 2 ^ f.fractionBits < 2 ^ f.fractionBits := by omega
        simp only [pack?, he, if_neg hfull]
        rw [if_neg (by omega), Nat.add_mod_right, Nat.mod_eq_of_lt hfraction]

end FloatFormat

/-! ## The digits that are written -/

open Literal

/-- The byte of an ASCII character. -/
def asciiByte (c : Char) : UInt8 := UInt8.ofNat c.toNat

/-- Digits take one byte each. -/
lemma encode_decimal {cs : List Char} (h : AllDecimal cs) : Utf8.encode cs = cs.map asciiByte := by
  induction cs with
  | nil => rfl
  | cons c cs ih =>
      have hascii : String.utf8EncodeChar c = [asciiByte c] := by
        have hlt := (isDecimal_bounds (h c List.mem_cons_self)).2
        simp only [String.utf8EncodeChar, Char.toNat_val, if_pos (by omega : c.toNat ≤ 127)]
        rfl
      have hcons : Utf8.encode (c :: cs) = String.utf8EncodeChar c ++ Utf8.encode cs := rfl
      rw [hcons, hascii, ih fun c' hc' => h c' (List.mem_cons_of_mem c hc')]
      rfl

/-- **The digits of a number without the zeros at its end.** -/
lemma Shortest.exists_significant {n : Nat} (hn : 0 < n) :
    ∃ c more z, significant n = (Utf8.encode (c :: more), z) ∧ c ≠ '0'
      ∧ Nat.toDigits 10 n = c :: more ++ List.replicate z '0' := by
  have hall := allDecimal_toDigits n
  have hbytes : Text.ofNat n = (Nat.toDigits 10 n).map asciiByte := by
    rw [Text.ofNat_eq, encode_decimal hall]
  obtain ⟨d, cs, hd, hd', hcs⟩ := exists_toDigits (b := 10) (by omega) hn
  have hfirst : d.digitChar ≠ '0' := by
    have h : ∀ d < 10, 0 < d → d.digitChar ≠ '0' := by decide
    exact h d hd' hd
  generalize Nat.toDigits 10 n = ds at *
  -- the zeros are dropped from the end
  let isZero : Char → Bool := fun c => asciiByte c == 0x30
  have hsplit : ds = (ds.reverse.dropWhile isZero).reverse ++ (ds.reverse.takeWhile isZero).reverse := by
    rw [← List.reverse_append, List.takeWhile_append_dropWhile, List.reverse_reverse]
  generalize hkept : (ds.reverse.dropWhile isZero).reverse = kept at hsplit
  have hzeros : ∀ c ∈ (ds.reverse.takeWhile isZero).reverse, c = '0' := by
    intro c hc
    have hmem : c ∈ ds := hsplit ▸ List.mem_append_right _ hc
    have hzero : isZero c = true := List.mem_takeWhile_imp (List.mem_reverse.mp hc)
    have hb := isDecimal_bounds (hall c hmem)
    have hnat : c.toNat = 48 := by
      have := congrArg UInt8.toNat (beq_iff_eq.mp hzero)
      rw [asciiByte, UInt8.toNat_ofNat'] at this
      have h48 : (0x30 : UInt8).toNat = 48 := rfl
      omega
    exact Char.toNat_inj.mp hnat
  generalize (ds.reverse.takeWhile isZero).reverse = zeros at hsplit hzeros
  have hreplicate : zeros = List.replicate zeros.length '0' := List.eq_replicate_of_mem hzeros
  have hsignificant : significant n = (kept.map asciiByte, zeros.length) := by
    have hdrop : ((ds.map asciiByte).reverse.dropWhile (· == 0x30)).reverse = kept.map asciiByte := by
      rw [← hkept, List.map_reverse, ← List.map_reverse, List.dropWhile_map]
      rfl
    unfold significant
    rw [hbytes]
    simp only [hdrop]
    rw [List.length_map, List.length_map, hsplit, List.length_append, Nat.add_sub_cancel_left]
  cases kept with
  | nil =>
      -- the first digit is not a zero
      rw [List.nil_append, hcs] at hsplit
      exact absurd (hzeros _ (hsplit ▸ List.mem_cons_self)) hfirst
  | cons c more =>
      have hc : c = d.digitChar := by
        rw [hcs, List.cons_append] at hsplit
        exact (List.cons.inj hsplit).1.symm
      refine ⟨c, more, zeros.length, ?_, hc ▸ hfirst, by rw [← hreplicate]; exact hsplit⟩
      rw [hsignificant, encode_decimal fun c' hc' => hall c' (hsplit ▸ List.mem_append_left _ hc')]

/-! ## Layouts -/

namespace FloatFormat

lemma encode_zeros (k : Nat) : Utf8.encode (List.replicate k '0') = List.replicate k 0x30 := by
  rw [encode_decimal (allDecimal_zeros k), List.map_replicate]
  rfl

variable {c : Char} {more : List Char}

/-- **Scientific layout**, in characters. -/
lemma scientific_eq (h : AllDecimal (c :: more)) (point : Int) :
    scientific (Utf8.encode (c :: more)) point = Utf8.encode
      (c :: ((if more.isEmpty then [] else '.' :: more) ++ exponentChars (point - 1))) := by
  have hmore : AllDecimal more := fun c' hc' => h c' (List.mem_cons_of_mem c hc')
  have hsize : Text.ofNat (point - 1).natAbs = Utf8.encode (Nat.toDigits 10 (point - 1).natAbs) :=
    Text.ofNat_eq _
  have hlength : (Text.ofNat (point - 1).natAbs).length
      = (Nat.toDigits 10 (point - 1).natAbs).length := by
    rw [hsize]
    exact length_encode_toDigits (by omega) (by omega) _
  have hsome := Nat.length_toDigits_pos (b := 10) (n := (point - 1).natAbs)
  -- the two parts of the text: the digits, and the exponent padded to two digits
  obtain ⟨lead, hlead, hwhole⟩ : ∃ lead,
      lead = Utf8.encode (c :: (if more.isEmpty then [] else '.' :: more)) ∧
        scientific (Utf8.encode (c :: more)) point
          = lead ++ Text.ofString (if point - 1 < 0 then "e-" else "e+")
            ++ (if (Text.ofNat (point - 1).natAbs).length < 2
              then Text.ofString "0" ++ Text.ofNat (point - 1).natAbs
              else Text.ofNat (point - 1).natAbs) := by
    refine ⟨_, ?_, rfl⟩
    cases more with
    | nil =>
        have hnil : (if ([] : List Char).isEmpty then [] else ['.']) = [] := rfl
        rw [hnil, encode_decimal h]
        rfl
    | cons c' more' =>
        have hcons : Utf8.encode (c :: (if (c' :: more').isEmpty then [] else '.' :: c' :: more'))
            = Utf8.encode [c] ++ (Text.ofString "." ++ Utf8.encode (c' :: more')) := by
          rw [← List.singleton_append, Utf8.encode_append]
          rfl
        have hone : AllDecimal [c] := fun c'' hc'' => h c'' (by simp_all)
        rw [hcons, encode_decimal h, encode_decimal hmore, encode_decimal hone]
        rfl
  have htail : Text.ofString (if point - 1 < 0 then "e-" else "e+")
      ++ (if (Text.ofNat (point - 1).natAbs).length < 2
        then Text.ofString "0" ++ Text.ofNat (point - 1).natAbs else Text.ofNat (point - 1).natAbs)
      = Utf8.encode (exponentChars (point - 1)) := by
    have hsign : Text.ofString (if point - 1 < 0 then "e-" else "e+")
        = Utf8.encode ['e', if point - 1 < 0 then '-' else '+'] := by split <;> rfl
    have hpad : (if (Text.ofNat (point - 1).natAbs).length < 2
        then Text.ofString "0" ++ Text.ofNat (point - 1).natAbs else Text.ofNat (point - 1).natAbs)
        = Utf8.encode (List.replicate (2 - (Nat.toDigits 10 (point - 1).natAbs).length) '0'
          ++ Nat.toDigits 10 (point - 1).natAbs) := by
      rw [hlength, hsize, Utf8.encode_append, encode_zeros]
      split
      · rw [show 2 - (Nat.toDigits 10 (point - 1).natAbs).length = 1 by omega]
        rfl
      · rw [show 2 - (Nat.toDigits 10 (point - 1).natAbs).length = 0 by omega]
        rfl
    rw [hsign, hpad, ← Utf8.encode_append]
    rfl
  rw [hwhole, List.append_assoc, htail, hlead, ← Utf8.encode_append, List.cons_append]

/-- **Positional layout**, in characters. -/
lemma positional_eq {cs : List Char} (h : AllDecimal cs) (hne : cs ≠ []) (point : Int) :
    positional (Utf8.encode cs) point = Utf8.encode
      (if point ≤ 0 then '0' :: '.' :: (List.replicate (-point).toNat '0' ++ cs)
        else if cs.length ≤ point.toNat then cs ++ List.replicate (point.toNat - cs.length) '0'
        else cs.take point.toNat ++ '.' :: cs.drop point.toNat) := by
  have hlength : (Utf8.encode cs).length = cs.length := by rw [encode_decimal h, List.length_map]
  have hempty : (Utf8.encode cs).isEmpty = false := by
    rw [encode_decimal h]
    simpa using hne
  have htake : (Utf8.encode cs).take point.toNat = Utf8.encode (cs.take point.toNat) := by
    rw [encode_decimal h, encode_decimal fun c hc => h c (List.mem_of_mem_take hc), List.map_take]
  have hdrop : (Utf8.encode cs).drop point.toNat = Utf8.encode (cs.drop point.toNat) := by
    rw [encode_decimal h, encode_decimal fun c hc => h c (List.mem_of_mem_drop hc), List.map_drop]
  simp only [positional, hempty, hlength, htake, hdrop, Bool.false_eq_true, if_false]
  split
  · rw [← encode_zeros, List.append_assoc, ← Utf8.encode_append]
    rfl
  split
  · rw [← encode_zeros, ← Utf8.encode_append]
  · rw [List.append_assoc, Utf8.encode_append]
    rfl

/-- **Where the digits go**: the layouts keep them, and the zeros they add are counted. -/
lemma exists_layout (point : Int) (h : AllDecimal (c :: more)) (hc : c ≠ '0')
    (hpoint : point.natAbs < 9999) :
    ∃ whole frac e, (if point - 1 < -4 || 6 ≤ point - 1 then scientific (Utf8.encode (c :: more)) point
        else positional (Utf8.encode (c :: more)) point) = Utf8.encode (literalChars whole frac e)
      ∧ AllDecimal whole ∧ whole ≠ [] ∧ AllDecimal frac ∧ (e.getD 0).natAbs < 10000
      ∧ ∃ z, (whole ++ frac).dropWhile (· == '0') = c :: (more ++ List.replicate z '0')
        ∧ e.getD 0 - frac.length + z = point - (more.length + 1) := by
  have hdrop : (c :: more).dropWhile (· == '0') = c :: more := by simp [hc]
  split
  · have hmore : AllDecimal more := fun c' hc' => h c' (List.mem_cons_of_mem c hc')
    have hone : AllDecimal [c] := fun c' hc' => h c' (by simp_all)
    refine ⟨[c], more, some (point - 1), scientific_eq h point, hone, by simp, hmore, ?_, 0, ?_, ?_⟩
    · simp only [Option.getD_some]
      omega
    · simpa using hdrop
    · simp only [Option.getD_some]
      omega
  rw [positional_eq h (by simp)]
  split
  · refine ⟨['0'], List.replicate (-point).toNat '0' ++ c :: more, none, ?_, ?_, by simp, ?_, by simp,
      0, ?_, ?_⟩
    · simp [literalChars, exponentTail]
    · exact allDecimal_zeros 1
    · exact (allDecimal_zeros _).append h
    · simp [hc]
    · simp only [Option.getD_none, List.length_append, List.length_replicate, List.length_cons]
      omega
  split
  · next hlength =>
      refine ⟨c :: more ++ List.replicate (point.toNat - (c :: more).length) '0', [], none, ?_, ?_,
        by simp, ?_, by simp, point.toNat - (c :: more).length, ?_, ?_⟩
      · simp [literalChars, exponentTail]
      · exact h.append (allDecimal_zeros _)
      · simp [AllDecimal]
      · simp [hc]
      · simp only [Option.getD_none, List.length_nil, List.length_cons] at hlength ⊢
        omega
  · next hlength =>
      have hsome : (c :: more).drop point.toNat ≠ [] := by
        rw [ne_eq, List.drop_eq_nil_iff]
        exact hlength
      refine ⟨(c :: more).take point.toNat, (c :: more).drop point.toNat, none, ?_, ?_, ?_, ?_,
        by simp, 0, ?_, ?_⟩
      · simp only [literalChars, List.isEmpty_iff, if_neg hsome, exponentTail, List.append_nil]
      · exact fun c' hc' => h c' (List.mem_of_mem_take hc')
      · rw [ne_eq, List.take_eq_nil_iff]
        simp only [reduceCtorEq, or_false]
        omega
      · exact fun c' hc' => h c' (List.mem_of_mem_drop hc')
      · rw [List.take_append_drop]
        simpa using hdrop
      · simp only [Option.getD_none, List.length_drop, List.length_cons] at hlength ⊢
        omega

/-- The formats in use are narrow enough for the search of the shortest decimal. -/
structure Narrow (f : FloatFormat) : Prop where
  mantissa : 2 ^ (f.fractionBits + 1) ≤ 2 ^ 53
  least : -1100 ≤ f.leastScale
  most : f.leastScale + 2 ^ f.exponentBits ≤ 1000
  wide : 0 < f.exponentBits

lemma narrow_single : Narrow single := ⟨by decide, by decide, by decide, by decide⟩

lemma narrow_double : Narrow double := ⟨by decide, by decide, by decide, by decide⟩

/-- The sign and the rest of the bits. -/
lemma sign_magnitude {f : FloatFormat} {bits : Nat}
    (h : bits < 2 ^ (f.fractionBits + f.exponentBits + 1)) :
    (if f.negative bits then f.negate (bits % 2 ^ (f.fractionBits + f.exponentBits))
      else bits % 2 ^ (f.fractionBits + f.exponentBits)) = bits := by
  simp only [negative, negate, Nat.pow_eq, beq_iff_eq]
  have hsplit := Nat.div_add_mod bits (2 ^ (f.fractionBits + f.exponentBits))
  have htwo : bits / 2 ^ (f.fractionBits + f.exponentBits) < 2 := by
    rw [Nat.div_lt_iff_lt_mul (Nat.pow_pos (by omega))]
    rwa [pow_succ, mul_comm] at h
  generalize bits / 2 ^ (f.fractionBits + f.exponentBits) = sign at *
  split
  · next hsign =>
      have : sign = 1 := by omega
      subst this
      omega
  · next hsign =>
      have : sign = 0 := by omega
      subst this
      omega

/-- **The text of a finite float**: a number, which is read as the same bits. -/
theorem exists_general {f : FloatFormat} (hf : Narrow f) {bits : Nat} (hbits : f.IsFinite bits) :
    ∃ cs, f.general bits = Utf8.encode cs ∧ Token.IsNumber cs ∧ float? f cs = some bits := by
  obtain ⟨hbits, m, q, lowest, h⟩ := hbits
  obtain ⟨hfits, hlowest, hmost, hpack⟩ := classify_finite h
  have hgeneral : f.general bits = (if f.negative bits then Text.ofString "-" else [])
      ++ (if (Shortest.digits m q lowest).2 - 1 < -4 || 6 ≤ (Shortest.digits m q lowest).2 - 1
        then scientific (Shortest.digits m q lowest).1 (Shortest.digits m q lowest).2
        else positional (Shortest.digits m q lowest).1 (Shortest.digits m q lowest).2) := by
    unfold general
    simp only [h]
    split <;> rfl
  suffices hlayout : ∃ whole frac e,
      (if (Shortest.digits m q lowest).2 - 1 < -4 || 6 ≤ (Shortest.digits m q lowest).2 - 1
        then scientific (Shortest.digits m q lowest).1 (Shortest.digits m q lowest).2
        else positional (Shortest.digits m q lowest).1 (Shortest.digits m q lowest).2)
        = Utf8.encode (literalChars whole frac e)
      ∧ AllDecimal whole ∧ whole ≠ [] ∧ AllDecimal frac ∧ (e.getD 0).natAbs < 10000
      ∧ nearestDecimal? f (decimalValue ((whole ++ frac).dropWhile (· == '0')))
        (e.getD 0 - frac.length) ((whole ++ frac).dropWhile (· == '0')).length
        = some (bits % 2 ^ (f.fractionBits + f.exponentBits)) by
    obtain ⟨whole, frac, e, htext, hwhole, hne, hfrac, he, hnearest⟩ := hlayout
    refine ⟨signed (f.negative bits) (literalChars whole frac e), ?_, ?_, ?_⟩
    · rw [hgeneral, htext, signed, Utf8.encode_append]
      split <;> rfl
    · exact isNumber_signed hwhole hne hfrac
    · rw [float?_signed hwhole hne hfrac he, hnearest, Option.map_some, sign_magnitude hbits]
  rcases Nat.eq_zero_or_pos m with rfl | hm
  · have hzero : bits % 2 ^ (f.fractionBits + f.exponentBits) = 0 := by
      simp only [pack?, Nat.two_pow_pos, if_true] at hpack
      split at hpack <;> simp_all
    refine ⟨['0'], [], none, rfl, allDecimal_zeros 1, by simp, by simp [AllDecimal], by simp, ?_⟩
    rw [hzero]
    rfl
  have hm' : m < 2 ^ 53 := lt_of_lt_of_le hfits.mantissa hf.mantissa
  have hq : -1100 ≤ q := le_trans hf.least hfits.least
  have hq' : q ≤ 1000 := le_trans (le_of_lt hmost) hf.most
  have hcontains : (Shortest.Interval.of m q lowest).Contains
      ((Shortest.decimal m q lowest).1 * 10 ^ (Shortest.decimal m q lowest).2) :=
    Shortest.decimal_contains hm hm' hq hq'
  have hdigits : Shortest.digits m q lowest = ((Shortest.significant (Shortest.decimal m q lowest).1).1,
      ((Shortest.significant (Shortest.decimal m q lowest).1).1.length
        + (Shortest.significant (Shortest.decimal m q lowest).1).2 + (Shortest.decimal m q lowest).2)) := by
    unfold Shortest.digits
    rw [if_neg (by simp; omega)]
  generalize Shortest.decimal m q lowest = d at hcontains hdigits
  obtain ⟨n, k⟩ := d
  have hn : 0 < n := by
    obtain ⟨hlow, -, -⟩ := hcontains.of hm
    have hone : (1 : ℚ) ≤ m := by exact_mod_cast hm
    rw [Nat.pos_iff_ne_zero]
    rintro rfl
    split at hlow <;> norm_num at hlow <;> linarith
  obtain ⟨c, more, z, hsignificant, hc, hn'⟩ := Shortest.exists_significant hn
  have hall : AllDecimal (c :: more) := fun c' hc' =>
    allDecimal_toDigits n c' (hn' ▸ List.mem_append_left _ hc')
  have hlength : (Utf8.encode (c :: more)).length = more.length + 1 := by
    rw [encode_decimal hall, List.length_map, List.length_cons]
  rw [hdigits, hsignificant]
  simp only [hlength]
  have hvalue : (n : ℚ) = decimalValue (c :: more) * 10 ^ z := by
    have := decimalValue_toDigits n
    rw [hn', decimalValue_append, decimalValue_zeros, List.length_replicate] at this
    exact_mod_cast this.symm
  have hscaled : (n : ℚ) * 10 ^ k = decimalValue (c :: more) * 10 ^ ((z : Int) + k) := by
    rw [hvalue, zpow_add₀ (by norm_num), zpow_natCast, mul_assoc]
  rw [hscaled] at hcontains
  obtain ⟨hlow, hhigh⟩ := decimalValue_bounds hall hc
  obtain ⟨hleast, hgreatest⟩ := exponent_bounds hm hm' hq hq' hlow hhigh hcontains
  obtain ⟨whole, frac, e, htext, hwhole, hne, hfrac, he, z', hdrop, hscale⟩ :=
    exists_layout (((more.length + 1 : Nat) : Int) + z + k) hall hc (by push_cast; omega)
  refine ⟨whole, frac, e, htext, hwhole, hne, hfrac, he, ?_⟩
  have hall' : AllDecimal (c :: (more ++ List.replicate z' '0')) := hall.append (allDecimal_zeros z')
  obtain ⟨hlow', hhigh'⟩ := decimalValue_bounds hall' hc
  rw [hdrop, ← hpack]
  refine nearestDecimal?_of_contains hm hm' hq hq' hfits hlowest hlow' hhigh' ?_
  convert hcontains using 1
  rw [← List.cons_append, decimalValue_append, decimalValue_zeros, List.length_replicate]
  push_cast
  rw [add_zero, mul_assoc, ← zpow_natCast, ← zpow_add₀ (by norm_num)]
  congr 2
  push_cast at hscale ⊢
  omega

/-! ## The floats that are read -/

/-- The bits below those of the infinity are finite, with either sign. -/
lemma isFinite_of_lt {f : FloatFormat} {bits : Nat} (h : bits < f.topExponent * 2 ^ f.fractionBits)
    (neg : Bool) : f.IsFinite (if neg then f.negate bits else bits) := by
  have htop : f.topExponent < 2 ^ f.exponentBits := Nat.sub_one_lt (Nat.two_pow_pos _).ne'
  have hwidth : bits < 2 ^ (f.fractionBits + f.exponentBits) := by
    rw [pow_add, mul_comm]
    exact lt_trans h (Nat.mul_lt_mul_of_pos_right htop (Nat.two_pow_pos _))
  have hexponent : f.exponent (if neg then f.negate bits else bits) = bits / 2 ^ f.fractionBits := by
    have hlt : bits / 2 ^ f.fractionBits < 2 ^ f.exponentBits :=
      lt_trans (Nat.div_lt_of_lt_mul (by rwa [mul_comm])) htop
    cases neg with
    | false => simp only [exponent, Nat.pow_eq, Bool.false_eq_true, if_false, Nat.mod_eq_of_lt hlt]
    | true =>
        simp only [exponent, negate, Nat.pow_eq, if_true]
        rw [pow_add, Nat.add_mul_div_left _ _ (Nat.two_pow_pos _), Nat.add_mod_right,
          Nat.mod_eq_of_lt hlt]
  constructor
  · rw [pow_succ]
    simp only [negate, Nat.pow_eq]
    split <;> omega
  · unfold classify
    simp only [hexponent]
    have hne : bits / 2 ^ f.fractionBits ≠ f.topExponent :=
      Nat.ne_of_lt (Nat.div_lt_of_lt_mul (by rwa [mul_comm]))
    rw [if_neg (by simpa using hne)]
    split <;> exact ⟨_, _, _, rfl⟩

lemma pack?_lt {f : FloatFormat} {m bits : Nat} {q : Int} (h : f.pack? m q = some bits) :
    bits < f.topExponent * 2 ^ f.fractionBits := by
  unfold pack? at h
  generalize (if m < 2 ^ f.fractionBits then 0 else (q - f.leastScale).toNat + 1) = e at h
  simp only [Option.ite_none_left_eq_some, Option.some.injEq, not_le] at h
  obtain ⟨htop, rfl⟩ := h
  have hrest := Nat.mod_lt m (Nat.two_pow_pos f.fractionBits)
  have hstep := Nat.mul_le_mul_right (2 ^ f.fractionBits) (Nat.succ_le_of_lt htop)
  rw [Nat.succ_mul] at hstep
  omega

lemma nearest?_lt {f : FloatFormat} {num den bits : Nat} (hnum : 0 < num) (hden : 0 < den)
    (h : f.nearest? num den = some bits) : bits < f.topExponent * 2 ^ f.fractionBits := by
  obtain ⟨q, n, d, -, -, -, hnearest⟩ := nearest?_eq f hnum hden
  rw [hnearest] at h
  split at h <;> exact pack?_lt h

/-- **What is read is finite.** -/
theorem isFinite_of_float? {f : FloatFormat} (hf : Narrow f) {cs : List Char} {bits : Nat}
    (h : float? f cs = some bits) : f.IsFinite bits := by
  have hpos : 0 < f.topExponent * 2 ^ f.fractionBits := by
    refine Nat.mul_pos ?_ (Nat.two_pow_pos _)
    have := Nat.one_lt_two_pow (Nat.ne_of_gt hf.wide)
    simp only [topExponent, Nat.pow_eq]
    omega
  have hdecimal : ∀ {c : Nat} {s : Int} {n bits : Nat}, nearestDecimal? f c s n = some bits →
      bits < f.topExponent * 2 ^ f.fractionBits := by
    intro c s n bits h
    unfold nearestDecimal? at h
    split at h
    · cases h
      exact hpos
    next hc =>
    have hc : 0 < c := Nat.pos_of_ne_zero (by simpa using hc)
    split at h
    · cases h
    split at h
    · cases h
      exact hpos
    split at h
    · exact nearest?_lt (Nat.mul_pos hc (Nat.pow_pos (by omega))) (by omega) h
    · exact nearest?_lt hc (Nat.pow_pos (by omega)) h
  rw [float?_eq] at h
  simp only at h
  split at h
  · cases h
  split at h
  · cases h
  split at h
  · cases h
  · next hbits =>
      cases h
      exact isFinite_of_lt (hdecimal hbits) _

end FloatFormat

end Suspension
