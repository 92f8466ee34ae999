/-!
# Binary floating point formats

A float is kept as its **bits**: constants of a class file are compared, copied and stored bit for
bit, and a not-a-number keeps its payload.  This module reads the bits as a number — a natural
mantissa times a power of two — and finds the bits nearest to a given ratio.

* `FloatFormat` — the widths of the two fields; `single` and `double` are the formats in use.
* `FloatFormat.classify` — zero, finite `m · 2^q`, infinite, or not a number.
* `FloatFormat.nearest?` — a ratio of naturals rounded to nearest, ties to even.
-/

namespace Suspension

/-- A format by the number of its fraction bits and of its exponent bits. -/
structure FloatFormat where
  fractionBits : Nat
  exponentBits : Nat
deriving DecidableEq, Repr

/-- What the bits of a float denote, sign apart.  A finite value is `mantissa · 2^scale`; `lowest`
marks the least mantissa of its binade, below which the neighbours are half as far apart. -/
inductive FloatClass where
  | finite (mantissa : Nat) (scale : Int) (lowest : Bool)
  | infinite
  | notANumber
deriving DecidableEq, Repr

namespace FloatFormat

/-- 32 bits: 23 of fraction, 8 of exponent. -/
def single : FloatFormat := ⟨23, 8⟩

/-- 64 bits: 52 of fraction, 11 of exponent. -/
def double : FloatFormat := ⟨52, 11⟩

/-- The exponent field of infinities and of not-a-number. -/
def topExponent (f : FloatFormat) : Nat := Nat.pow 2 f.exponentBits - 1

/-- The power of two that one unit of a subnormal's fraction is worth. -/
def leastScale (f : FloatFormat) : Int :=
  (2 : Int) - Nat.pow 2 (f.exponentBits - 1) - f.fractionBits

/-- The fraction field. -/
def fraction (f : FloatFormat) (bits : Nat) : Nat := bits % Nat.pow 2 f.fractionBits

/-- The exponent field. -/
def exponent (f : FloatFormat) (bits : Nat) : Nat :=
  bits / Nat.pow 2 f.fractionBits % Nat.pow 2 f.exponentBits

/-- Whether the sign bit is set. -/
def negative (f : FloatFormat) (bits : Nat) : Bool :=
  bits / Nat.pow 2 (f.fractionBits + f.exponentBits) % 2 == 1

/-- **What the bits denote.** -/
def classify (f : FloatFormat) (bits : Nat) : FloatClass :=
  let e := f.exponent bits
  let m := f.fraction bits
  if e == f.topExponent then (if m == 0 then .infinite else .notANumber)
  else if e == 0 then .finite m f.leastScale false
  else .finite (m + Nat.pow 2 f.fractionBits) (f.leastScale + (e - 1)) (m == 0 && e != 1)

/-- `num / den` in units of `2^q`, rounded down, with what remains as a ratio. -/
def inUnits (num den : Nat) (q : Int) : Nat × Nat × Nat :=
  let d := if q ≤ 0 then den else den * Nat.pow 2 q.toNat
  let n := if q ≤ 0 then num * Nat.pow 2 (-q).toNat else num
  (n / d, n % d, d)

/-- A quotient with remainder `rem` of `den`, to the nearer whole number, a tie to the even one. -/
def roundHalfEven (quot rem den : Nat) : Nat :=
  if 2 * rem < den then quot
  else if den < 2 * rem then quot + 1
  else if quot % 2 == 0 then quot
  else quot + 1

/-- **The bits nearest to a positive ratio**, sign bit clear; `none` when the ratio rounds beyond the
largest finite value. -/
def nearest? (f : FloatFormat) (num den : Nat) : Option Nat :=
  if num == 0 then some 0
  else
    let guess : Int := (num.log2 : Int) - den.log2 - 1 - f.fractionBits
    let q₀ := max f.leastScale guess
    let (m₀, _, _) := inUnits num den q₀
    let q := if Nat.pow 2 (f.fractionBits + 1) ≤ m₀ then q₀ + 1 else q₀
    let (quot, rem, d) := inUnits num den q
    let m := roundHalfEven quot rem d
    let (m, q) :=
      if m == Nat.pow 2 (f.fractionBits + 1) then (Nat.pow 2 f.fractionBits, q + 1) else (m, q)
    let e : Nat := if m < Nat.pow 2 f.fractionBits then 0 else (q - f.leastScale).toNat + 1
    if f.topExponent ≤ e then none
    else some (e * Nat.pow 2 f.fractionBits + m % Nat.pow 2 f.fractionBits)

/-- The bits with the sign bit set. -/
def negate (f : FloatFormat) (bits : Nat) : Nat :=
  bits + Nat.pow 2 (f.fractionBits + f.exponentBits)

end FloatFormat

end Suspension
