import Suspension.Number.FloatFormat
import Suspension.Text.Basic

/-!
# Shortest decimal text of a float

**The fewest digits that read back.**  A float stands for every real that rounds to it: an interval
around the value, whose ends belong to it exactly when the mantissa is even.  The decimal written is
the one of that interval with the fewest digits, and of those the nearest to the value, a tie to the
even last digit.

`Shortest.decimal` finds it in exact arithmetic, going down from a power of ten that is too coarse;
`Float.general` and `Float.plain` are the two ways the digits are laid out.
-/

namespace Suspension

namespace Shortest

/-- `num / den` in units of `10^k`, rounded down, with the remainder and its denominator. -/
def inTens (num den : Nat) (k : Int) : Nat × Nat × Nat :=
  let d := if k ≤ 0 then den else den * Nat.pow 10 k.toNat
  let n := if k ≤ 0 then num * Nat.pow 10 (-k).toNat else num
  (n / d, n % d, d)

/-- A float's neighbourhood in quarters of its unit: the value, the ends, and whether the ends
belong to it. -/
structure Interval where
  value : Nat
  low : Nat
  high : Nat
  closed : Bool
  /-- one quarter of a unit is `num / den` -/
  num : Nat
  den : Nat

/-- The interval of the reals that round to `m · 2^q`. -/
def Interval.of (m : Nat) (q : Int) (lowest : Bool) : Interval where
  value := 4 * m
  low := if lowest then 4 * m - 1 else 4 * m - 2
  high := 4 * m + 2
  closed := m % 2 == 0
  num := if 2 ≤ q then Nat.pow 2 (q - 2).toNat else 1
  den := if 2 ≤ q then 1 else Nat.pow 2 (2 - q).toNat

/-- Whether `n · 10^k` lies in the interval. -/
def Interval.holds (i : Interval) (n : Nat) (k : Int) : Bool :=
  let scaled := (if 0 ≤ k then n * Nat.pow 10 k.toNat else n) * i.den
  let unit := i.num * (if 0 ≤ k then 1 else Nat.pow 10 (-k).toNat)
  if i.closed then i.low * unit ≤ scaled && scaled ≤ i.high * unit
  else i.low * unit < scaled && scaled < i.high * unit

/-- The neighbour of the value on the grid of multiples of `10^k` that lies in the interval and is
nearest to the value. -/
def Interval.onGrid? (i : Interval) (k : Int) : Option Nat :=
  let (n, rem, d) := inTens (i.value * i.num) i.den k
  let below := i.holds n k
  let above := i.holds (n + 1) k
  if below && above then
    some (if 2 * rem < d then n else if d < 2 * rem then n + 1 else if n % 2 == 0 then n else n + 1)
  else if below then some n
  else if above then some (n + 1)
  else none

/-- Finer and finer grids until one has a point in the interval. -/
def search (i : Interval) : Nat → Int → Nat × Int
  | 0, k => ((inTens (i.value * i.num) i.den k).1, k)
  | fuel + 1, k =>
    match i.onGrid? k with
    | some n => (n, k)
    | none => search i fuel (k - 1)

/-- **The shortest decimal** `n · 10^k` that reads back as the positive value `m · 2^q`.  The search
starts two powers of ten above an estimate of the value's own; a double needs at most 17 digits. -/
def decimal (m : Nat) (q : Int) (lowest : Bool) : Nat × Int :=
  let estimate : Int := ((m.log2 + q) * 1233) / 4096
  search (.of m q lowest) 24 (estimate + 2)

/-- The digits of a coefficient without the zeros at its end, and how many those were. -/
def significant (n : Nat) : Text × Nat :=
  let digits := Text.ofNat n
  let kept := (digits.reverse.dropWhile (· == 0x30)).reverse
  (kept, digits.length - kept.length)

/-- The digits of a finite value and the place of its decimal point, counted from the first digit;
zero has no digits. -/
def digits (m : Nat) (q : Int) (lowest : Bool) : Text × Int :=
  if m == 0 then ([], 0)
  else
    let (n, k) := decimal m q lowest
    let (ds, zeros) := significant n
    (ds, ds.length + zeros + k)

end Shortest

namespace FloatFormat

/-- One digit before the point and an exponent of at least two digits: `1.5e+07`. -/
def scientific (digits : Text) (point : Int) : Text :=
  let e := point - 1
  let size := Text.ofNat e.natAbs
  let lead := match digits with
    | [] => Text.ofString "0"
    | [d] => [d]
    | d :: rest => d :: (Text.ofString "." ++ rest)
  lead ++ Text.ofString (if e < 0 then "e-" else "e+")
    ++ (if size.length < 2 then Text.ofString "0" ++ size else size)

/-- All digits with the point where it belongs: `150`, `0.0015`. -/
def positional (digits : Text) (point : Int) : Text :=
  if point ≤ 0 then
    Text.ofString "0" ++
      (if digits.isEmpty then []
       else Text.ofString "." ++ List.replicate (-point).toNat 0x30 ++ digits)
  else
    let p := point.toNat
    if digits.length ≤ p then digits ++ List.replicate (p - digits.length) 0x30
    else digits.take p ++ Text.ofString "." ++ digits.drop p

/-- **General layout.**  Positional for exponents from -4 to 5, else scientific. -/
def general (f : FloatFormat) (bits : Nat) : Text :=
  let sign := if f.negative bits then Text.ofString "-" else []
  match f.classify bits with
  | .notANumber => "NaN"
  | .infinite => if f.negative bits then "-Inf" else "+Inf"
  | .finite m q lowest =>
    let (ds, point) := Shortest.digits m q lowest
    if point - 1 < -4 || 6 ≤ point - 1 then sign ++ scientific ds point
    else sign ++ positional ds point

/-- The whole number that a finite value is equal to, if there is one. -/
def whole? (m : Nat) (q : Int) : Option Nat :=
  if 0 ≤ q then some (m * Nat.pow 2 q.toNat)
  else if m % Nat.pow 2 (-q).toNat == 0 then some (m / Nat.pow 2 (-q).toNat)
  else none

/-- **Printed layout.**  A whole number below ten million has one decimal, `3.0`; everything else is
laid out generally. -/
def printed (f : FloatFormat) (bits : Nat) : Text :=
  let sign := if f.negative bits then Text.ofString "-" else []
  match f.classify bits with
  | .finite m q _ =>
    match whole? m q with
    | some n => if n < 10000000 then sign ++ Text.ofNat n ++ Text.ofString ".0" else f.general bits
    | none => f.general bits
  | _ => f.general bits

end FloatFormat

end Suspension
