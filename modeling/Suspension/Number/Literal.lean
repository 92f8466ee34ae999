import Suspension.Number.FloatFormat
import Suspension.Text.Basic

/-!
# Number literals

The numbers of assembler text.  Underscores are dropped before a literal is read.

* Integers: an optional sign, then `0x`, `0b` or `0o` with digits of that base, or octal digits
  after a leading `0`, or decimal digits; the value must fit the width asked for.
* Floats: an optional sign, decimal digits with an optional point, an optional exponent; the nearest
  float is meant, and a literal beyond the largest one is refused.

`Literal.separated` reads the integers of a command line, in which an underscore has to stand between
digits, and says what is wrong with one that is refused.
-/

namespace Suspension

namespace Literal

/-- The value of a digit in the bases up to 16. -/
def digit? (c : Char) : Option Nat :=
  if '0' ≤ c && c ≤ '9' then some (c.toNat - '0'.toNat)
  else if 'a' ≤ c && c ≤ 'z' then some (c.toNat - 'a'.toNat + 10)
  else if 'A' ≤ c && c ≤ 'Z' then some (c.toNat - 'A'.toNat + 10)
  else none

/-- The number that digits of a base denote, continuing from `acc`. -/
def ofDigits? (base : Nat) : Nat → List Char → Option Nat
  | acc, [] => some acc
  | acc, c :: rest =>
    match digit? c with
    | some d => if d < base then ofDigits? base (acc * base + d) rest else none
    | none => none

/-- **An unsigned whole number**, of any size. -/
def natural? (cs : List Char) : Option Nat :=
  match cs with
  | [] => none
  | '0' :: m :: d :: rest =>
    if m == 'x' || m == 'X' then ofDigits? 16 0 (d :: rest)
    else if m == 'b' || m == 'B' then ofDigits? 2 0 (d :: rest)
    else if m == 'o' || m == 'O' then ofDigits? 8 0 (d :: rest)
    else ofDigits? 8 0 (m :: d :: rest)
  | '0' :: rest => ofDigits? 8 0 rest
  | _ => ofDigits? 10 0 cs

/-- The sign in front of a literal and the rest. -/
def splitSign (cs : List Char) : Bool × List Char :=
  match cs with
  | '+' :: rest => (false, rest)
  | '-' :: rest => (true, rest)
  | _ => (false, cs)

/-- A literal without its underscores. -/
def dropUnderscores (cs : List Char) : List Char := cs.filter (· != '_')

/-- **A signed integer** of the given width in bits. -/
def integer? (width : Nat) (literal : List Char) : Option Int :=
  let (neg, cs) := splitSign (dropUnderscores literal)
  match natural? cs with
  | none => none
  | some n =>
    if neg then (if n ≤ Nat.pow 2 (width - 1) then some (-(n : Int)) else none)
    else (if n < Nat.pow 2 (width - 1) then some n else none)

/-- An unsigned number of the given width in bits; it has no sign. -/
def unsigned? (width : Nat) (literal : List Char) : Option Nat :=
  match natural? (dropUnderscores literal) with
  | none => none
  | some n => if n < Nat.pow 2 width then some n else none

/-! ## Integers with separators -/

/-- What is wrong with a numeral. -/
inductive NumeralFault where
  | malformed
  | outOfRange
deriving DecidableEq, Repr

/-- The wording of what is wrong with a numeral. -/
def NumeralFault.message : NumeralFault → Text
  | malformed => "invalid syntax"
  | outOfRange => "value out of range"

/-- The number that digits of a base denote, continuing from `acc`; whatever follows the digit that
takes it beyond 64 bits is not looked at. -/
def boundedDigits (base : Nat) : Nat → List Char → Except NumeralFault Nat
  | acc, [] => .ok acc
  | acc, c :: rest =>
    match digit? c with
    | none => .error .malformed
    | some d =>
      if base ≤ d then .error .malformed
      else if Nat.pow 2 64 ≤ acc * base + d then .error .outOfRange
      else boundedDigits base (acc * base + d) rest

/-- The base that the beginning of a numeral announces, and its digits. -/
def splitBase (cs : List Char) : Nat × List Char :=
  match cs with
  | '0' :: m :: d :: rest =>
    if m == 'x' || m == 'X' then (16, d :: rest)
    else if m == 'b' || m == 'B' then (2, d :: rest)
    else if m == 'o' || m == 'O' then (8, d :: rest)
    else (8, m :: d :: rest)
  | '0' :: rest => (8, rest)
  | _ => (10, cs)

/-- Whether every underscore has a digit after it and no other underscore before it. -/
def isSeparated : List Char → Bool
  | [] => true
  | ['_'] => false
  | '_' :: c :: rest => c != '_' && isSeparated (c :: rest)
  | _ :: rest => isSeparated rest

/-- **An integer of 64 bits with underscores between its digits.** -/
def separated (literal : List Char) : Except NumeralFault Int :=
  let (neg, cs) := splitSign literal
  if cs.isEmpty then .error .malformed
  else
    let (base, digits) := splitBase cs
    match boundedDigits base 0 (dropUnderscores digits) with
    | .error e => .error e
    | .ok n =>
      if cs.head? == some '_' || !isSeparated cs then .error .malformed
      else if neg then (if n ≤ Nat.pow 2 63 then .ok (-(n : Int)) else .error .outOfRange)
      else (if n < Nat.pow 2 63 then .ok n else .error .outOfRange)

/-! ## Floats -/

/-- Whether a character is one of the ten ASCII digits. -/
def isDecimal (c : Char) : Bool := '0' ≤ c && c ≤ '9'

/-- Digits at the front, and the rest. -/
def spanDecimal (cs : List Char) : List Char × List Char := cs.span isDecimal

/-- The value of decimal digits. -/
def decimalValue (cs : List Char) : Nat :=
  cs.foldl (fun acc c => acc * 10 + (c.toNat - '0'.toNat)) 0

/-- An exponent's digits as a number; beyond five digits further ones no longer count, since the
value is out of range either way. -/
def exponentValue (cs : List Char) : Nat :=
  cs.foldl (fun acc c => if acc < 10000 then acc * 10 + (c.toNat - '0'.toNat) else acc) 0

/-- The exponent part of a float literal: absent, or `e`, a sign and at least one digit, up to the
end of the literal. -/
def exponent? (cs : List Char) : Option Int :=
  match cs with
  | [] => some 0
  | e :: rest =>
    if e == 'e' || e == 'E' then
      let (neg, rest) := splitSign rest
      let (ds, tail) := spanDecimal rest
      if ds.isEmpty || !tail.isEmpty then none
      else some (if neg then -(exponentValue ds : Int) else exponentValue ds)
    else none

/-- The nearest float to `coefficient · 10^scale`, when that is in range.  Far outside the range of
every format the answer does not need the power of ten. -/
def nearestDecimal? (f : FloatFormat) (coefficient : Nat) (scale : Int) (length : Nat) :
    Option Nat :=
  if coefficient == 0 then some 0
  else if 400 < length + scale then none
  else if length + scale < -400 then some 0
  else if 0 ≤ scale then f.nearest? (coefficient * Nat.pow 10 scale.toNat) 1
  else f.nearest? coefficient (Nat.pow 10 (-scale).toNat)

/-- **A float literal** as the bits of the nearest float. -/
def float? (f : FloatFormat) (literal : List Char) : Option Nat :=
  let (neg, cs) := splitSign (dropUnderscores literal)
  let (whole, rest) := spanDecimal cs
  let (frac, rest) := match rest with
    | '.' :: more => spanDecimal more
    | _ => ([], rest)
  if whole.isEmpty && frac.isEmpty then none
  else
    match exponent? rest with
    | none => none
    | some e =>
      let ds := (whole ++ frac).dropWhile (· == '0')
      match nearestDecimal? f (decimalValue ds) (e - frac.length) ds.length with
      | none => none
      | some bits => some (if neg then f.negate bits else bits)

end Literal

end Suspension
