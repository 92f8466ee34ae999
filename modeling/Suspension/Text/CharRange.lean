/-!
# Classes of characters as ranges

A property of Unicode is given by the sorted list of the code point ranges that have it.  The
tables themselves are in the modules named for their property.
-/

namespace Suspension

/-- **A class of characters**: inclusive ranges of code points, in increasing order. -/
abbrev CharRanges := List (Nat × Nat)

namespace CharRanges

/-- Whether a character is in one of the ranges.  The ranges increase, so the search ends at the
first one that starts above the character. -/
def mem (c : Char) : CharRanges → Bool
  | [] => false
  | (lo, hi) :: rest =>
    if c.toNat < lo then false
    else if c.toNat ≤ hi then true
    else mem c rest

end CharRanges

end Suspension
