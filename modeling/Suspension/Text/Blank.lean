/-!
# Blanks

The characters between tokens: the white space of Unicode 17, line ends and U+0085 included.
-/

namespace Suspension

/-- **White space.**  Tabulators and line ends, the blank, U+0085, U+00A0, and the blanks of other
scripts. -/
def isBlank (c : Char) : Bool :=
  let n := c.toNat
  (0x09 ≤ n && n ≤ 0x0d) || n == 0x20 || n == 0x85 || n == 0xa0 || n == 0x1680
    || (0x2000 ≤ n && n ≤ 0x200a) || n == 0x2028 || n == 0x2029 || n == 0x202f
    || n == 0x205f || n == 0x3000

end Suspension
