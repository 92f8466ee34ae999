import Suspension.Instrument.Point

/-!
# Protected ranges around suspension points

The code that saves and restores a frame must not be covered by the method's own handlers.  So every
protected range is **cut** at the suspension points inside it: one part ends where the saved region
begins, the other starts behind it, at the call itself, whose exceptions still reach the handler.

* `Cut` — a point's position with the labels around its saved region.
* `Cut.apply`, `Cut.applyAll` — cutting one range, cutting all of them.
-/

namespace Suspension

/-- **A suspension point as a cut**: the labels in front of and behind its saved region. -/
structure Cut where
  position : Nat
  before : Label
  after : Label
deriving DecidableEq, Repr, Inhabited

namespace Code

/-- The first position from `i` on that is not a label mark. -/
def skipMarks (code : Code) (i : Nat) : Nat :=
  i + ((code.toList.drop i).takeWhile Instruction.isMark).length

end Code

namespace Cut

/-- The position that a cut gives to its own labels. -/
def position? (c : Cut) (id : Label) : Option Nat :=
  if id == c.before || id == c.after then some c.position else none

/-- **Where a label stands**: at its cut, or at the first instruction behind its mark. -/
def labelPosition (code : Code) (cuts : List Cut) (id : Label) : Nat :=
  match cuts.findSome? (·.position? id) with
  | some i => i
  | none => ((code.labelAt? id).map code.skipMarks).getD 0

/-- **One range at one cut.**  A range that starts at the call loses the saved region; one that holds
the call further inside falls into two parts; any other is left alone. -/
def apply (position : Label → Nat) (c : Cut) (r : ExceptionRange) : List ExceptionRange :=
  let start := position r.start
  let stop := position r.stop
  if c.position < start || stop ≤ c.position then [r]
  else if start == c.position then [{ r with start := c.after }]
  else [{ r with stop := c.before }, { r with start := c.after }]

/-- **All ranges at all cuts**, the ranges in their order, each part right behind the one before it. -/
def applyAll (position : Label → Nat) (cuts : List Cut) (ranges : List ExceptionRange) :
    List ExceptionRange :=
  cuts.foldl (fun rs c => rs.flatMap (apply position c)) ranges

end Cut

end Suspension
