/-!
# Sets of code points

A set of code points written as closed ranges in ascending order, the form in which the tables of
Unicode properties are kept.
-/

namespace GoSignatures.Text

/-- Closed ranges of code points. -/
abbrev CodeRanges := Array (Nat × Nat)

/-- Whether the code point `n` lies in one of the ranges. -/
def CodeRanges.covers (ranges : CodeRanges) (n : Nat) : Bool :=
  ranges.any fun r => r.1 ≤ n && n ≤ r.2

end GoSignatures.Text
