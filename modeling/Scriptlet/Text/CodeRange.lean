/-!
# Ranges of code points

The character standard gives its properties as tables. A table here lists the maximal **ranges** of
code points that have a property, in increasing order, both ends included.
-/

namespace Scriptlet

/-- Ranges of code points, both ends included. -/
abbrev CodeRanges := List (Nat × Nat)

/-- Whether a character lies in one of some ranges. -/
def CodeRanges.has (ranges : CodeRanges) (c : Char) : Bool :=
  ranges.any fun (low, high) => low ≤ c.toNat && c.toNat ≤ high

end Scriptlet
