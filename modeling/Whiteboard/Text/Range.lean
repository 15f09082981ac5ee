/-!
# Character ranges

Classes of characters given as lists of code point intervals, in ascending order.
-/

namespace Whiteboard.Text

/-- Whether one of the closed intervals holds the character's code point. -/
def inRanges (ranges : List (Nat × Nat)) (c : Char) : Bool :=
  ranges.any fun (low, high) => low ≤ c.toNat && c.toNat ≤ high

end Whiteboard.Text
