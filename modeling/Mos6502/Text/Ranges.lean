/-!
# Tables of characters

A class of characters that is too large to be listed one by one is a table of inclusive ranges of
code points in ascending order.
-/

namespace Mos6502.Text

/-- Membership in a table of inclusive ranges. -/
def inRanges (ranges : List (Nat × Nat)) (n : Nat) : Bool :=
  ranges.any fun r => r.1 ≤ n && n ≤ r.2

end Mos6502.Text
