/-!
Membership of a code point in a table of ranges.
-/

namespace JavaAtlas.Text

/-- Whether `n` lies in one of the closed ranges, which are given in ascending order. -/
def inRanges : List (Nat × Nat) → Nat → Bool
  | [], _ => false
  | (lo, hi) :: rest, n => if n < lo then false else n ≤ hi || inRanges rest n

end JavaAtlas.Text
