/-!
# Ranges of code points

A property of characters is a table: a list of ranges of code points, in ascending order, each with
both of its ends.
-/

namespace AlignedSlots

/-- The first and the last code point of a range. -/
abbrev CodeRange : Type := Nat × Nat

/-- A code point in one of the ranges. -/
def inRanges (ranges : List CodeRange) (code : Nat) : Bool :=
  ranges.any fun r => decide (r.1 ≤ code) && decide (code ≤ r.2)

/-- Each range ends where it starts or later, and the next one starts past a gap. -/
def isAscending : List CodeRange → Bool
  | [] => true
  | [r] => decide (r.1 ≤ r.2)
  | r :: s :: rest => decide (r.1 ≤ r.2) && decide (r.2 + 1 < s.1) && isAscending (s :: rest)

end AlignedSlots
