/-!
# Character ranges

A character class is written as a list of closed ranges of code points.

Main results:

- Definition `inRanges`: membership of a character in such a list.
- Theorem `inRanges_append`: a class split into two lists is the union of both.
-/

namespace NodeFlow.Text

/-- A closed range of code points, by its first and last member. -/
abbrev Range := Nat × Nat

/-- Whether the code point of `c` lies in one of the ranges. -/
def inRanges (ranges : List Range) (c : Char) : Bool :=
  ranges.any fun r => r.1 ≤ c.toNat && c.toNat ≤ r.2

/-- A class that is split into two lists is the union of both. -/
theorem inRanges_append (xs ys : List Range) (c : Char) :
    inRanges (xs ++ ys) c = (inRanges xs c || inRanges ys c) := by
  simp [inRanges, List.any_append]

end NodeFlow.Text
