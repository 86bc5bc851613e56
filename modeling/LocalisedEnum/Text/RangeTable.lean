/-!
**Classes of characters given by ranges.**

A property of Unicode is a set of scalar values, written down as the list of its maximal intervals.

Main definitions:

* `inRanges` — membership in a list of intervals.
-/

set_option autoImplicit false
set_option relaxedAutoImplicit false

namespace LocalisedEnum

/-- Whether `n` lies in one of the closed intervals. -/
def inRanges (ranges : List (Nat × Nat)) (n : Nat) : Bool :=
  ranges.any fun (first, last) => first ≤ n && n ≤ last

end LocalisedEnum
