/-!
# Binary search

The place of an item in a row of items that ascend, found by halving the range in which it may be.
-/

namespace Unstack.Search

/-- Looks for a place from `low` on and before `high`, given how the item at each place compares to
the one that is wanted. -/
def bisect (order : Nat → Ordering) (low high : Nat) : Option Nat :=
  if low < high then
    let middle := low + (high - low) / 2
    match order middle with
    | .lt => bisect order (middle + 1) high
    | .eq => some middle
    | .gt => bisect order low middle
  else none
termination_by high - low
decreasing_by
  all_goals omega

end Unstack.Search
