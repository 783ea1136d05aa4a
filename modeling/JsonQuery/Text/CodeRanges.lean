/-!
Sets of characters given as sorted lists of closed code ranges.
-/

namespace JsonQuery.CodeRanges

/-- Whether a code lies in one of the ranges. The ranges are sorted, so the search stops at the
first one that begins beyond the code. -/
def contains : List (Nat × Nat) → Nat → Bool
  | [], _ => false
  | (first, last) :: ranges, code =>
    if code < first then false
    else if code ≤ last then true
    else contains ranges code

def ordered : List (Nat × Nat) → Bool
  | [] => true
  | [(first, last)] => first ≤ last
  | (first, last) :: (next, after) :: ranges =>
    first ≤ last && last < next && ordered ((next, after) :: ranges)

end JsonQuery.CodeRanges
