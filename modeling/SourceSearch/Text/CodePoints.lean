/-!
# Sets of code points

A Unicode property is written as an ascending list of closed intervals of code points. Membership
walks the list only as far as the first interval that starts above the code point.
-/

set_option autoImplicit false

namespace SourceSearch.CodePoints

/-- Whether `n` lies in one of the intervals, which are listed in ascending order. -/
def contains : List (Nat × Nat) → Nat → Bool
  | [], _ => false
  | (first, last) :: rest, n =>
    if n < first then false else if n ≤ last then true else contains rest n

end SourceSearch.CodePoints
