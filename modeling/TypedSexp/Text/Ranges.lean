import TypedSexp.Text.Basic
/-!
# Ranges of code points

A property of Unicode is a list of ranges in increasing order. Membership looks at the ranges from
the left and stops at the first that begins above the number.
-/

namespace TypedSexp

/-- Closed ranges of numbers, in increasing order and apart. -/
abbrev Ranges := List (Nat × Nat)

/-- The number lies in one of the ranges. -/
def Ranges.mem : Ranges → Nat → Bool
  | [], _ => false
  | (first, last) :: rest, n =>
    if n < first then false else if n ≤ last then true else Ranges.mem rest n

end TypedSexp
