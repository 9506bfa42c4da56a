import TypedSexp.Text.Basic
/-!
# Digits

ASCII digits and letters as digits of a base, and the number that a row of digits stands for.
-/

namespace TypedSexp.Digit

/-- The value of an ASCII digit or letter as a digit of a base. -/
def value? (base : Nat) (c : CodePoint) : Option Nat :=
  let n := c.val
  let d? : Option Nat :=
    if 48 ≤ n ∧ n ≤ 57 then some (n - 48)
    else if 97 ≤ n ∧ n ≤ 102 then some (n - 87)
    else if 65 ≤ n ∧ n ≤ 70 then some (n - 55)
    else none
  d?.filter (· < base)

/-- An ASCII decimal digit. -/
def isDigit (c : CodePoint) : Bool := (value? 10 c).isSome

/-- The number that the digits of a text stand for; what is no digit is skipped. -/
def positional (base : Nat) (t : Text) : Nat :=
  (t.filterMap (value? base)).foldl (fun acc d => acc * base + d) 0

end TypedSexp.Digit
