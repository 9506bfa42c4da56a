import TypedSexp.Number.Decimal
/-!
# Rounding to the numbers of a format
-/

namespace TypedSexp

/-- The format has the magnitude `m · 2 ^ e`, in the form in which it is kept: the significand is
full or the exponent is least. -/
structure Format.Has (f : Format) (m : Nat) (e : Int) : Prop where
  significand : m < Nat.pow 2 f.precision
  least : f.leastExponent ≤ e
  greatest : e ≤ f.greatestExponent
  full : Nat.pow 2 (f.precision - 1) ≤ m ∨ e = f.leastExponent

/-- The number is kept in its form. -/
def Binary64.IsCanonical : Binary64 → Prop
  | .finite _ m e => binary64.Has m e
  | _ => True

end TypedSexp
