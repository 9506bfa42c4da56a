import TypedSexp.Converter.Basic
import TypedSexp.Derivation.Basic
/-!
# What conversions run in

Reading and writing are the same steps whether a link is looked up or derived on the way. A
`Carrier` is what the steps run in: it has outcomes that are known, and an error can be seen from
further out.
-/

namespace TypedSexp

/-- Computations in which a conversion can run. -/
class Carrier (M : Type → Type → Type) [∀ ε, Monad (M ε)] where
  outcome : {ε α : Type} → Except ε α → M ε α
  mapError : {ε ε' α : Type} → (ε → ε') → M ε α → M ε' α

export Carrier (outcome)

/-- Outcomes alone. -/
instance : Carrier Except where
  outcome x := x
  mapError f x := x.mapError f

/-- Outcomes beside what is remembered. -/
instance : Carrier Remembering where
  outcome x d := (x, d)
  mapError f x d := ((x d).1.mapError f, (x d).2)

/-- In outcomes alone a known outcome is itself. -/
@[simp] theorem outcome_except {ε α : Type} (x : Except ε α) : outcome (M := Except) x = x := rfl

@[simp] theorem Carrier.mapError_except {ε ε' α : Type} (f : ε → ε') (x : Except ε α) :
    Carrier.mapError (M := Except) f x = x.mapError f := rfl

end TypedSexp
