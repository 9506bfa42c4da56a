import TypedSexp.Value.Literal
/-!
# Faults of type descriptions

A description from which no converter can be derived is refused for a stated cause.
`DescriptionFault.message` words it.
-/

namespace TypedSexp

/-- Why a description is refused. Literals show what stands where something else belongs. -/
inductive DescriptionFault where
  | notDescription (literal : Text)
  | notConverter (literal : Text)
  | notDerivable (literal : Text)
  | unknownPrimitive (name : Text)
  | unboundParameter (label : Text) (count : Nat)
  | arity (name : Text) (expected got : Nat)
  | noArguments (converter : Text)
  | undefinedType (name : Text)
  | definedTwice (name : Text)
  | nestedOption
  | dropNeedsDefault (field rule : Text)
  | dropNeedsPredicate (field : Text)
  | flagNotWritten (field : Text)
  | noDescription (field : Text)
  | absenceNotWritable (field : Text)
  | otherAbsence (field literal : Text)
  | duplicateFields (names : List Text)
  | inlineRecordExcludes (tag : Text)
  | spliceNeedsOne (tag : Text)
  | duplicateConstructor (shape tag : Text)
  | notCase
  | value (fault : ValueFault)
  | endless
deriving DecidableEq, Repr

namespace DescriptionFault

/-- The wording of a fault. -/
def message : DescriptionFault → Text
  | .notDescription literal => "expected a type descriptor, got " ++ literal
  | .notConverter literal => "Custom descriptor needs a Converter, got " ++ literal
  | .notDerivable literal => "cannot derive a converter for " ++ literal
  | .unknownPrimitive name => "unknown primitive type `" ++ name ++ "`"
  | .unboundParameter label count =>
    "type parameter " ++ label ++ " is unbound (" ++ Text.ofNat count ++ " argument(s) supplied)"
  | .arity name expected got =>
    "type `" ++ name ++ "` takes " ++ Text.ofNat expected ++ " argument(s), got " ++ Text.ofNat got
  | .noArguments converter => "converter " ++ converter ++ " takes no type arguments"
  | .undefinedType name => "type `" ++ name ++ "` is declared but has no body"
  | .definedTwice name => "type `" ++ name ++ "` is already defined"
  | .nestedOption =>
    "nested Option cannot be represented: None would be ambiguous between layers"
  | .dropNeedsDefault field rule => "field `" ++ field ++ "`: " ++ rule ++ " requires a default"
  | .dropNeedsPredicate field => "field `" ++ field ++ "`: drop_if requires a predicate"
  | .flagNotWritten field =>
    "field `" ++ field ++ "`: sexp_bool fields have no converter to compare with"
  | .noDescription field => "field `" ++ field ++ "` has no descriptor"
  | .absenceNotWritable field =>
    "field `" ++ field ++ "`: option fields need an Option descriptor or a default"
  | .otherAbsence field literal =>
    "field `" ++ field ++ "`: sexp_option fields default to None, got " ++ literal
  | .duplicateFields names =>
    "record declares a field more than once: " ++ Text.join ", " names
  | .inlineRecordExcludes tag =>
    "constructor `" ++ tag ++ "`: inline record excludes other arguments"
  | .spliceNeedsOne tag =>
    "constructor `" ++ tag ++ "`: list_args needs exactly one element type"
  | .duplicateConstructor shape tag =>
    shape ++ ": constructor `" ++ tag ++ "` declared more than once"
  | .notCase => "a constructor was expected"
  | .value fault => fault.message
  | .endless => "maximum recursion depth exceeded"

/-- The class of exception of a fault. -/
def className : DescriptionFault → Text
  | .notCase => "AttributeError"
  | .value fault => fault.className
  | .endless => "RecursionError"
  | _ => "DescriptorError"

/-- The fault of a thing that should have been something else; its literal may fail. -/
def ofLiteral (fault : Text → DescriptionFault) (v : Value) : DescriptionFault :=
  match v.literal with
  | .ok t => fault t
  | .error e => .value e

end DescriptionFault

end TypedSexp
