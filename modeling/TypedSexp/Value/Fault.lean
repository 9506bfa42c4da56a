import TypedSexp.Text.Literal
import TypedSexp.Value.Basic
/-!
# What values cannot do

Operations on values fail for a stated cause. `ValueFault.message` words the cause, and
`ValueFault.className` names the class of exception that it belongs to.
-/

namespace TypedSexp

/-- Why an operation on a value fails. -/
inductive ValueFault where
  | notIterable (typeName : Text)
  | scalarIteration
  | noLength (typeName : Text)
  | scalarLength
  | notContainer (typeName : Text)
  | notTextContainer
  | notSubscriptable (what : Text)
  | notIndex (typeName : Text)
  | notArrayIndex
  | notScalar
  | notReal (typeName : Text)
  | notNumeral (literal : Text)
  | integerTooLarge
  | tooManyDigits
  | ambiguousTruth
  | emptyTruth
  | ragged (known : Shape)
  | unlikeShapes (one other : Shape)
  | beyondWord
  | nothingLongest
  | notOrdered (typeName : Text)
  | noAttribute (typeName name : Text)
  | noSuchArgument
  | noEntry (name : Text)
  | noArrayIndex
  | notConcatenable (typeName : Text)
  | notAdded (length : Nat) (element : Text)
  | noLiteral
deriving DecidableEq, Repr

namespace ValueFault

/-- The wording of a fault. -/
def message : ValueFault → Text
  | .notIterable t => "'" ++ t ++ "' object is not iterable"
  | .scalarIteration => "iteration over a 0-d array"
  | .noLength t => "object of type '" ++ t ++ "' has no len()"
  | .scalarLength => "len() of unsized object"
  | .notContainer t => "argument of type '" ++ t ++ "' is not iterable"
  | .notTextContainer => "a bytes-like object is required, not 'str'"
  | .notSubscriptable what => what
  | .notIndex t => "'" ++ t ++ "' object cannot be interpreted as an integer"
  | .notArrayIndex => "only integer scalar arrays can be converted to a scalar index"
  | .notScalar => "only 0-dimensional arrays can be converted to Python scalars"
  | .notReal t => "float() argument must be a string or a real number, not '" ++ t ++ "'"
  | .notNumeral literal => "could not convert string to float: " ++ literal
  | .integerTooLarge => "int too large to convert to float"
  | .tooManyDigits =>
    "Exceeds the limit (4300 digits) for integer string conversion; "
      ++ "use sys.set_int_max_str_digits() to increase the limit"
  | .ambiguousTruth =>
    "The truth value of an array with more than one element is ambiguous. "
      ++ "Use a.any() or a.all()"
  | .emptyTruth =>
    "The truth value of an empty array is ambiguous. "
      ++ "Use `array.size > 0` to check that an array is not empty."
  | .ragged known =>
    "setting an array element with a sequence. The requested array has an inhomogeneous shape after "
      ++ Text.ofNat known.length ++ " dimensions. The detected shape was " ++ Shape.text known
      ++ " + inhomogeneous part."
  | .unlikeShapes one other =>
    "operands could not be broadcast together with shapes " ++ Shape.text one ++ " "
      ++ Shape.text other ++ " "
  | .beyondWord => "Python int too large to convert to C long"
  | .nothingLongest => "max() arg is an empty sequence"
  | .notOrdered t => "'<' not supported between instances of '" ++ t ++ "' and 'int'"
  | .noAttribute t name => "'" ++ t ++ "' object has no attribute '" ++ name ++ "'"
  | .noSuchArgument => "tuple index out of range"
  | .noEntry name => Literal.ofText name
  | .noArrayIndex =>
    "only integers, slices (`:`), ellipsis (`...`), numpy.newaxis (`None`) and integer or boolean "
      ++ "arrays are valid indices"
  | .notConcatenable t => "can only concatenate str (not \"" ++ t ++ "\") to str"
  | .notAdded length e =>
    "ufunc 'add' did not contain a loop with signature matching types (dtype('<U"
      ++ Text.ofNat length ++ "'), dtype('" ++ e ++ "')) -> None"
  | .noLiteral => "no repr"

/-- The class of exception of a fault. -/
def className : ValueFault → Text
  | .notNumeral _ => "ValueError"
  | .tooManyDigits => "ValueError"
  | .ambiguousTruth => "ValueError"
  | .emptyTruth => "ValueError"
  | .ragged _ => "ValueError"
  | .unlikeShapes .. => "ValueError"
  | .nothingLongest => "ValueError"
  | .integerTooLarge => "OverflowError"
  | .beyondWord => "OverflowError"
  | .noAttribute .. => "AttributeError"
  | .noSuchArgument => "IndexError"
  | .noEntry _ => "KeyError"
  | .noArrayIndex => "IndexError"
  | .notAdded .. => "UFuncTypeError"
  | .noLiteral => "RuntimeError"
  | _ => "TypeError"

end ValueFault

end TypedSexp
