import TypedSexp.Number.Spelling
import TypedSexp.Text.Literal
import TypedSexp.Value.Sequence
/-!
# Storing values in arrays

`Storage.vector` makes a one-dimensional array of values. Each value is converted to the element
type; the first one that the type cannot hold is named by its number and the reason. Integers are
never wrapped: one beyond the range of the type is refused. Elements of arrays of numbers have no
origin.
-/

namespace TypedSexp.Storage

open ElementType

/-- Why an element type cannot hold a value. `unspellable` is an integer outside the range that has
too many digits to be named. -/
inductive Reason where
  | outsideRange (literal : Text) (element : ElementType)
  | notANumber
  | infinite
  | outOfBounds (n : Int) (element : ElementType)
  | beyondWord
  | integerTooLarge
  | notNumeral (literal : Text)
  | notInteger (literal : Text)
  | tooManyDigits (count : Nat)
  | notReal (needed typeName : Text)
  | sequence
  | unspellable
deriving DecidableEq, Repr

namespace Reason

/-- The most code points of a literal that is named as no integer. -/
def maxLiteral : Nat := 200

/-- The wording of a reason. -/
def message : Reason → Text
  | .outsideRange literal e => literal ++ " is outside the range of " ++ e.name
  | .notANumber => "cannot convert float NaN to integer"
  | .infinite => "cannot convert float infinity to integer"
  | .outOfBounds n e => "Python integer " ++ Text.ofInt n ++ " out of bounds for " ++ e.name
  | .beyondWord => "Python int too large to convert to C long"
  | .integerTooLarge => "int too large to convert to float"
  | .notNumeral literal => "could not convert string to float: " ++ literal
  | .notInteger literal => "invalid literal for int() with base 10: " ++ literal.take maxLiteral
  | .tooManyDigits count =>
    "Exceeds the limit (" ++ Text.ofNat Spelling.maxDigits
      ++ " digits) for integer string conversion: value has " ++ Text.ofNat count
      ++ " digits; use sys.set_int_max_str_digits() to increase the limit"
  | .notReal needed t => needed ++ ", not '" ++ t ++ "'"
  | .sequence => "setting an array element with a sequence."
  | .unspellable => ValueFault.message .tooManyDigits

/-- The class of exception of a reason. -/
def className : Reason → Text
  | .outsideRange .. => "OverflowError"
  | .infinite => "OverflowError"
  | .outOfBounds .. => "OverflowError"
  | .beyondWord => "OverflowError"
  | .integerTooLarge => "OverflowError"
  | .unspellable => "OverflowError"
  | .notReal .. => "TypeError"
  | _ => "ValueError"

end Reason

/-- The integer is in the range of an integer type. -/
def inRange (signed : Bool) (width : Width) (n : Int) : Bool :=
  least signed width ≤ n && n ≤ greatest signed width

/-- What conversions to an integer ask for. -/
def integerNeeded : Text :=
  "int() argument must be a string, a bytes-like object or a real number"

/-- What conversions to a float ask for. -/
def floatNeeded : Text := "float() argument must be a string or a real number"

/-- A value that an integer type cannot hold: an array, or a thing of another type. -/
def refusedInteger : Value → Reason
  | .array .. => .sequence
  | v => .notReal integerNeeded v.typeName

/-- A value that a float type cannot hold: a sequence, or a thing of another type. -/
def refusedFloat : Value → Reason
  | .array .. => .sequence
  | .list _ => .sequence
  | .tuple _ => .sequence
  | .sexp (.list _) => .sequence
  | v => .notReal floatNeeded v.typeName

/-- An integer that came from a float or a text as an element. Beyond the range of a machine word,
or of the type, there is none. -/
def storeWord (signed : Bool) (width : Width) (n : Int) : Except Reason Value :=
  if inRange signed width n then .ok (.int n)
  else if signed && width = .w64 then .error .beyondWord
  else if inRange true .w64 n then .error (.outOfBounds n (.integer signed width))
  else .error .beyondWord

/-- An integer that was read from a text with a literal. -/
def storeRead (signed : Bool) (width : Width) (literal : Text) :
    Except Spelling.LooseFault Int → Except Reason Value
  | .ok n => storeWord signed width n
  | .error .notInteger => .error (.notInteger literal)
  | .error (.tooManyDigits count) => .error (.tooManyDigits count)

/-- Stores in an integer type. -/
def storeInteger (signed : Bool) (width : Width) : Value → Except Reason Value
  | .bool b => .ok (.int (if b then 1 else 0))
  | .int n =>
    if inRange signed width n then .ok (.int n)
    else
      match Spelling.writeInt? n with
      | some t => .error (.outsideRange t (.integer signed width))
      | none => .error .unspellable
  | .float (.nan _) => .error .notANumber
  | .float x =>
    match x.truncate? with
    | some n => storeWord signed width n
    | none => .error .infinite
  | .text t => storeRead signed width (Literal.ofText t) (Spelling.readLooseInt t)
  | .bytes b =>
    storeRead signed width (Literal.ofBytes b) (Spelling.readIntBytes (b.map Literal.byteCode))
  | .cell _ v => storeInteger signed width v
  | .array _ [] [v] => storeInteger signed width v
  | v => .error (refusedInteger v)

/-- Stores in a float type; `fit` takes a float into the type. -/
def storeFloat (fit : Binary64 → Binary64) : Value → Except Reason Value
  | .none => .ok (.float (.nan 0))
  | .bool b => .ok (.float (fit (if b then .one else .zero)))
  | .int n =>
    match Binary64.ofInt? n with
    | some x => .ok (.float (fit x))
    | none => .error .integerTooLarge
  | .float x => .ok (.float (fit x.forgetOrigin))
  | .text t =>
    match Spelling.readLooseFloat? t with
    | some x => .ok (.float (fit x))
    | none => .error (.notNumeral (Literal.ofText t))
  | .bytes b =>
    match Spelling.readFloatBytes? (b.map Literal.byteCode) with
    | some x => .ok (.float (fit x))
    | none => .error (.notNumeral (Literal.ofBytes b))
  | .cell _ v => storeFloat fit v
  | .array _ [] [v] => storeFloat fit v
  | v => .error (refusedFloat v)

/-- Stores in the type of truth values; only an array may be no condition. -/
def storeBoolean (v : Value) : Except Reason Value :=
  match v.truth with
  | .ok b => .ok (.bool b)
  | .error _ => .error .sequence

/-- Stores one value. -/
def store (e : ElementType) (v : Value) : Except Reason Value :=
  match e with
  | .integer signed width => storeInteger signed width v
  | .single => storeFloat Binary64.toSingle v
  | .double => storeFloat id v
  | .boolean => storeBoolean v
  | .any => .ok v

/-- Stores values in order; on failure, the number of the first that does not fit. -/
def storeAll (e : ElementType) : List Value → Except (Nat × Reason) (List Value)
  | [] => .ok []
  | v :: vs =>
    match store e v with
    | .error reason => .error (0, reason)
    | .ok x =>
      match storeAll e vs with
      | .ok xs => .ok (x :: xs)
      | .error (i, reason) => .error (i + 1, reason)

/-- The array of values. -/
def vector (e : ElementType) (values : List Value) : Except (Nat × Reason) Value :=
  (storeAll e values).map (Value.vector e)

end TypedSexp.Storage
