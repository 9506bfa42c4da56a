import TypedSexp.Value.Basic
/-!
# Attributes

What a value has under a name besides entries: the fields of an instance, the tag of a variant, the
parts of a number, the measures of an array. Operations have names too; what they are is not known,
only the name of their type.
-/

namespace TypedSexp

namespace ElementType

/-- The number of bytes that an element takes; any value takes a word. -/
def itemSize : ElementType → Nat
  | .integer _ width => width.bits / 8
  | .single => 4
  | .double => 8
  | .boolean => 1
  | .any => 8

/-- The nothing of an element type: zero, or false. -/
def zero : ElementType → Value
  | .single => .float .zero
  | .double => .float .zero
  | .boolean => .bool false
  | _ => .int 0

/-- The name of the type that the element type itself is of. -/
def className : ElementType → Text
  | .integer true width => "Int" ++ Text.ofNat width.bits ++ "DType"
  | .integer false width => "UInt" ++ Text.ofNat width.bits ++ "DType"
  | .single => "Float32DType"
  | .double => "Float64DType"
  | .boolean => "BoolDType"
  | .any => "ObjectDType"

end ElementType

namespace Shape

/-- How far the items of each dimension lie apart, for items of a size. -/
def strides (itemSize : Nat) : Shape → List Nat
  | [] => []
  | _ :: inner => inner.foldl (fun n m => if m = 0 then n else n * m) itemSize :: strides itemSize inner

/-- The items of an array with its dimensions reversed. -/
def transposed {α : Type} : Shape → List α → List α
  | [], items => items
  | n :: inner, items =>
    let parts := (chunks (size inner) n items).map (transposed inner)
    (List.range (size inner)).flatMap fun i => parts.filterMap (·[i]?)

end Shape

namespace Value

/-! ## Names of operations -/

/-- The words of a string. -/
def words (s : String) : List Text := (s.splitOn " ").map Text.ofString

/-- Operations of integers. -/
def integerOperations : List Text :=
  words "as_integer_ratio bit_count bit_length conjugate from_bytes to_bytes"

/-- Operations of floats. -/
def floatOperations : List Text := words "as_integer_ratio conjugate fromhex hex is_integer"

/-- Operations of texts and of bytes. -/
def textualOperations : List Text :=
  words "capitalize center count endswith expandtabs find index isalnum isalpha isascii isdigit islower"
    ++ words "isspace istitle isupper join ljust lower lstrip maketrans partition removeprefix"
    ++ words "removesuffix replace rfind rindex rjust rpartition rsplit rstrip split splitlines"
    ++ words "startswith strip swapcase title translate upper zfill"

/-- Operations of texts only. -/
def textOperations : List Text :=
  words "casefold encode format format_map isdecimal isidentifier isnumeric isprintable"

/-- Operations of bytes only. -/
def bytesOperations : List Text := words "decode fromhex hex"

/-- Operations of lists. -/
def listOperations : List Text :=
  words "append clear copy count extend index insert pop remove reverse sort"

/-- Operations of tuples. -/
def tupleOperations : List Text := words "count index"

/-- Operations of records. -/
def recordOperations : List Text :=
  words "clear copy fromkeys get items keys pop popitem setdefault update values"

/-- Operations of S-expressions. -/
def sexpOperations : List Text := words "accept is_atom is_list with_location"

/-- Operations of arrays and their elements. -/
def gridOperations : List Text :=
  words "all any argmax argmin argsort astype byteswap choose clip compress conj conjugate copy cumprod"
    ++ words "cumsum diagonal dump dumps fill flatten getfield item max mean min nonzero prod put ravel"
    ++ words "repeat reshape resize round searchsorted setfield setflags sort squeeze std sum swapaxes"
    ++ words "take to_device tobytes tofile tolist trace transpose var view"

/-- Operations of arrays only. -/
def arrayOperations : List Text := words "argpartition dot partition"

/-- Operations of a single element of an array of numbers. -/
def cellOperations : ElementType → List Text
  | .integer .. => words "bit_count is_integer"
  | .single => words "as_integer_ratio is_integer"
  | .double => words "as_integer_ratio fromhex hex is_integer"
  | _ => []

/-- Operations of every value that is built in. -/
def commonOperations : List Text :=
  words "__dir__ __format__ __getstate__ __init_subclass__ __new__ __reduce__ __reduce_ex__"
    ++ words "__sizeof__ __subclasshook__"

/-- An operation. -/
def operation : Value := .foreign "builtin_function_or_method"

/-- The operation with a name, if it is one of those. -/
def operationIn (operations : List Text) (name : Text) : Option Value :=
  if operations.contains name then some operation else Option.none

/-! ## Attributes -/

/-- A tuple of natural numbers. -/
def naturals (ns : List Nat) : Value := .tuple (ns.map fun (n : Nat) => .int n)

/-- The measures of an array, or of a single element, which has no dimensions. -/
def gridAttributes (e : ElementType) (shape : Shape) : List (Text × Value) :=
  [("ndim", .int shape.length), ("shape", naturals shape), ("size", .int shape.size),
   ("itemsize", .int e.itemSize), ("nbytes", .int (shape.size * e.itemSize : Nat)),
   ("strides", naturals (shape.strides e.itemSize)), ("device", .text "cpu"),
   ("dtype", .foreign e.className), ("data", .foreign "memoryview"), ("flags", .foreign "flagsobj"),
   ("flat", .foreign "flatiter")]

/-- The attributes of a number by itself. -/
def integerAttributes (n : Int) : List (Text × Value) :=
  [("real", .int n), ("imag", .int 0), ("numerator", .int n), ("denominator", .int 1)]

/-- The attributes of an array besides its measures. -/
def arrayAttributes (e : ElementType) (shape : Shape) (items : List Value) : List (Text × Value) :=
  [("T", .array e shape.reverse (shape.transposed items)), ("real", .array e shape items),
   ("imag", .array e shape (items.map fun _ => e.zero)),
   ("base", if shape.length = 1 then .none else vector e items), ("ctypes", .foreign "_ctypes")]

/-- The attributes of a single element besides its measures. -/
def cellAttributes (e : ElementType) (v : Value) : List (Text × Value) :=
  let common : List (Text × Value) :=
    [("T", .cell e v), ("real", .cell e v), ("imag", .cell e e.zero), ("base", .none)]
  match e with
  | .integer .. => ("numerator", .cell e v) :: ("denominator", .int 1) :: common
  | _ => common

/-- The attributes of a value that are values themselves. -/
def attributes : Value → List (Text × Value)
  | .bool b => integerAttributes (if b then 1 else 0)
  | .int n => integerAttributes n
  | .float x => [("real", .float x), ("imag", .float .zero)]
  | .sexp (.atom t) => [("text", .text t), ("location", .none)]
  | .sexp (.list items) => [("items", .tuple (items.map .sexp)), ("location", .none)]
  | .object _ fields => fields
  | .variant tag args => [("tag", .text tag), ("args", .tuple args)]
  | .array e shape items => arrayAttributes e shape items ++ gridAttributes e shape
  | .cell e v => cellAttributes e v ++ gridAttributes e []
  | _ => []

/-- The operations of a value. -/
def operations : Value → List Text
  | .bool _ => integerOperations
  | .int _ => integerOperations
  | .float _ => floatOperations
  | .text _ => textualOperations ++ textOperations
  | .bytes _ => textualOperations ++ bytesOperations
  | .list _ => listOperations
  | .tuple _ => tupleOperations
  | .record _ => recordOperations
  | .array .. => gridOperations ++ arrayOperations
  | .cell e _ => gridOperations ++ cellOperations e
  | _ => []

/-- What a value has under a name. -/
def attribute? (name : Text) (v : Value) : Option Value :=
  match v.attributes.lookup name with
  | some x => some x
  | Option.none =>
    match v with
    | .sexp s =>
      if sexpOperations.contains name || (s.isAtom && name == ("is_bare" : Text)) then
        some (.foreign "method")
      else Option.none
    | _ =>
      if name = ("__class__" : Text) then some (.foreign "type")
      else operationIn (v.operations ++ commonOperations) name

end Value

end TypedSexp
