import TypedSexp.Number.Binary64
import TypedSexp.Sexp.Basic
import TypedSexp.Text.Utf8
import TypedSexp.Value.Shape
/-!
# Values

The values that converters read and write: scalars, texts, bytes, S-expressions, sequences, records,
instances of classes, variants and arrays. An array has an element type, a shape and its elements in
order; an element taken out of an array of numbers remembers its element type. Of a foreign thing
only the name of its type is known.
-/

namespace TypedSexp

/-- How many bits an integer element has. -/
inductive Width where
  | w8
  | w16
  | w32
  | w64
deriving DecidableEq, Repr

/-- The number of bits. -/
def Width.bits : Width → Nat
  | .w8 => 8
  | .w16 => 16
  | .w32 => 32
  | .w64 => 64

/-- What the elements of an array are. -/
inductive ElementType where
  | integer (signed : Bool) (width : Width)
  | single
  | double
  | boolean
  | any
deriving DecidableEq, Repr

namespace ElementType

/-- The name of an element type. -/
def name : ElementType → Text
  | .integer signed width => (if signed then "int" else "uint") ++ Text.ofNat width.bits
  | .single => "float32"
  | .double => "float64"
  | .boolean => "bool"
  | .any => "object"

/-- All element types. -/
def all : List ElementType :=
  [.integer true .w8, .integer true .w16, .integer true .w32, .integer true .w64,
   .integer false .w8, .integer false .w16, .integer false .w32, .integer false .w64,
   .single, .double, .boolean, .any]

/-- The element type with a name. -/
def ofName? (t : Text) : Option ElementType := all.find? fun e => e.name == t

/-- Sixty-four-bit signed integers. -/
def int64 : ElementType := .integer true .w64

/-- The least integer of an integer type. -/
def least (signed : Bool) (width : Width) : Int :=
  if signed then -(Nat.pow 2 (width.bits - 1) : Int) else 0

/-- The greatest integer of an integer type. -/
def greatest (signed : Bool) (width : Width) : Int :=
  (Nat.pow 2 (if signed then width.bits - 1 else width.bits) : Int) - 1

end ElementType

/-- A value. -/
inductive Value where
  | none
  | bool (b : Bool)
  | int (n : Int)
  | float (x : Binary64)
  | text (t : Text)
  | bytes (b : Utf8.Bytes)
  | sexp (s : Sexp)
  | list (items : List Value)
  | tuple (items : List Value)
  | record (entries : List (Text × Value))
  | object (className : Text) (fields : List (Text × Value))
  | variant (tag : Text) (args : List Value)
  | array (element : ElementType) (shape : Shape) (items : List Value)
  | cell (element : ElementType) (value : Value)
  | foreign (typeName : Text)
deriving Repr, Inhabited

namespace Value

/-- The value is nothing. -/
def isNone : Value → Bool
  | .none => true
  | _ => false

/-- The name of a value's type, as messages give it. -/
def typeName : Value → Text
  | .none => "NoneType"
  | .bool _ => "bool"
  | .int _ => "int"
  | .float _ => "float"
  | .text _ => "str"
  | .bytes _ => "bytes"
  | .sexp (.atom _) => "Atom"
  | .sexp (.list _) => "SexpList"
  | .list _ => "list"
  | .tuple _ => "tuple"
  | .record _ => "dict"
  | .object className _ => className
  | .variant .. => "Variant"
  | .array .. => "ndarray"
  | .cell element _ => element.name
  | .foreign typeName => typeName

/-- The type name as messages about what a type cannot do give it: array elements are qualified. -/
def qualifiedTypeName : Value → Text
  | .cell element _ => "numpy." ++ element.name
  | .array .. => "numpy.ndarray"
  | v => v.typeName

/-- A one-dimensional array. -/
def vector (element : ElementType) (items : List Value) : Value :=
  .array element [items.length] items

/-- Entries with one more, which takes the place of an earlier one of its name. -/
def putEntry (entries : List (Text × Value)) (name : Text) (v : Value) : List (Text × Value) :=
  if (entries.lookup name).isSome then
    entries.map fun (other, old) => (other, if other = name then v else old)
  else entries ++ [(name, v)]

/-- The record of named values; a later value of a name takes the place of an earlier one. -/
def ofEntries (entries : List (Text × Value)) : Value :=
  .record (entries.foldl (fun done (name, v) => putEntry done name v) [])

/-- A value in a number of variants, one inside another; each has the other arguments first. -/
def chain (tag : Text) (args : List Value) (last : Value) : Nat → Value
  | 0 => last
  | n + 1 => .variant tag (args ++ [chain tag args last n])

/-- An element of an array as a value of its own. -/
def ofElement (element : ElementType) (v : Value) : Value :=
  if element = .any then v else .cell element v

mutual

/-- How deeply a value is nested. -/
def depth : Value → Nat
  | .list items => depths items + 1
  | .tuple items => depths items + 1
  | .record entries => entryDepths entries + 1
  | .object _ fields => entryDepths fields + 1
  | .variant _ args => depths args + 1
  | .array _ shape items => depths items + shape.length + 1
  | .cell _ v => depth v + 1
  | .sexp s => s.census.depth + 1
  | .text t => t.length + 1
  | _ => 1

/-- The greatest depth of several values. -/
def depths : List Value → Nat
  | [] => 0
  | v :: vs => max (depth v) (depths vs)

/-- The greatest depth of named values. -/
def entryDepths : List (Text × Value) → Nat
  | [] => 0
  | (_, v) :: vs => max (depth v) (entryDepths vs)

end

end Value

end TypedSexp
