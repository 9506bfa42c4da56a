import TypedSexp.Converter.Basic
import TypedSexp.Number.Spelling
import TypedSexp.Value.Sequence
/-!
# Built-in types

The atoms of the built-in types. Reading an integer accepts other bases and underscores, reading a
condition two spellings; writing always gives one form. Bytes are written one code point for each.
-/

namespace TypedSexp.Builtin

open Converter (readerName writerName)

/-! ## Reading -/

/-- A tree that is not of a built-in type. -/
def refuse (p : Primitive) (expected : Text) (detail : Option Text) (node : Node) : ReadError :=
  .about node (.unexpectedShape (readerName p.name) expected detail)

/-- The text of an atom; a list is refused. -/
def atomText (p : Primitive) (expected : Text) : Node → Except ReadError Text
  | .atom t _ => .ok t
  | .list items l => .error (refuse p expected (some "got a list") (.list items l))

/-- The condition that an atom spells. -/
def readBool? (t : Text) : Option Bool :=
  if t = ("true" : Text) ∨ t = ("True" : Text) then some true
  else if t = ("false" : Text) ∨ t = ("False" : Text) then some false
  else none

/-- The byte of a code point below 256. -/
def readByte? (c : CodePoint) : Option UInt8 :=
  if c.val < 256 then some (UInt8.ofNat c.val) else none

/-- Reads a value of a built-in type. -/
def read (p : Primitive) (node : Node) : Except ReadError Value :=
  match p with
  | .unit =>
    match node with
    | .list [] _ => .ok .none
    | _ => .error (refuse p "()" none node)
  | .bool => do
    let t ← atomText p "true or false" node
    match readBool? t with
    | some b => .ok (.bool b)
    | none => .error (refuse p "true or false" none node)
  | .int => do
    let t ← atomText p "an integer atom" node
    match Spelling.readInt t with
    | .ok n => .ok (.int n)
    | .error .tooManyDigits => .error .tooManyDigits
    | .error .notInteger => .error (refuse p "an integer atom" none node)
  | .float => do
    let t ← atomText p "a float atom" node
    match Spelling.readFloat? t with
    | some x => .ok (.float x)
    | none => .error (refuse p "a float atom" none node)
  | .string => do .ok (.text (← atomText p "an atom" node))
  | .char => do
    let t ← atomText p "a single-character atom" node
    if t.length = 1 then .ok (.text t)
    else .error (refuse p "a single-character atom" none node)
  | .bytes => do
    let t ← atomText p "an atom" node
    match t.mapM readByte? with
    | some b => .ok (.bytes b)
    | none => .error (refuse p "an atom of 8-bit characters" none node)
  | .sexp => .ok (.sexp node.sexp)

/-! ## Writing -/

/-- A value that is not of a built-in type. -/
def mismatch (p : Primitive) (expected got : Text) : WriteError :=
  .wrongType (writerName p.name) expected got

/-- The integer that a value is; conditions and floats are none. -/
def asInteger : Value → Except ValueFault Int
  | .int n => .ok n
  | .cell (.integer ..) v => asInteger v
  | .array (.integer ..) [] [v] => asInteger v
  | .array .. => .error .notArrayIndex
  | v => .error (.notIndex v.qualifiedTypeName)

/-- A float that was read, or the fault that the literal spells none. -/
def numeral (x : Option Binary64) (literal : Text) : Except ValueFault Binary64 :=
  match x with
  | some x => .ok x
  | none => .error (.notNumeral literal)

/-- The float that a value is or spells. -/
def asFloat : Value → Except ValueFault Binary64
  | .float x => .ok x
  | .bool b => .ok (if b then .one else .zero)
  | .int n =>
    match Binary64.ofInt? n with
    | some x => .ok x
    | none => .error .integerTooLarge
  | .text t => numeral (Spelling.readLooseFloat? t) (Literal.ofText t)
  | .bytes b => numeral (Spelling.readFloatBytes? (b.map Literal.byteCode)) (Literal.ofBytes b)
  | .cell _ v => asFloat v
  | .array _ [] [v] => asFloat v
  | .array .. => .error .notScalar
  | v => .error (.notReal v.qualifiedTypeName)

/-- The decimal text of an integer. -/
def writeInteger (n : Int) : Except ValueFault Text :=
  match Spelling.writeInt? n with
  | some t => .ok t
  | none => .error .tooManyDigits

/-- A failed operation on a value as an error of writing. -/
def ofValue {α : Type} (x : Except ValueFault α) : Except WriteError α := x.mapError .value

/-- The literal of a value for a refusal. -/
def spelled (v : Value) : Except WriteError Text :=
  v.literal.mapError fun fault => if v.isUnspellable then .unspellable else .value fault

/-- Writes a value of a built-in type. -/
def write (p : Primitive) (v : Value) : Except WriteError Sexp :=
  match p with
  | .unit =>
    match v with
    | .none => .ok .empty
    | _ => .error (mismatch p "None" v.typeName)
  | .bool =>
    match v with
    | .bool b => .ok (.atom (if b then "true" else "false"))
    | .cell .boolean (.bool b) => .ok (.atom (if b then "true" else "false"))
    | _ => .error (mismatch p "bool" v.typeName)
  | .int =>
    match v with
    | .bool _ => .error (mismatch p "int" "bool")
    | .cell .boolean _ => .error (mismatch p "int" "bool")
    | _ => do .ok (.atom (← ofValue (writeInteger (← ofValue (asInteger v)))))
  | .float => do .ok (.atom (← ofValue (asFloat v)).toText)
  | .string =>
    match v with
    | .text t => .ok (.atom t)
    | _ => .error (mismatch p "str" v.typeName)
  | .char =>
    match v with
    | .text [c] => .ok (.atom [c])
    | _ => do .error (mismatch p "a one-character str" (← spelled v))
  | .bytes =>
    match v with
    | .bytes b => .ok (.atom (b.map Literal.byteCode))
    | _ => .error (mismatch p "bytes" v.typeName)
  | .sexp =>
    match v with
    | .sexp s => .ok s
    | _ => .error (mismatch p "a Sexp" v.typeName)

end TypedSexp.Builtin
