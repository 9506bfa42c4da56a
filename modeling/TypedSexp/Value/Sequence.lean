import TypedSexp.Value.Fault
/-!
# Values as sequences, containers and conditions

What a value gives when it is gone through, counted, searched, or taken as a condition. An array of
several dimensions gives arrays of one dimension less.
-/

namespace TypedSexp.Value

/-- The values that going through a value gives, in order. -/
def items : Value → Except ValueFault (List Value)
  | .list xs => .ok xs
  | .tuple xs => .ok xs
  | .text t => .ok (t.map fun c => .text [c])
  | .bytes b => .ok (b.map fun x => .int x.toNat)
  | .record entries => .ok (entries.map fun e => .text e.1)
  | .sexp (.list xs) => .ok (xs.map .sexp)
  | .array element shape xs =>
    match shape with
    | [] => .error .scalarIteration
    | [_] => .ok (xs.map (ofElement element))
    | count :: inner =>
      .ok ((Shape.chunks (Shape.size inner) count xs).map (.array element inner))
  | v => .error (.notIterable v.qualifiedTypeName)

/-- The items of a shape as lists inside lists, one for each dimension; without dimensions the one
item itself. -/
def stacked : Shape → List Value → Value
  | [], xs => xs.headD .none
  | count :: inner, xs =>
    .list ((Shape.chunks (Shape.size inner) count xs).map (stacked inner))

/-- How many values there are in a value. -/
def length : Value → Except ValueFault Nat
  | .list xs => .ok xs.length
  | .tuple xs => .ok xs.length
  | .text t => .ok t.length
  | .bytes b => .ok b.length
  | .record entries => .ok entries.length
  | .sexp (.list xs) => .ok xs.length
  | .array _ shape _ =>
    match shape with
    | [] => .error .scalarLength
    | count :: _ => .ok count
  | v => .error (.noLength v.qualifiedTypeName)

/-- Why several conditions, or none, are not one. -/
def truthFault {α : Type} (conditions : List α) : ValueFault :=
  if conditions.isEmpty then .emptyTruth else .ambiguousTruth

/-- A value as a condition: nothing, zero and what is empty count as false. -/
def truth : Value → Except ValueFault Bool
  | .none => .ok false
  | .bool b => .ok b
  | .int n => .ok (n != 0)
  | .float x => .ok (!x.isZero)
  | .text t => .ok !t.isEmpty
  | .bytes b => .ok !b.isEmpty
  | .list xs => .ok !xs.isEmpty
  | .tuple xs => .ok !xs.isEmpty
  | .record entries => .ok !entries.isEmpty
  | .array _ _ [x] => truth x
  | .array _ _ xs => .error (truthFault xs)
  | .cell _ v => truth v
  | _ => .ok true

mutual

/-- The value is less than zero; only numbers are, and arrays of one item that is. The items of an
array of any values are compared first. -/
def isNegative : Value → Except ValueFault Bool
  | .bool _ => .ok false
  | .int n => .ok (n < 0)
  | .float x => .ok x.isNegative
  | .cell _ v => isNegative v
  | .array _ _ xs => do
    match ← areNegative xs with
    | [b] => .ok b
    | bs => .error (truthFault bs)
  | v => .error (.notOrdered v.qualifiedTypeName)

/-- Which items of an array are less than zero. -/
def areNegative : List Value → Except ValueFault (List Bool)
  | [] => .ok []
  | x :: xs => do
    let b ← isNegative x
    let bs ← areNegative xs
    .ok (b :: bs)

end

/-- A text occurs in another. -/
def occursIn (part : Text) : Text → Bool
  | [] => part.isEmpty
  | c :: rest => part.isPrefixOf (c :: rest) || occursIn part rest

end TypedSexp.Value
