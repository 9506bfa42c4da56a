import TypedSexp.Value.Attribute
import TypedSexp.Value.Equality
import TypedSexp.Value.Sequence
/-!
# Looking into values by name

Entries of records and fields of instances are found by name. Other values can be asked too: a name
may occur in a text or be an item of a list, but no value is kept under it there.
-/

namespace TypedSexp.Value

/-- One of the values equals a text. -/
def anyIsText (name : Text) : List Value → Except ValueFault Bool
  | [] => .ok false
  | v :: vs => do if ← eq v (.text name) then .ok true else anyIsText name vs

/-- One of the items of an array equals a text; all of them are looked at. -/
def anyItemIsText (name : Text) : List Value → Except ValueFault Bool
  | [] => .ok false
  | v :: vs => do
    let here ← eq v (.text (dropNulls name))
    let rest ← anyItemIsText name vs
    .ok (here || rest)

/-- The name occurs in a value. -/
def contains (name : Text) : Value → Except ValueFault Bool
  | .record entries => .ok (entries.lookup name).isSome
  | .text t => .ok (occursIn name t)
  | .bytes _ => .error .notTextContainer
  | .list vs => anyIsText name vs
  | .tuple vs => anyIsText name vs
  | .sexp (.list _) => .ok false
  | .array e _ vs => if e = .any then anyItemIsText name vs else .ok false
  | v => .error (.notContainer v.qualifiedTypeName)

/-- What a value keeps under a name that occurs in it; only records keep something. -/
def entry (name : Text) : Value → Except ValueFault Value
  | .record entries =>
    match entries.lookup name with
    | some v => .ok v
    | Option.none => .error (.noEntry name)
  | .text _ => .error (.notSubscriptable "string indices must be integers, not 'str'")
  | .list _ => .error (.notSubscriptable "list indices must be integers or slices, not str")
  | .tuple _ => .error (.notSubscriptable "tuple indices must be integers or slices, not str")
  | .array .. => .error .noArrayIndex
  | v => .error (.notSubscriptable ("'" ++ v.qualifiedTypeName ++ "' object is not subscriptable"))

/-- The field of an instance; any value may have an attribute of that name. -/
def fieldNamed (name : Text) (v : Value) : Except ValueFault Value :=
  match v.attribute? name with
  | some x => .ok x
  | Option.none => .error (.noAttribute v.qualifiedTypeName name)

end TypedSexp.Value
