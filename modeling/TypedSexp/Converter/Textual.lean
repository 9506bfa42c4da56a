import TypedSexp.Converter.Basic
/-!
# Ready-made converters for texts

Two converters that no description gives: `Converter.hash` writes a text behind a number sign, and
`Converter.wrap` puts it in a list behind a word. Neither checks what it is given before it sets to
work, so each fails as the work itself does.
-/

namespace TypedSexp

namespace Value

mutual

/-- A text in front of a value: of a text the two texts in one, of an array of any values each of its
items. -/
def after (head : Text) : Value → Except ValueFault Value
  | .text t => .ok (.text (head ++ t))
  | .array .any [] [v] => after head v
  | .array .any shape items => do .ok (.array .any shape (← allAfter head items))
  | .array e _ _ => .error (.notAdded head.length e.name)
  | v => .error (.notConcatenable v.qualifiedTypeName)

/-- A text in front of each of several values. -/
def allAfter (head : Text) : List Value → Except ValueFault (List Value)
  | [] => .ok []
  | v :: vs => do
    let x ← after head v
    .ok (x :: (← allAfter head vs))

end

end Value

namespace Converter

/-- An atom of what must be a text. -/
def atomOf : Value → Except WriteError Sexp
  | .text t => .ok (.atom t)
  | v => .error (.notText v.typeName)

/-- Text behind a number sign. -/
def hash : Converter := .ofCustom "hash" {
  read := fun node =>
    let refused := .error (.about node (.other "hash_of_sexp: expected #text"))
    match node with
    | .atom (c :: t) _ => if c = '#' then .ok (.text t) else refused
    | _ => refused
  write := fun v => do atomOf (← (v.after "#").mapError .value) }

/-- A text in a list, behind the word `wrap`. -/
def wrap : Converter := .ofCustom "wrap" {
  read := fun
    | .list (_ :: .atom t _ :: _) _ => .ok (.text t)
    | .list [] _ | .list [_] _ => .error (.raised "IndexError")
    | _ => .error (.raised "AttributeError")
  write := fun v => do .ok (.list [.atom "wrap", ← atomOf v]) }

/-- The converters that are known by name: those of the built-in types, and the ready-made ones. -/
def known : List (Text × Converter) :=
  Primitive.all.map (fun p => (p.name, .ofPrimitive p))
    ++ [hash, wrap].map fun c => (c.name, c)

end Converter

end TypedSexp
