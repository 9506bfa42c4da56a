import TypedSexp.Text.Basic
/-!
# Shapes

The shape of an array is the list of its lengths, one for each dimension; the items stand in a row,
those of the last dimension next to each other. `chunks` cuts the row along the first dimension, and
`corners` keeps the first and last items of every dimension that is long. Two shapes that differ may
still be compared item by item if lengths of one are stretched (`stretch?`).
-/

namespace TypedSexp

/-- The lengths of an array, one for each dimension. -/
abbrev Shape := List Nat

namespace Shape

/-- How many items there are. -/
def size (s : Shape) : Nat := s.foldl (· * ·) 1

/-- The shape of `size` items with given lengths, unless they do not add up. One length may be below
zero, and is then what is left for it. -/
def ofLengths? (size : Nat) (lengths : List Int) : Option Shape :=
  let known := Shape.size ((lengths.filter (0 ≤ ·)).map Int.toNat)
  match (lengths.filter (· < 0)).length with
  | 0 => if known = size then some (lengths.map Int.toNat) else none
  | 1 =>
    if known ≠ 0 ∧ size % known = 0 then
      some (lengths.map fun n => if n < 0 then size / known else n.toNat)
    else none
  | _ => none

/-- The text of a shape; a single length is followed by a comma. -/
def text : Shape → Text
  | [n] => "(" ++ Text.ofNat n ++ ",)"
  | ns => "(" ++ Text.join ", " (ns.map Text.ofNat) ++ ")"

/-- The parts of a list, `size` items each; `count` of them. -/
def chunks {α : Type} (size : Nat) : Nat → List α → List (List α)
  | 0, _ => []
  | count + 1, items => items.take size :: chunks size count (items.drop size)

/-- How many items are shown at each end of a long dimension. -/
def edge : Nat := 3

/-- A dimension is long if its two ends do not make it up. -/
def isLong (n : Nat) : Bool := 2 * edge < n

/-- The items at the two ends of a long dimension, or all items. -/
def ends {α : Type} (items : List α) : List α :=
  if isLong items.length then items.take edge ++ items.drop (items.length - edge) else items

/-- The items at the ends of all dimensions. -/
def corners {α : Type} : Shape → List α → List α
  | [], items => items
  | n :: inner, items => (ends (chunks (size inner) n items)).flatMap (corners inner)

/-- The common shape of two, each with its last dimension first: a length of one, or a missing one,
is stretched. -/
def stretchReversed? : Shape → Shape → Option Shape
  | [], t => some t
  | s, [] => some s
  | m :: s, n :: t => do
    let rest ← stretchReversed? s t
    if m = n ∨ n = 1 then some (m :: rest) else if m = 1 then some (n :: rest) else none

/-- The common shape to which two are stretched. -/
def stretch? (s t : Shape) : Option Shape :=
  (stretchReversed? s.reverse t.reverse).map List.reverse

end Shape

end TypedSexp
