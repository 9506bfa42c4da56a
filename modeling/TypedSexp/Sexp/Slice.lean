import TypedSexp.Sexp.Basic
/-!
# Items of a list

Items are counted from zero, and negative numbers count from the end. A slice takes the items from a
start up to but not including a stop, at a step that is not zero; a negative step goes backwards.
Bounds beyond the ends are moved to the ends.
-/

namespace TypedSexp

/-- The item with a number. -/
def itemAt? {α : Type} (items : List α) (index : Int) : Option α :=
  let i := if index < 0 then index + items.length else index
  if i < 0 then none else items[i.toNat]?

/-- A slice; absent bounds are the ends, in the direction of the step. -/
structure Slice where
  start : Option Int
  stop : Option Int
  step : Int := 1
deriving DecidableEq, Repr

namespace Slice

/-- The slice of one bound, which is the stop, of start and stop, or of these and the step. -/
def ofBounds? : List (Option Int) → Option Slice
  | [stop] => some ⟨none, stop, 1⟩
  | [start, stop] => some ⟨start, stop, 1⟩
  | [start, stop, step] => some ⟨start, stop, step.getD 1⟩
  | _ => none

/-- A bound moved into a list: negative ones count from the end. -/
def clamp (low high length bound : Int) : Int :=
  max low (min high (if bound < 0 then bound + length else bound))

/-- The numbers of the items, `none` if the step is zero. -/
def indices? (s : Slice) (length : Nat) : Option (List Nat) :=
  let n : Int := length
  if s.step = 0 then none
  else if 0 < s.step then
    let start := (s.start.map (clamp 0 n n)).getD 0
    let stop := (s.stop.map (clamp 0 n n)).getD n
    let count := ((stop - start + s.step - 1) / s.step).toNat
    some ((List.range count).map fun (i : Nat) => (start + i * s.step).toNat)
  else
    let start := (s.start.map (clamp (-1) (n - 1) n)).getD (n - 1)
    let stop := (s.stop.map (clamp (-1) (n - 1) n)).getD (-1)
    let count := ((start - stop - s.step - 1) / (-s.step)).toNat
    some ((List.range count).map fun (i : Nat) => (start + i * s.step).toNat)

/-- The items of a slice. -/
def items? {α : Type} (s : Slice) (items : List α) : Option (List α) :=
  (s.indices? items.length).map fun is => is.filterMap (items[·]?)

end Slice

end TypedSexp
