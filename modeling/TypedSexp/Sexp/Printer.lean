import TypedSexp.Sexp.Atom
/-!
# Printing

`Sexp.print` is the canonical form: one line, single spaces. `Sexp.layout` keeps a list on one line
if it fits the width, counted from the indentation of its nesting level, and otherwise puts every
item but the first on a line of its own, one level deeper.
-/

namespace TypedSexp

namespace Sexp

mutual

/-- The canonical form. -/
def print : Sexp → Text
  | .atom t => Atom.format t
  | .list items => "(" ++ Text.join " " (printAll items) ++ ")"

/-- The canonical forms of several trees. -/
def printAll : List Sexp → List Text
  | [] => []
  | x :: xs => print x :: printAll xs

end

end Sexp

/-- The measures of a human layout: spaces per level, and the preferred width of a line. -/
structure Layout where
  indent : Int := 1
  width : Int := 78
deriving DecidableEq, Repr

namespace Layout

/-- The indentation of a nesting level. -/
def margin (l : Layout) (level : Nat) : Text := Text.times (Text.times " " l.indent) level

/-- A line that starts at a level fits. -/
def fits (l : Layout) (level : Nat) (line : Text) : Bool :=
  ((l.margin level).length + line.length : Int) ≤ l.width && !line.contains (CodePoint.ofChar '\n')

/-- An item on a line of its own. -/
def broken (l : Layout) (level : Nat) (item : Text) : Text := "\n" ++ l.margin level ++ item

/-- A list laid out from its items: on one line if that fits, else broken after the first. -/
def arrange (l : Layout) (level : Nat) : List Text → Text
  | [] => "()"
  | first :: rest =>
    let line : Text := "(" ++ Text.join " " (first :: rest) ++ ")"
    if l.fits level line then line
    else "(" ++ first ++ rest.flatMap (l.broken (level + 1)) ++ ")"

end Layout

namespace Sexp

mutual

/-- The layout of a tree at a nesting level. -/
def layoutAt (l : Layout) (level : Nat) : Sexp → Text
  | .atom t => Atom.format t
  | .list items => l.arrange level (layoutAll l (level + 1) items)

/-- The layouts of several trees at one level. -/
def layoutAll (l : Layout) (level : Nat) : List Sexp → List Text
  | [] => []
  | x :: xs => layoutAt l level x :: layoutAll l level xs

end

/-- The human layout. -/
def layout (s : Sexp) (l : Layout) : Text := layoutAt l 0 s

end Sexp

end TypedSexp
