import TypedSexp.Text.Utf8
/-!
# Places in a text

A `Position` is a point of a text, counted in bytes of its UTF-8 form and in lines and columns: a
line ends at a line feed, and columns count code points from one. A `Location` is a span of a named
text, kept by trees and errors.
-/

namespace TypedSexp

/-- A point of a text. -/
structure Position where
  offset : Nat
  line : Nat
  column : Nat
deriving DecidableEq, Repr

namespace Position

/-- The start of a text. -/
def start : Position := ⟨0, 1, 1⟩

/-- The position after one code point. -/
def step (p : Position) (c : CodePoint) : Position :=
  if c = '\n' then ⟨p.offset + Utf8.width c, p.line + 1, 1⟩
  else ⟨p.offset + Utf8.width c, p.line, p.column + 1⟩

/-- The position after a text. -/
def advance (p : Position) (t : Text) : Position := t.foldl step p

@[simp] theorem advance_nil (p : Position) : p.advance [] = p := rfl

theorem advance_cons (p : Position) (c : CodePoint) (t : Text) :
    p.advance (c :: t) = (p.step c).advance t := rfl

theorem advance_append (p : Position) (s t : Text) :
    p.advance (s ++ t) = (p.advance s).advance t := List.foldl_append

end Position

/-- A span of a named text: where it starts, its bytes from `start` up to `stop` (exclusive), and
where it ends, just past its last code point. End line zero stands for an unknown end. -/
structure Location where
  file : Text
  line : Int
  column : Int
  start : Int := 0
  stop : Int := 0
  endLine : Int := 0
  endColumn : Int := 0
deriving DecidableEq, Repr

namespace Location

/-- The span between two positions. -/
def between (file : Text) (first last : Position) : Location :=
  ⟨file, first.line, first.column, first.offset, last.offset, last.line, last.column⟩

/-- The span with numbers in the order of the fields; those that are missing are zero. -/
def ofNumbers (file : Text) (ns : List Int) : Location :=
  ⟨file, ns.getD 0 0, ns.getD 1 0, ns.getD 2 0, ns.getD 3 0, ns.getD 4 0, ns.getD 5 0⟩

/-- The name, line and column, with colons between them. -/
def render (l : Location) : Text :=
  l.file ++ ":" ++ Text.ofInt l.line ++ ":" ++ Text.ofInt l.column

end Location

end TypedSexp
