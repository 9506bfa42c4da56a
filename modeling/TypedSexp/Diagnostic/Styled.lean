import TypedSexp.Text.Basic
/-!
# Styled text

A rendering is laid out as pieces with a style, and painted afterwards. Painting in colour puts an
escape sequence before a styled piece and a reset after it, and painting without colour writes the
bare text; so the layout cannot depend on colour.
-/

namespace TypedSexp

/-- What a piece is, for its colour. -/
inductive Style where
  | plain
  | strong
  | alarm
  | gutter
  | hint
deriving DecidableEq, Repr

/-- The escape sequences that switch a style on. -/
def Style.codes : Style → List Text
  | .plain => []
  | .strong => ["\x1b[1m"]
  | .alarm => ["\x1b[1m", "\x1b[31m"]
  | .gutter => ["\x1b[1m", "\x1b[34m"]
  | .hint => ["\x1b[1m", "\x1b[36m"]

/-- The escape sequence that ends every style. -/
def Style.reset : Text := "\x1b[0m"

/-- A text with a style. -/
structure Piece where
  style : Style
  text : Text
deriving DecidableEq, Repr

/-- The piece as text. -/
def Piece.paint (color : Bool) (p : Piece) : Text :=
  if color && p.style ≠ .plain then p.style.codes.flatten ++ p.text ++ Style.reset else p.text

/-- A line of pieces. -/
abbrev StyledLine := List Piece

/-- The line as text. -/
def StyledLine.paint (color : Bool) (line : StyledLine) : Text := line.flatMap (Piece.paint color)

/-- Lines as text, line feeds between them. -/
def paintLines (color : Bool) (lines : List StyledLine) : Text :=
  Text.join "\n" (lines.map (StyledLine.paint color))

end TypedSexp
