import TypedSexp.Text.Ranges
/-!
# Blank code points

Blanks separate tokens: the white space of Unicode and the four information separators.
-/

namespace TypedSexp

namespace CodePoint

/-- The blank code points, in increasing order. -/
def blanks : Ranges :=
  [
   (9, 13), (28, 32), (133, 133), (160, 160), (5760, 5760), (8192, 8202), (8232, 8233), (8239,
   8239), (8287, 8287), (12288, 12288)]

/-- Blank: separates tokens. -/
def isBlank (c : CodePoint) : Bool := blanks.mem c.val

end CodePoint

/-- The text without the blanks at its two ends. -/
def Text.strip (t : Text) : Text :=
  ((t.dropWhile CodePoint.isBlank).reverse.dropWhile CodePoint.isBlank).reverse

/-- The text without the blanks at its end. -/
def Text.stripRight (t : Text) : Text := (t.reverse.dropWhile CodePoint.isBlank).reverse

end TypedSexp
