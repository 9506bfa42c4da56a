import TypedSexp.Number.Column
import TypedSexp.Text.Blank
import TypedSexp.Value.Fault
import TypedSexp.Value.Shape
/-!
# Arrays as text

The items of an array stand in brackets, one pair for each dimension, and lines are wrapped: an item
that would pass the end of a line starts the next one, under the first item. An item of several lines
keeps its lines below each other. Of an array with more than a thousand items only the ends of its
dimensions are shown.
-/

namespace TypedSexp

/-- How arrays are laid out: what separates items, how far the first line is indented, and how long
lines may be. -/
structure ArrayLayout where
  separator : Text
  indent : Nat
  width : Nat
deriving Repr

namespace ArrayLayout

/-- The longest line. -/
def lineWidth : Nat := 75

/-- What stands before the items of an array in a literal. -/
def opening : Text := "array("

/-- Behind the opening, with room for the closing parenthesis. Items start a column further, inside
their bracket. -/
def literal : ArrayLayout := ⟨", ", opening.length + 1, lineWidth - 1⟩

/-- Alone. -/
def plain : ArrayLayout := ⟨" ", 1, lineWidth⟩

/-- More items than this are not all shown. -/
def maxItems : Nat := 1000

/-- What stands for the items that are not shown. -/
def ellipsis : Text := "..."

/-! ## Lines -/

/-- A code point that ends a line. -/
def endsLine (c : CodePoint) : Bool :=
  (10 ≤ c.val && c.val ≤ 13) || (28 ≤ c.val && c.val ≤ 30) || c.val == 0x85 || c.val == 0x2028
    || c.val == 0x2029

/-- The lines of a text; a carriage return and a line feed end one line together. -/
def linesOf : Text → List Text
  | [] => []
  | c :: rest =>
    if endsLine c then
      match rest with
      | d :: more => if c = '\r' ∧ d = '\n' then [] :: linesOf more else [] :: linesOf (d :: more)
      | [] => [[]]
    else
      match linesOf rest with
      | [] => [[c]]
      | line :: more => (c :: line) :: more

/-- What has been laid out: the lines that are full, and the line at work. -/
structure Lines where
  done : Text
  line : Text

/-- Blanks in front of a line. -/
def margin (indent : Nat) : Text := Text.times " " indent

/-- The line at work ends, and the next one starts. -/
def Lines.breakWith (l : Lines) (next : Text) : Lines := ⟨l.done ++ l.line.stripRight ++ "\n", next⟩

/-- Adds a word of one line; a word that would pass the limit goes to the next line, unless that
would not help. -/
def Lines.add (limit indent : Nat) (l : Lines) (word : Text) : Lines :=
  let l := if limit < l.line.length + word.length ∧ indent < l.line.length then
    l.breakWith (margin indent) else l
  { l with line := l.line ++ word }

/-- Adds a word; the lines of a word of several lines are put below each other. -/
def Lines.addWord (limit indent : Nat) (l : Lines) (word : Text) : Except ValueFault Lines :=
  match linesOf word with
  | [] => .error .nothingLongest
  | [_] => .ok (l.add limit indent word)
  | first :: rest =>
    let longest := ((first :: rest).map List.length).foldl max 0
    let (start, under) : Lines × Nat :=
      if limit < l.line.length + longest ∧ indent < l.line.length then
        (l.breakWith (margin indent ++ first), indent)
      else ({ l with line := l.line ++ first }, l.line.length)
    let l := rest.foldl (fun l next => l.breakWith (margin under ++ next)) start
    .ok { l with line := Text.padRight (l.line.length + longest - (rest.getLastD first).length) l.line }

/-- Adds words with a separator behind each but the last. -/
def Lines.addWords (separator : Text) (limit indent : Nat) :
    Lines → List (Except ValueFault Text) → Except ValueFault Lines
  | l, [] => .ok l
  | l, [word] => do l.addWord limit indent (← word)
  | l, word :: words => do
    let l ← l.addWord limit indent (← word)
    addWords separator limit indent { l with line := l.line ++ separator } words

/-! ## Arrays -/

/-- The parts that are shown, with an ellipsis for those that are not. -/
def shown {α : Type} (isShort : Bool) (gap : α) (parts : List α) : List α :=
  if isShort && Shape.isLong parts.length then
    parts.take Shape.edge ++ gap :: parts.drop (parts.length - Shape.edge)
  else parts

/-- The texts in order. -/
def inOrder : List (Except ValueFault Text) → Except ValueFault (List Text)
  | [] => .ok []
  | t :: ts => do
    let first ← t
    .ok (first :: (← inOrder ts))

/-- The items of an array in brackets. -/
def bracketed (l : ArrayLayout) (isShort : Bool) :
    Shape → List (Except ValueFault Text) → Except ValueFault Text
  | [], words => words.headD (.ok [])
  | [_], words => do
    let start : Lines := ⟨[], margin l.indent⟩
    let lines ← start.addWords l.separator (l.width - 1) l.indent (shown isShort (.ok ellipsis) words)
    .ok ("[" ++ (lines.done ++ lines.line).drop l.indent ++ "]")
  | n :: inner, words => do
    let parts := (Shape.chunks (Shape.size inner) n words).map
      (bracketed { l with indent := l.indent + 1, width := l.width - 1 } isShort inner)
    let gap := l.separator.stripRight ++ Text.times "\n" inner.length ++ margin l.indent
    .ok ("[" ++ Text.join gap (← inOrder (shown isShort (.ok ellipsis) parts)) ++ "]")

/-- The items of an array; one without items is a pair of brackets. -/
def render (l : ArrayLayout) (s : Shape) (words : List (Except ValueFault Text)) :
    Except ValueFault Text :=
  if s.size = 0 then .ok "[]" else l.bracketed (maxItems < s.size) s words

end ArrayLayout

end TypedSexp
