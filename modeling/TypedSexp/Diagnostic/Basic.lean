import TypedSexp.Diagnostic.Styled
import TypedSexp.Sexp.Location
import TypedSexp.Text.Blank
/-!
# Diagnostics

A diagnostic is a message with an optional code, place, label, help and note. It is rendered as a
headline, the place, the source lines with the span marked by carets, and the remarks. A span
on one line is underlined; a span on several lines has a caret under its first and one under its
last code point, joined by a margin.
-/

namespace TypedSexp

/-- A message about a place. Empty optional texts count as absent. -/
structure Diagnostic where
  message : Text
  location : Option Location
  code : Option Text := none
  help : Option Text := none
  note : Option Text := none
  label : Option Text := none
deriving DecidableEq, Repr

/-- Source texts by name. -/
abbrev Sources := List (Text × Text)

namespace Diagnostic

/-- An optional text, unless it is empty. -/
def present (t : Option Text) : Option Text := t.filter (!·.isEmpty)

/-- Spaces; a negative number gives none. -/
def spaces (n : Int) : Text := Text.times " " n

/-- The headline: the code in brackets and the message. -/
def headline (d : Diagnostic) : StyledLine :=
  let code : Text := match present d.code with
    | some c => "[" ++ c ++ "]"
    | none => []
  [⟨.alarm, "error" ++ code⟩, ⟨.strong, ": " ++ d.message⟩]

/-- A remark under the source lines, indented by the width of the line numbers. -/
def remark (width : Nat) (title text : Text) : StyledLine :=
  [⟨.hint, spaces (width + 1) ++ "= "⟩, ⟨.strong, title ++ ": "⟩, ⟨.plain, text⟩]

/-- Help and note, with an empty gutter above them. -/
def remarks (d : Diagnostic) (width : Nat) : List StyledLine :=
  let help := (present d.help).map (remark width "help")
  let note := (present d.note).map (remark width "note")
  let shown := help.toList ++ note.toList
  if shown.isEmpty then [] else [⟨.gutter, spaces (width + 1) ++ "|"⟩] :: shown

/-! ## Source lines -/

/-- The line with a number, counted from one; outside the source lines are empty. -/
def lineAt (lines : List Text) (number : Int) : Text :=
  if number < 1 then [] else lines[(number - 1).toNat]?.getD []

/-- The number of a line, filled up on the left to a width, and a bar. -/
def numberGutter (width : Nat) (number : Int) : Piece :=
  let n := Text.ofInt number
  ⟨.gutter, spaces (width - n.length) ++ n ++ " | "⟩

/-- The gutter of a line of marks. -/
def markGutter (width : Nat) : Piece := ⟨.gutter, spaces (width + 1) ++ "| "⟩

/-- A code point that ends the atom at a place. -/
def endsSpan (c : CodePoint) : Bool := c.isBlank || c = '(' || c = ')' || c = ';'

/-- How many code points to mark from a column on when the end is unknown: the atom there. -/
def guessSpan (line : Text) (start : Nat) : Nat :=
  max 1 ((line.drop start).takeWhile fun c => !endsSpan c).length

/-- The label after a mark. -/
def labelSuffix (d : Diagnostic) : Text :=
  match present d.label with
  | some l => " " ++ l
  | none => []

/-- A span on one line: the line, and carets under the span. -/
def underlined (d : Diagnostic) (l : Location) (lines : List Text) (width : Nat) :
    List StyledLine :=
  let line := lineAt lines l.line
  let column := max l.column 1
  let span : Int :=
    if column < l.endColumn then l.endColumn - column else guessSpan line (column - 1).toNat
  let carets := spaces (column - 1) ++ Text.times "^" (max 1 span) ++ labelSuffix d
  [[numberGutter width l.line, ⟨.plain, line⟩], [markGutter width, ⟨.alarm, carets⟩]]

/-- The mark under the first code point of a span on several lines. -/
def openingMark (column : Int) : Text :=
  if 1 < column then " " ++ Text.times "_" (column - 2) ++ "^" else "^"

/-- The mark under the last code point of a span on several lines; without a known end it stands
behind the line. -/
def closingMark (line : Text) (endColumn : Int) : Text :=
  let dashes : Int := if 0 < endColumn then endColumn - 1 else line.stripRight.length
  "|" ++ Text.times "_" (max 1 dashes) ++ "^"

/-- A line inside a span on several lines, with the margin that joins the two marks. -/
def continued (lines : List Text) (width : Nat) (number : Int) : StyledLine :=
  [numberGutter width number, ⟨.alarm, "| "⟩, ⟨.plain, lineAt lines number⟩]

/-- A span on several lines, from its first line to `last`, which is its end or the end of the
source. -/
def bracketed (d : Diagnostic) (l : Location) (lines : List Text) (width : Nat) (last : Int) :
    List StyledLine :=
  let first := lineAt lines l.line
  let opening : List StyledLine :=
    [[numberGutter width l.line, ⟨.plain, first⟩],
     [markGutter width, ⟨.alarm, openingMark (max l.column 1)⟩]]
  let following := (List.range (last - l.line).toNat).map fun (i : Nat) => l.line + 1 + (i : Int)
  opening ++ following.flatMap fun number =>
    if number = l.endLine then
      [continued lines width number,
       [markGutter width,
        ⟨.alarm, closingMark (lineAt lines number) l.endColumn ++ labelSuffix d⟩]]
    else [continued lines width number]

/-- The rendering at a known place of a known source. -/
def atSource (d : Diagnostic) (l : Location) (source : Text) : List StyledLine :=
  let lines := source.lines
  let endLine := if l.endLine ≠ 0 ∧ l.line ≤ l.endLine then l.endLine else l.line
  let last : Int := max l.line (min (lines.length : Int) endLine)
  let width := (Text.ofInt last).length
  let body :=
    if l.line < endLine then bracketed d l lines width last else underlined d l lines width
  [[⟨.gutter, spaces width ++ "--> "⟩, ⟨.plain, l.render⟩],
   [⟨.gutter, spaces (width + 1) ++ "|"⟩]] ++ body ++ remarks d width

/-- The lines of a diagnostic. -/
def rows (d : Diagnostic) (sources : Sources) : List StyledLine :=
  let arrow (place : Text) : StyledLine := [⟨.gutter, " --> "⟩, ⟨.plain, place⟩]
  d.headline ::
    match d.location with
    | none => arrow "<unknown location>" :: remarks d 1
    | some l =>
      match sources.lookup l.file with
      | none => arrow l.render :: remarks d 1
      | some source => atSource d l source

/-- The text of a diagnostic. -/
def render (d : Diagnostic) (sources : Sources) (color : Bool) : Text :=
  paintLines color (d.rows sources)

end Diagnostic

/-! ## Reports -/

/-- Diagnostics against known sources. -/
structure Report where
  sources : Sources
  entries : List Diagnostic
deriving Repr

namespace Report

/-- The closing line: how many errors there were. -/
def summary (r : Report) : StyledLine :=
  let count := r.entries.length
  let noun : Text := if count = 1 then "error" else "errors"
  [⟨.alarm, "error"⟩,
   ⟨.strong, ": aborting due to " ++ Text.ofNat count ++ " previous " ++ noun⟩]

/-- All diagnostics and the closing line, an empty line between two of them. -/
def render (r : Report) (color : Bool) : Text :=
  Text.join "\n\n"
    (r.entries.map (·.render r.sources color) ++ [StyledLine.paint color r.summary])

end Report

end TypedSexp
