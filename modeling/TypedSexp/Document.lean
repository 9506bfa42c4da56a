import TypedSexp.Sexp.Printer
import TypedSexp.Sexp.Reading
/-!
# Documents

A file of S-expressions holds UTF-8 text, in which a carriage return, alone or before a line feed,
counts as a line feed. Saving writes every tree followed by a line feed, in the canonical form or in
the human layout.
-/

namespace TypedSexp.Document

/-- Carriage returns, alone or before a line feed, as line feeds. -/
def normalize : Text → Text
  | [] => []
  | c :: rest =>
    if c = '\r' then
      match rest with
      | d :: more => if d = '\n' then '\n' :: normalize more else '\n' :: normalize (d :: more)
      | [] => ['\n']
    else c :: normalize rest

/-- The text of a file. -/
def text (content : Utf8.Bytes) : Except Utf8.Fault Text := (Utf8.decode content).map normalize

/-- A tree in the chosen form. -/
def form (human : Bool) (s : Sexp) : Text := if human then s.layout {} else s.print

/-- The text of a document of trees. -/
def render (human : Bool) (trees : List Sexp) : Text :=
  trees.flatMap fun s => form human s ++ "\n"

/-- The file of a document of trees; every text that is written has one. -/
def save? (human : Bool) (trees : List Sexp) : Option Utf8.Bytes := Utf8.encode? (render human trees)

/-- The text of a file as a source. -/
def source (content : Utf8.Bytes) : Except ReadFailure Source :=
  match text content with
  | .ok t => .ok (.text t)
  | .error fault => .error (.source (.notUtf8 fault))

/-- The trees of a file under a name. -/
def load (content : Utf8.Bytes) (file : Text) : Except ReadFailure (List Node) := do
  (← source content).parseMany 0 file

/-- The one tree of a file under a name. -/
def loadOne (content : Utf8.Bytes) (file : Text) : Except ReadFailure Node := do
  (← source content).parse 0 file

end TypedSexp.Document
