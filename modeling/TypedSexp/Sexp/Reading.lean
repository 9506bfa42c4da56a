import TypedSexp.Sexp.Node
import TypedSexp.Sexp.Token
/-!
# Reading trees

`Reading.of` assembles tokens into trees: the top-level trees that are complete, in order, and the
fault that ended them, if any. A `Source` is a text or bytes; reading starts at a byte offset, and
all places count from the start of the source. `Source.parseMany` asks for no fault, and
`Source.parse` for exactly one tree.
-/

namespace TypedSexp

/-- Why a text is no S-expression. -/
inductive ParseCause where
  | unexpectedClosing
  | unterminatedQuote
  | unclosed
  | emptyInput
  | trailingInput
deriving DecidableEq, Repr

/-- The wording of a cause. -/
def ParseCause.message : ParseCause → Text
  | .unexpectedClosing => "unexpected closing parenthesis"
  | .unterminatedQuote => "unterminated quoted atom"
  | .unclosed => "unclosed parenthesis: input ended before the matching `)`"
  | .emptyInput => "empty input: expected an S-expression"
  | .trailingInput => "trailing input after the S-expression"

/-- A malformed text, and where. -/
structure ParseFault where
  cause : ParseCause
  location : Location
deriving DecidableEq, Repr

/-- Trees that were read, and the fault that ended the reading. -/
structure Reading where
  values : List Node
  fault : Option ParseFault
deriving Repr

namespace Reading

/-- A list that is still open: its parenthesis, and its items so far, the last one first. -/
structure Frame where
  opening : Token
  items : List Node

/-- The reading that ends with a fault. -/
def failed (cause : ParseCause) (location : Location) : Reading := ⟨[], some ⟨cause, location⟩⟩

/-- The location of a token. -/
def place (file : Text) (t : Token) : Location := .between file t.start t.stop

/-- The location of the one code point at a position, which is a double quote. -/
def quotePlace (file : Text) (p : Position) : Location :=
  .between file p ⟨p.offset + 1, p.line, p.column + 1⟩

/-- Assembles tokens into trees, inside the lists that are open; the innermost list comes first.
At the end of the tokens an open quote is a fault, and else the outermost open list. -/
def assemble (file : Text) (unterminated : Option Position) :
    List Frame → List Token → Reading
  | frames, [] =>
    match unterminated, frames.getLast? with
    | some p, _ => failed .unterminatedQuote (quotePlace file p)
    | none, some frame => failed .unclosed (place file frame.opening)
    | none, none => ⟨[], none⟩
  | frames, token :: rest =>
    let atom (text : Text) : Node := .atom text (some (place file token))
    let deliver (frames : List Frame) (value : Node) : Reading :=
      match frames with
      | [] =>
        let r := assemble file unterminated [] rest
        { r with values := value :: r.values }
      | frame :: outer =>
        assemble file unterminated ({ frame with items := value :: frame.items } :: outer) rest
    match token.lexeme with
    | .opening => assemble file unterminated (⟨token, []⟩ :: frames) rest
    | .closing =>
      match frames with
      | [] => failed .unexpectedClosing (place file token)
      | frame :: outer =>
        deliver outer (.list frame.items.reverse (some (.between file frame.opening.start token.stop)))
    | .bare text => deliver frames (atom text)
    | .quoted body => deliver frames (atom (Atom.unescape body))

/-- Reads a text that starts at a position of the file. -/
def of (file : Text) (p : Position) (t : Text) : Reading :=
  let scan := Scan.of p t
  assemble file scan.unterminated [] scan.tokens

end Reading

/-- What is read: a text, or bytes that encode one. -/
inductive Source where
  | text (t : Text)
  | bytes (b : Utf8.Bytes)
deriving DecidableEq, Repr

/-- Why a source has no text at an offset. -/
inductive SourceFault where
  | surrogate
  | notUtf8 (fault : Utf8.Fault)
  | startOutside (start : Int) (length : Nat)
  | startInside (start : Int)
deriving DecidableEq, Repr

namespace SourceFault

/-- The wording of a fault. -/
def message : SourceFault → Text
  | .surrogate => "surrogates not allowed"
  | .notUtf8 fault => fault.message
  | .startOutside start length =>
    "start offset " ++ Text.ofInt start ++ " outside buffer of length " ++ Text.ofNat length
  | .startInside start => "start offset " ++ Text.ofInt start ++ " is inside a multi-byte character"

/-- The class of exception of a fault. -/
def className : SourceFault → Text
  | .surrogate => "UnicodeEncodeError"
  | .notUtf8 _ => "UnicodeDecodeError"
  | .startOutside .. => "ValueError"
  | .startInside _ => "ValueError"

end SourceFault

/-- A source that cannot be read as what was asked for. -/
inductive ReadFailure where
  | source (fault : SourceFault)
  | parse (fault : ParseFault)
deriving DecidableEq, Repr

namespace Source

/-- Splits a text after its first `n` bytes, unless they end inside a code point. -/
def splitAtByte : Nat → Text → Option (Text × Text)
  | 0, t => some ([], t)
  | _ + 1, [] => none
  | n + 1, c :: rest =>
    if Utf8.width c ≤ n + 1 then
      (splitAtByte (n + 1 - Utf8.width c) rest).map fun (before, after) => (c :: before, after)
    else none
termination_by _ t => t.length

/-- The text before the byte offset, and the text from there on. -/
def split (source : Source) (start : Int) : Except SourceFault (Text × Text) := do
  let (decoded, length) ← match source with
    | .text t =>
      if t.any CodePoint.isSurrogate then throw .surrogate else pure (Except.ok t, Utf8.size t)
    | .bytes b => pure (Utf8.decode b, b.length)
  if start < 0 ∨ (length : Int) < start then throw (.startOutside start length)
  match decoded with
  | .error fault => throw (.notUtf8 fault)
  | .ok t =>
    match splitAtByte start.toNat t with
    | some parts => pure parts
    | none => throw (.startInside start)

/-- Reads trees from a byte offset on. -/
def read (source : Source) (start : Int) (file : Text) : Except SourceFault Reading := do
  let (before, body) ← source.split start
  pure (Reading.of file (Position.start.advance before) body)

/-- All trees from a byte offset on. -/
def parseMany (source : Source) (start : Int) (file : Text) : Except ReadFailure (List Node) :=
  match source.read start file with
  | .error fault => .error (.source fault)
  | .ok ⟨values, none⟩ => .ok values
  | .ok ⟨_, some fault⟩ => .error (.parse fault)

/-- The one tree from a byte offset on. What follows a second tree is not looked at. -/
def parse (source : Source) (start : Int) (file : Text) : Except ReadFailure Node :=
  match source.split start with
  | .error fault => .error (.source fault)
  | .ok (before, body) =>
    let first := Position.start.advance before
    match Reading.of file first body with
    | ⟨_ :: second :: _, _⟩ =>
      .error (.parse ⟨.trailingInput, second.location.getD ⟨file, 0, 0, 0, 0, 0, 0⟩⟩)
    | ⟨_, some fault⟩ => .error (.parse fault)
    | ⟨[value], none⟩ => .ok value
    | ⟨[], none⟩ =>
      let last := first.advance body
      .error (.parse ⟨.emptyInput,
        ⟨file, last.line, last.column, last.offset, last.offset, 0, 0⟩⟩)

end Source

end TypedSexp
