import TypedSexp.Diagnostic.Basic
import TypedSexp.Sexp.Node
import TypedSexp.Sexp.Printer
import TypedSexp.Sexp.Reading
/-!
# Failures

A failure has a stable code, a message and perhaps a place. A conversion error also keeps the
offending tree and the path that leads to it from the whole value: field names, constructor tags and
indices, outermost first. `Failure.describe` is the text of a failure: rendered against its source
if that is attached, otherwise in short.
-/

namespace TypedSexp

/-- One step of a path. -/
inductive Segment where
  | index (i : Int)
  | name (t : Text)
deriving DecidableEq, Repr

/-- The text of a path: indices in brackets, names after a point. -/
def formatPath (path : List Segment) : Text :=
  path.flatMap fun
    | .index i => "[" ++ Text.ofInt i ++ "]"
    | .name t => "." ++ t

/-- Why a tree is not the value that a converter expects; `what` names the converter. -/
inductive ConversionCause where
  | arity (what : Text) (expected got : Int)
  | unknownTag (what tag : Text) (candidates : List Text)
  | missingFields (what : Text) (fields : List Text)
  | duplicateField (what field : Text)
  | unknownField (what field : Text) (known : List Text)
  | unexpectedShape (what expected : Text) (detail : Option Text)
  | sealedValue (what : Text)
  | other (message : Text)
deriving DecidableEq, Repr

namespace ConversionCause

/-- The wording of a cause. -/
def message : ConversionCause → Text
  | .arity what expected got =>
    what ++ ": expected " ++ Text.ofInt expected ++ " element(s), got " ++ Text.ofInt got
  | .unknownTag what tag _ => what ++ ": unknown tag `" ++ tag ++ "`"
  | .missingFields what fields =>
    what ++ (if fields.length = 1 then ": missing field " else ": missing fields ")
      ++ Text.join ", " fields
  | .duplicateField what field => what ++ ": duplicate field " ++ field
  | .unknownField what field _ => what ++ ": unknown field " ++ field
  | .unexpectedShape what expected detail =>
    let detail : Text := match Diagnostic.present detail with
      | some d => " (" ++ d ++ ")"
      | none => []
    what ++ ": expected " ++ expected ++ detail
  | .sealedValue what => what ++ ": cannot reconstruct opaque value"
  | .other message => message

/-- The code of a cause. -/
def code : ConversionCause → Text
  | .arity .. => "E0101"
  | .unknownTag .. => "E0102"
  | .missingFields .. => "E0103"
  | .duplicateField .. => "E0104"
  | .unknownField .. => "E0105"
  | .unexpectedShape .. => "E0106"
  | .sealedValue .. => "E0107"
  | .other .. => "E0106"

/-- The class of exception of a cause. -/
def className : ConversionCause → Text
  | .arity .. => "ArityMismatchError"
  | .unknownTag .. => "UnknownTagError"
  | .missingFields .. => "MissingFieldError"
  | .duplicateField .. => "DuplicateFieldError"
  | .unknownField .. => "UnknownFieldError"
  | .unexpectedShape .. => "UnexpectedShapeError"
  | .sealedValue .. => "OpaqueReconstructionError"
  | .other .. => "ConversionError"

/-- What would have been accepted, where that is a list of names. -/
def help : ConversionCause → Option Text
  | .unknownTag _ _ candidates =>
    if candidates.isEmpty then none else some ("expected one of: " ++ Text.join ", " candidates)
  | .unknownField _ _ known =>
    if known.isEmpty then none else some ("known fields: " ++ Text.join ", " known)
  | _ => none

end ConversionCause

/-- A tree that does not have the shape that a converter expects. -/
structure ConversionError where
  cause : ConversionCause
  node : Option Node
  path : List Segment := []
deriving Repr

namespace ConversionError

/-- The error seen from one step further out. -/
def within (e : ConversionError) (s : Segment) : ConversionError := { e with path := s :: e.path }

/-- The place of the offending tree. -/
def location (e : ConversionError) : Option Location := e.node.bind Node.location

/-- The message, with the path if there is one. -/
def headline (e : ConversionError) : Text :=
  if e.path.isEmpty then e.cause.message
  else e.cause.message ++ " (at " ++ formatPath e.path ++ ")"

/-- The offending tree in canonical form. -/
def offending (e : ConversionError) : Option Text := e.node.map fun n => n.sexp.print

end ConversionError

/-- What can go wrong with a text or a type description. -/
inductive Failure where
  | general (message : Text) (location : Option Location)
  | parse (message : Text) (location : Option Location)
  | description (message : Text) (location : Option Location)
  | conversion (e : ConversionError)
deriving Repr

namespace Failure

/-- The code of a failure. -/
def code : Failure → Text
  | .general .. => "E9999"
  | .parse .. => "E0001"
  | .description .. => "E0201"
  | .conversion e => e.cause.code

/-- The class of exception of a failure. -/
def className : Failure → Text
  | .general .. => "SexpError"
  | .parse .. => "ParseError"
  | .description .. => "DescriptorError"
  | .conversion e => e.cause.className

/-- The message without the path. -/
def message : Failure → Text
  | .general m _ => m
  | .parse m _ => m
  | .description m _ => m
  | .conversion e => e.cause.message

/-- The place of a failure. -/
def location : Failure → Option Location
  | .general _ l => l
  | .parse _ l => l
  | .description _ l => l
  | .conversion e => e.location

/-- The message with the path. -/
def headline : Failure → Text
  | .conversion e => e.headline
  | f => f.message

/-- The diagnostic of a failure. -/
def diagnostic (f : Failure) : Diagnostic :=
  let plain : Diagnostic :=
    { message := f.headline, location := f.location, code := some f.code }
  match f with
  | .conversion e =>
    { plain with
      help := e.cause.help
      note := e.offending.map fun (t : Text) => "offending value: " ++ t }
  | _ => plain

/-- The text of a failure. Without a place it is the headline, with the offending tree if there is
one; with a place and the source attached it is the rendered diagnostic; else code, headline and
place. -/
def describe (f : Failure) (source : Option Text) (color : Bool) : Text :=
  match f.location, source with
  | none, _ =>
    match f with
    | .conversion e =>
      match e.offending with
      | some t => f.headline ++ ": " ++ t
      | none => f.headline
    | _ => f.headline
  | some l, some text => f.diagnostic.render [(l.file, text)] color
  | some l, none => "error[" ++ f.code ++ "]: " ++ f.headline ++ "\n --> " ++ l.render

/-- The failure of a malformed text. -/
def ofParse (p : ParseFault) : Failure := .parse p.cause.message (some p.location)

end Failure

/-- A fault of the library's caller: something that is no S-expression was to be printed. -/
structure InternalFault where
  message : Text
  code : Text := "E9999"
deriving DecidableEq, Repr

namespace InternalFault

/-- The code in brackets and the message. -/
def describe (f : InternalFault) : Text := "[" ++ f.code ++ "] " ++ f.message

/-- A thing of a foreign type cannot be printed. -/
def unprintable (typeName : Text) : InternalFault :=
  ⟨"Cannot print " ++ typeName ++ " as a sexp", "E9999"⟩

end InternalFault

end TypedSexp
