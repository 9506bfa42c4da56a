import TypedSexp.Conversion.Basic
import TypedSexp.Exception.Raised
import TypedSexp.Sexp.Draft
/-!
# The registry of exception handlers

A registry maps classes of exceptions to handlers, which make S-expressions of exceptions. The
handler of an exception is that of the nearest registered class in its lineage. If it fails, or gives
something else, a warning is noted and the generic form is used: the class and the arguments.
-/

namespace TypedSexp

/-- What a handler gives: a thing, which may be no tree or have things in it that are none, or an
exception of its own. Where that one is shown it says its message, or raises another exception. -/
inductive Outcome where
  | given (d : Draft)
  | failed (className : Text) (shown : Except Text Text)
deriving Repr

/-- What a handler gives by a value. -/
def Outcome.ofValue : Value → Outcome
  | .sexp s => .given (.ofSexp s)
  | v => .given (.foreign v.typeName)

/-- The arguments as texts behind a head. -/
def Outcome.displayed (head : Text) (e : Raised) : Outcome :=
  match e.args.mapM Value.display with
  | .ok texts => .given (.ofSexp (.list (.atom head :: texts.map .atom)))
  | .error fault => .failed fault.className (.ok fault.message)

/-- What makes trees of exceptions. -/
inductive Handler where
  | ready (label : Option Text) (run : Raised → Outcome)
  | derived (name : Text) (converters : List Converter)

/-- Handlers by class, the last registered first. -/
abbrev Registry := List (ClassNumber × Handler)

namespace Handler

/-- What an error of writing says; a missing key is quoted. -/
def errorText (e : WriteError) : Text :=
  match e with
  | .missingField .. => Literal.ofText e.message
  | _ => e.message

/-- Writes arguments, each with its converter. -/
def writeArgs (course : Course Remembering) :
    List Converter → List Value → Remembering WriteError (List Sexp)
  | c :: cs, v :: vs => do
    let s ← course.write c v
    let ss ← writeArgs course cs vs
    pure (s :: ss)
  | _, _ => pure []

/-- The derived form: the name and the arguments; the name alone if there are none. -/
def runDerived (setting : Setting) (name : Text) (converters : List Converter) (args : List Value) :
    Outcome :=
  if args.length = converters.length then
    match (writeArgs setting.live converters args setting.deriver).1 with
    | .error e => .failed (e.className) (.ok (errorText e))
    | .ok [] => .given (.ofSexp (.atom name))
    | .ok written => .given (.ofSexp (.list (.atom name :: written)))
  else
    .failed "ValueError"
      (.ok (name ++ ": expected " ++ Text.ofNat converters.length ++ " argument(s), got "
        ++ Text.ofNat args.length))

/-- The label of a handler; derived ones are labelled as such. -/
def label : Handler → Option Text
  | .ready label _ => label
  | .derived .. => some "derived"

/-- What a handler makes of an exception. -/
def run (setting : Setting) (e : Raised) : Handler → Outcome
  | .ready _ f => f e
  | .derived name converters => runDerived setting name converters e.args

end Handler

namespace Registry

/-- A class that is none of exceptions is refused. -/
structure NotException where
  className : Text
deriving DecidableEq, Repr

namespace NotException

/-- The wording of the refusal. -/
def message (f : NotException) : Text :=
  "expected an exception type, got <class '" ++ f.className ++ "'>"

end NotException

/-- Registers a handler for a class, in place of an earlier one. -/
def register (r : Registry) (c : ExceptionClass) (handler : Handler) :
    Except NotException Registry :=
  if c.isException then .ok ((c.number, handler) :: r.filter fun entry => entry.1 != c.number)
  else .error ⟨c.qualifiedName⟩

/-- Registers the derived form for a class. -/
def registerDerived (r : Registry) (c : ExceptionClass) (converters : List Converter) :
    Except NotException Registry :=
  r.register c (.derived c.name converters)

/-- The class has a handler of its own. -/
def contains (r : Registry) (c : ExceptionClass) : Bool := (List.lookup c.number r).isSome

/-- The handler of a class: that of the nearest registered class in its lineage. -/
def find? (r : Registry) (c : ExceptionClass) : Option Handler :=
  c.lineage.findSome? fun n => List.lookup n r

/-- The tree of an exception, and the warnings. Of what a handler gives only the top is looked at,
so in its tree there may still be things that are none. An exception is passed on in one case: it is
raised where the exception of the handler is shown for the warning. -/
def convert (r : Registry) (h : Hierarchy) (setting : Setting) (e : Raised) :
    Except Text (Draft × List Text) :=
  match (r.find? e.kind).map (Handler.run setting e) with
  | none => .ok (.ofSexp (e.fallback h), [])
  | some (.given (.foreign typeName)) =>
    .ok (.ofSexp (e.fallback h),
      ["Converter for " ++ e.kind.name ++ " returned " ++ typeName ++ ", not a Sexp"])
  | some (.given d) => .ok (d, [])
  | some (.failed className (.ok message)) =>
    .ok (.ofSexp (e.fallback h),
      ["Converter for " ++ e.kind.name ++ " raised " ++ className ++ ": " ++ message
        ++ "; using the generic form"])
  | some (.failed _ (.error className)) => .error className

end Registry

end TypedSexp
