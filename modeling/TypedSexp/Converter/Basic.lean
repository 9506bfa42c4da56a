import TypedSexp.Diagnostic.Failure
import TypedSexp.Description.Fault
/-!
# Converters

A converter reads values of one type from trees and writes them back. `Plan` says how: it is the
shape of the type with everything decided that reading and writing need, names for messages
included. A plan is finite: where a definition refers to itself there is a link, which is resolved
when a value is there to be converted.

A converter has an identity of its own beside its name and plan, because derivation remembers
converters by the identities of their arguments.
-/

namespace TypedSexp

/-- The built-in types. -/
inductive Primitive where
  | unit
  | bool
  | int
  | float
  | string
  | char
  | bytes
  | sexp
deriving DecidableEq, Repr

namespace Primitive

/-- The name of a built-in type. -/
def name : Primitive → Text
  | .unit => "unit"
  | .bool => "bool"
  | .int => "int"
  | .float => "float"
  | .string => "string"
  | .char => "char"
  | .bytes => "bytes"
  | .sexp => "sexp"

/-- The built-in types. -/
def all : List Primitive := [.unit, .bool, .int, .float, .string, .char, .bytes, .sexp]

/-- The built-in type with a name. -/
def ofName? (t : Text) : Option Primitive := all.find? fun p => p.name == t

/-- The elements of an array of a built-in type, unless stated otherwise. -/
def element : Primitive → ElementType
  | .int => .int64
  | .float => .double
  | .bool => .boolean
  | _ => .any

end Primitive

/-! ## Failures of conversion -/

/-- Why a tree is not read. Only a `conversion` error is about the tree; `description` is about the
definition behind a link, `construction` about the class of a record, and `raised` comes from a
converter that was given ready-made. A refusal that would have to name an integer with too many
digits is `unspellable`. -/
inductive ReadError where
  | conversion (e : ConversionError)
  | description (fault : DescriptionFault)
  | tooManyDigits
  | unspellable
  | construction (className : Text)
  | raised (className : Text)
  | endless
deriving Repr

/-- The class of exception of an error. -/
def ReadError.className : ReadError → Text
  | .conversion e => e.cause.className
  | .description fault => fault.className
  | .tooManyDigits => "ValueError"
  | .unspellable => "ValueError"
  | .construction _ => "TypeError"
  | .raised className => className
  | .endless => "RecursionError"

/-- A conversion error is seen from one step further out; other errors have no path. -/
def ReadError.within (s : Segment) : ReadError → ReadError
  | .conversion e => .conversion (e.within s)
  | e => e

/-- A refusal that is about a node. -/
def ReadError.about (node : Node) (cause : ConversionCause) : ReadError :=
  .conversion ⟨cause, some node, []⟩

/-- Why a value is not written. A refusal that would have to name an integer with too many digits is
`unspellable`. -/
inductive WriteError where
  | wrongType (writer expected got : Text)
  | tupleLength (writer : Text) (expected got : Nat)
  | arrayShape (writer : Text) (shape : Shape)
  | missingField (writer field : Text)
  | noConstructor (writer literal : Text)
  | constructorArity (writer tag : Text) (expected got : Nat)
  | notText (typeName : Text)
  | unspellable
  | value (fault : ValueFault)
  | description (fault : DescriptionFault)
  | endless
deriving Repr

namespace WriteError

/-- The wording of an error. -/
def message : WriteError → Text
  | .wrongType writer expected got => writer ++ ": expected " ++ expected ++ ", got " ++ got
  | .tupleLength writer expected got =>
    writer ++ ": expected a " ++ Text.ofNat expected ++ "-tuple, got " ++ Text.ofNat got
      ++ " elements"
  | .arrayShape writer shape =>
    writer ++ ": expected a one-dimensional array, got shape " ++ Shape.text shape
  | .missingField writer field =>
    writer ++ ": record value has no field " ++ Literal.ofText field
  | .noConstructor writer literal => writer ++ ": no constructor matches " ++ literal
  | .constructorArity writer tag expected got =>
    writer ++ ": constructor " ++ tag ++ " takes " ++ Text.ofNat expected
      ++ " argument(s), got " ++ Text.ofNat got
  | .notText typeName => "Atom text must be str, not " ++ typeName
  | .unspellable => ValueFault.message .tooManyDigits
  | .value fault => fault.message
  | .description fault => fault.message
  | .endless => "maximum recursion depth exceeded"

/-- The class of exception of an error. -/
def className : WriteError → Text
  | .wrongType .. => "TypeError"
  | .notText _ => "TypeError"
  | .missingField .. => "KeyError"
  | .value fault => fault.className
  | .description fault => fault.className
  | .endless => "RecursionError"
  | _ => "ValueError"

end WriteError

/-! ## Plans -/

/-- What makes a converter itself: a built-in one is known by its type, one given from outside by
its name, and a derived one by its number. -/
inductive Identity where
  | builtin (p : Primitive)
  | given (name : Text)
  | derived (number : Nat)
deriving DecidableEq, Repr

/-- A ready-made converter. -/
structure Custom where
  read : Node → Except ReadError Value
  write : Value → Except WriteError Sexp

/-- A plan with an identity and a name. -/
structure Keyed (π : Type) where
  identity : Identity
  name : Text
  plan : π

/-- A class whose instances are read and written; its fields are named in order. -/
structure ClassInfo where
  name : Text
  fields : List Text
deriving DecidableEq, Repr

/-- A test on values. -/
structure Predicate where
  name : Text
  holds : Value → Except ValueFault Bool

/-- When a field is left out of what is written. -/
inductive Dropping where
  | never
  | ifEqual (default : Value)
  | ifWrittenEqual (default : Value)
  | ifHolds (predicate : Predicate)

/-- Values of a field that are left out in any case. -/
inductive Omission where
  | never
  | nothing
  | empty
deriving DecidableEq, Repr

/-- How a field that is present is written: by its name alone, or with its value. -/
inductive FieldForm (π : Type) where
  | flag
  | valued (converter : Keyed π) (omission : Omission)

/-- A field of a record. `absent` is what the field reads as where it is left out; a field without
that must be there. -/
structure FieldPlan (π : Type) where
  name : Text
  form : FieldForm π
  absent : Option Value
  dropping : Dropping

/-- A record: `label` names it in messages, `instanceOf` is the class of its values if they have
one, and `extra` allows unknown fields. -/
structure RecordPlan (π : Type) where
  label : Text
  instanceOf : Option ClassInfo
  extra : Bool
  fields : List (FieldPlan π)

/-- What follows the tag of a constructor. -/
inductive CaseForm (π : Type) where
  | constant
  | arguments (converters : List (Keyed π))
  | spliced (element : Keyed π)
  | record (fields : RecordPlan π)

/-- A constructor. -/
structure CasePlan (π : Type) where
  tag : Text
  instanceOf : Option ClassInfo
  form : CaseForm π

/-- The number of a type definition. -/
abbrev DefinitionId := Nat

/-- How values of a type are read and written. The labels name the type in messages; `folding`
compares tags without case if none is equal. -/
inductive Plan where
  | primitive (p : Primitive)
  | custom (c : Custom)
  | sealed (label : Text)
  | option (label : Text) (inner : Keyed Plan)
  | list (label : Text) (element : Keyed Plan)
  | array (label : Text) (stored : ElementType) (element : Keyed Plan)
  | tuple (label : Text) (parts : List (Keyed Plan))
  | record (fields : RecordPlan Plan)
  | variant (label : Text) (folding : Bool) (cases : List (CasePlan Plan))
  | link (cell : Nat) (definition : DefinitionId) (args : List (Keyed Plan))

/-- A converter. -/
abbrev Converter := Keyed Plan

namespace Converter

/-- The converter of a built-in type. -/
def ofPrimitive (p : Primitive) : Converter := ⟨.builtin p, p.name, .primitive p⟩

/-- A ready-made converter under a name. -/
def ofCustom (name : Text) (c : Custom) : Converter := ⟨.given name, name, .custom c⟩

/-- How a converter shows itself. -/
def describe (c : Converter) : Text := "<Converter " ++ c.name ++ ">"

/-- The name of a reader in messages. -/
def readerName (label : Text) : Text := label ++ "_of_sexp"

/-- The name of a writer in messages. -/
def writerName (label : Text) : Text := "sexp_of_" ++ label

end Converter

end TypedSexp
