import TypedSexp.Converter.Basic
import TypedSexp.Value.Sequence
/-!
# Type descriptions

A description says what the values of a type are: built-in ones, tuples, records, variants,
sequences, options, or values of a named definition. Definitions may have parameters and may refer
to themselves and to each other; a `Catalog` holds them by number.

Things from outside may stand where a description belongs. They are kept as `foreign`, so that
derivation can say what it found.
-/

namespace TypedSexp

/-- Whether a field is there, and what it means if it is not. -/
inductive Presence where
  | required
  | option
  | sexpOption
  | sexpList
  | sexpArray
  | sexpBool
deriving DecidableEq, Repr

namespace Presence

/-- The name of a presence. -/
def name : Presence → Text
  | .required => "required"
  | .option => "option"
  | .sexpOption => "sexp_option"
  | .sexpList => "sexp_list"
  | .sexpArray => "sexp_array"
  | .sexpBool => "sexp_bool"

/-- All presences. -/
def all : List Presence := [.required, .option, .sexpOption, .sexpList, .sexpArray, .sexpBool]

/-- The presence with a name. -/
def ofName? (t : Text) : Option Presence := all.find? fun p => p.name == t

end Presence

/-- Which values of a field are left out: none, those equal to the default, those written like the
default, or those for which a predicate holds. -/
inductive DropRule where
  | never
  | ifDefault
  | ifDefaultSexp
  | ifPredicate
deriving DecidableEq, Repr

namespace DropRule

/-- The name of a rule. -/
def name : DropRule → Text
  | .never => "none"
  | .ifDefault => "drop_if_default"
  | .ifDefaultSexp => "drop_if_default_sexp"
  | .ifPredicate => "drop_if"

/-- All rules. -/
def all : List DropRule := [.never, .ifDefault, .ifDefaultSexp, .ifPredicate]

/-- The rule with a name. -/
def ofName? (t : Text) : Option DropRule := all.find? fun r => r.name == t

end DropRule

namespace Predicate

/-- Tests that are known by name: below zero, without items, nothing at all, any value, no value. -/
def all : List Predicate :=
  [⟨"negative", Value.isNegative⟩,
   ⟨"empty", fun v => v.length.map (· == 0)⟩,
   ⟨"is_none", fun v => .ok v.isNone⟩,
   ⟨"always", fun _ => .ok true⟩,
   ⟨"never", fun _ => .ok false⟩]

/-- The test with a name. -/
def ofName? (t : Text) : Option Predicate := all.find? fun p => p.name == t

end Predicate

/-- A default. A description may be used in several places, so a number tells one statement of a
default from another. -/
structure Default where
  value : Value
  number : Nat

/-- A field of a record; a flag needs no type. -/
structure Field (δ : Type) where
  name : Text
  type : Option δ
  presence : Presence
  default : Option Default
  statedRule : DropRule
  predicate : Option Predicate

/-- The rule of a field: a predicate without a stated rule is the rule. -/
def Field.rule {δ : Type} (f : Field δ) : DropRule :=
  if f.predicate.isSome && f.statedRule == .never then .ifPredicate else f.statedRule

/-- A constructor of a variant. Its arguments follow the tag; instead of them there may be the
fields of a record, and `spliced` puts the items of a single list argument behind the tag. -/
structure Constructor (δ : Type) where
  tag : Text
  args : List δ
  instanceOf : Option ClassInfo
  record : Option δ
  spliced : Bool

/-- A constructor without arguments is written as its tag. -/
def Constructor.isConstant {δ : Type} (c : Constructor δ) : Bool :=
  c.args.isEmpty && c.record.isNone

/-- A case of a variant: a constructor, or a description whose cases are included. -/
inductive Case (δ : Type) where
  | constructor (c : Constructor δ)
  | nested (d : δ)

/-- A type. -/
inductive Description where
  | primitive (name : Text)
  | product (parts : List Description)
  | record (fields : List (Field Description)) (instanceOf : Option ClassInfo) (extra : Bool)
  | sum (cases : List (Case Description))
  | polyVariant (cases : List (Case Description))
  | list (element : Description)
  | array (element : Description) (stored : Option ElementType)
  | option (inner : Description)
  | sealed
  | parameter (index : Int) (name : Option Text)
  | recursive (definition : DefinitionId) (args : Option (List Description))
  | applied (definition : DefinitionId) (args : List Description)
  | given (converter : Converter)
  | notConverter (v : Value)
  | foreign (v : Value)

instance : Inhabited Description := ⟨.sealed⟩

namespace Description

/-- The kind of a description; a foreign thing has none. -/
def kind? : Description → Option Text
  | .primitive _ => some "primitive"
  | .product _ => some "product"
  | .record .. => some "record"
  | .sum _ => some "sum"
  | .polyVariant _ => some "poly_variant"
  | .list _ => some "list"
  | .array .. => some "array"
  | .option _ => some "option"
  | .sealed => some "opaque"
  | .parameter .. => some "type_param"
  | .recursive .. => some "recursive"
  | .applied .. => some "applied"
  | .given _ => some "custom"
  | .notConverter _ => some "custom"
  | .foreign _ => none

/-- The description is an option. -/
def isOption : Description → Bool
  | .option _ => true
  | _ => false

mutual

/-- The cases of a variant, those of polymorphic variants among them put in their place. -/
def flatCases : List (Case Description) → List (Case Description)
  | [] => []
  | c :: cs => flatCase c ++ flatCases cs

/-- A case, or the cases of the polymorphic variant that it is. -/
def flatCase : Case Description → List (Case Description)
  | .constructor c => [.constructor c]
  | .nested d => nestedCases d

/-- The cases of a polymorphic variant; any other description stays a case. -/
def nestedCases : Description → List (Case Description)
  | .polyVariant cases => flatCases cases
  | d => [.nested d]

end

/-- The elements of an array: as stated, or as the element's type has it. -/
def storedAs (element : Description) (stated : Option ElementType) : ElementType :=
  match stated, element with
  | some e, _ => e
  | none, .primitive name => ((Primitive.ofName? name).map Primitive.element).getD .any
  | none, _ => .any

end Description

/-! ## Definitions -/

/-- A named type with parameters; its body may be stated later. -/
structure Definition where
  name : Text
  params : List Text
  body : Option Description

namespace Definition

/-- The number of parameters. -/
def arity (d : Definition) : Nat := d.params.length

/-- How a definition shows itself. -/
def describe (d : Definition) : Text :=
  if d.params.isEmpty then d.name else d.name ++ "[" ++ Text.join ", " d.params ++ "]"

end Definition

/-- The definitions by number. -/
abbrev Catalog := List Definition

namespace Catalog

/-- States the body of a definition, which is possible once. No body leaves it as it is. -/
def define (catalog : Catalog) (id : DefinitionId) (body : Option Description) :
    Except DescriptionFault Catalog :=
  match catalog[id]? with
  | none => .ok catalog
  | some d =>
    if d.body.isSome then .error (.definedTwice d.name)
    else .ok (catalog.set id { d with body })

end Catalog

end TypedSexp
