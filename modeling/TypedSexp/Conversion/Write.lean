import TypedSexp.Conversion.Carrier
import TypedSexp.Conversion.Entries
import TypedSexp.Converter.Builtin
import TypedSexp.Switches
import TypedSexp.Value.Lookup
/-!
# Writing values

`Plan.write` writes a value by recursion on the plan; `follow` writes what stands behind a link.
Fields are written in the order in which they are declared, and a field that is left out leaves no
trace.
-/

namespace TypedSexp

open Converter (writerName)
open Builtin (ofValue spelled)

variable {M : Type → Type → Type} [∀ ε, Monad (M ε)] [Carrier M]

/-- Writes what stands behind a link. -/
abbrev FollowBack (M : Type → Type → Type) :=
  Nat → DefinitionId → List Converter → Value → M WriteError Sexp

/-- What stands for a sealed value. -/
def sealedAtom : Sexp := .atom "<opaque>"

/-- The tree of an option that is present, from the tree of what it holds. -/
def presentSexp (switches : Switches) (s : Sexp) : Sexp :=
  .list (if switches.writesOldOption then [s] else [.atom "some", s])

/-- Writes values in order. -/
def writeEach (write : Value → M WriteError Sexp) : List Value → M WriteError (List Sexp)
  | [] => outcome (.ok [])
  | v :: vs => do
    let s ← write v
    let ss ← writeEach write vs
    outcome (.ok (s :: ss))

/-- Only arrays of one dimension are written. -/
def checkVector (writer : Text) : Value → Except WriteError Unit
  | .array _ shape _ => if shape.length = 1 then .ok () else .error (.arrayShape writer shape)
  | _ => .ok ()

/-- The value of a field: of an instance the attribute, of a record the entry, or what it reads as
where it is left out. -/
def fieldValue (writer : Text) (instanceOf : Option ClassInfo) (name : Text)
    (absent : Option Value) (v : Value) : Except WriteError Value :=
  match instanceOf with
  | some _ => ofValue (v.fieldNamed name)
  | none => do
    if ← ofValue (v.contains name) then ofValue (v.entry name)
    else
      match absent with
      | some x => .ok x
      | none => .error (.missingField writer name)

/-- The field is left out in any case. -/
def isOmitted (omission : Omission) (v : Value) : Except WriteError Bool :=
  match omission with
  | .never => .ok false
  | .nothing =>
    match v with
    | .none => .ok true
    | _ => .ok false
  | .empty => do .ok ((← ofValue v.length) == 0)

/-- The tag and the arguments of a value of a variant: of an instance, its class decides the tag and
its fields are the arguments. -/
def constructorOf (writer : Text) (cases : List (CasePlan Plan)) (v : Value) :
    Except WriteError (Text × List Value) :=
  let unknown : Except WriteError (Text × List Value) := do
    .error (.noConstructor writer (← spelled v))
  match v with
  | .variant tag args => if (CasePlan.tags cases).contains tag then .ok (tag, args) else unknown
  | .object className fields =>
    match CasePlan.ofClass? className cases with
    | some tag => .ok (tag, fields.map Prod.snd)
    | none => unknown
  | _ => unknown

/-- The record that a value of a constructor holds: an instance is the record itself. -/
def recordOf (v : Value) (args : List Value) : Except WriteError Value :=
  match v with
  | .object .. => .ok v
  | _ =>
    match args with
    | r :: _ => .ok r
    | [] => .error (.value .noSuchArgument)

/-- The items of the list that a value of a constructor holds. -/
def itemsOf (args : List Value) : Except WriteError (List Value) :=
  match args with
  | list :: _ => ofValue list.items
  | [] => .error (.value .noSuchArgument)

namespace Plan

mutual

/-- Writes a value. -/
def write (follow : FollowBack M) (switches : Switches) : Plan → Value → M WriteError Sexp
  | .primitive p, v => outcome (Builtin.write p v)
  | .custom c, v => outcome (c.write v)
  | .sealed _, _ => outcome (.ok sealedAtom)
  | .option _ inner, v =>
    match v with
    | .none => outcome (.ok (if switches.writesOldOption then .empty else .atom "none"))
    | v => do
      let s ← write follow switches inner.plan v
      outcome (.ok (presentSexp switches s))
  | .list _ element, v => do
    let items ← outcome (ofValue v.items)
    outcome (.ok (.list (← writeEach (write follow switches element.plan) items)))
  | .array label _ element, v => do
    outcome (checkVector (writerName label) v)
    let items ← outcome (ofValue v.items)
    outcome (.ok (.list (← writeEach (write follow switches element.plan) items)))
  | .tuple label parts, v => do
    let count ← outcome (ofValue v.length)
    if count = parts.length then do
      let items ← outcome (ofValue v.items)
      outcome (.ok (.list (← writeParts follow switches parts items)))
    else outcome (.error (.tupleLength (writerName label) parts.length count))
  | .record fields, v => do outcome (.ok (.list (← writeRecord follow switches fields v)))
  | .variant label _ cases, v => do
    let writer := writerName label
    let (tag, args) ← outcome (constructorOf writer cases v)
    writeCase follow switches writer tag v args cases
  | .link cell id args, v => follow cell id args v

/-- Writes the parts of a tuple, or the arguments of a constructor. -/
def writeParts (follow : FollowBack M) (switches : Switches) :
    List (Keyed Plan) → List Value → M WriteError (List Sexp)
  | c :: cs, v :: vs => do
    let s ← write follow switches c.plan v
    let ss ← writeParts follow switches cs vs
    outcome (.ok (s :: ss))
  | _, _ => outcome (.ok [])

/-- Writes a record: its entries. -/
def writeRecord (follow : FollowBack M) (switches : Switches) :
    RecordPlan Plan → Value → M WriteError (List Sexp)
  | ⟨label, instanceOf, _, fields⟩, v =>
    writeFields follow switches (writerName label) instanceOf v fields

/-- Writes the fields of a record. -/
def writeFields (follow : FollowBack M) (switches : Switches) (writer : Text)
    (instanceOf : Option ClassInfo) (v : Value) :
    List (FieldPlan Plan) → M WriteError (List Sexp)
  | [] => outcome (.ok [])
  | ⟨name, form, absent, dropping⟩ :: fields => do
    let x ← outcome (fieldValue writer instanceOf name absent v)
    let entry ←
      if ← isDropped follow switches form dropping x then outcome (.ok none)
      else writeField follow switches name x form
    let rest ← writeFields follow switches writer instanceOf v fields
    outcome (.ok (entry.toList ++ rest))

/-- The rule of the field leaves the value out. -/
def isDropped (follow : FollowBack M) (switches : Switches) (form : FieldForm Plan)
    (dropping : Dropping) (v : Value) : M WriteError Bool :=
  match form, dropping with
  | _, .never => outcome (.ok false)
  | _, .ifEqual default => outcome (ofValue (v.same default))
  | _, .ifHolds predicate => outcome (ofValue (predicate.holds v))
  | .flag, .ifWrittenEqual _ => outcome (.ok false)
  | .valued c _, .ifWrittenEqual default => do
    let s ← write follow switches c.plan v
    let t ← write follow switches c.plan default
    outcome (.ok (s == t))

/-- Writes a field as an entry, unless it is left out. -/
def writeField (follow : FollowBack M) (switches : Switches) (name : Text) (v : Value) :
    FieldForm Plan → M WriteError (Option Sexp)
  | .flag => do
    if ← outcome (ofValue v.truth) then outcome (.ok (some (.list [.atom name])))
    else outcome (.ok none)
  | .valued c omission => do
    if ← outcome (isOmitted omission v) then outcome (.ok none)
    else outcome (.ok (some (.list [.atom name, ← write follow switches c.plan v])))

/-- Writes the constructor with a tag. -/
def writeCase (follow : FollowBack M) (switches : Switches) (writer tag : Text) (v : Value)
    (args : List Value) : List (CasePlan Plan) → M WriteError Sexp
  | [] => do
    let literal ← outcome (spelled v)
    outcome (.error (.noConstructor writer literal))
  | ⟨t, _, form⟩ :: cases =>
    if t = tag then writeForm follow switches writer tag v args form
    else writeCase follow switches writer tag v args cases

/-- Writes a tag and what follows it; a constant is its tag alone. -/
def writeForm (follow : FollowBack M) (switches : Switches) (writer tag : Text) (v : Value)
    (args : List Value) : CaseForm Plan → M WriteError Sexp
  | .constant => outcome (.ok (.atom tag))
  | .arguments converters =>
    if args.length = converters.length then do
      outcome (.ok (.list (.atom tag :: (← writeParts follow switches converters args))))
    else outcome (.error (.constructorArity writer tag converters.length args.length))
  | .spliced element => do
    let items ← outcome (itemsOf args)
    outcome (.ok (.list (.atom tag :: (← writeEach (write follow switches element.plan) items))))
  | .record fields => do
    let r ← outcome (recordOf v args)
    outcome (.ok (.list (.atom tag :: (← writeRecord follow switches fields r))))

end

end Plan

end TypedSexp
