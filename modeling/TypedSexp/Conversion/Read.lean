import TypedSexp.Conversion.Carrier
import TypedSexp.Conversion.Entries
import TypedSexp.Converter.Builtin
import TypedSexp.Switches
import TypedSexp.Value.Storage
/-!
# Reading values

`Plan.read` reads a tree by recursion on the plan; `follow` reads what stands behind a link. Parts
are read from left to right, and the first refusal ends the reading. On its way out an error gains a
step for every list item, tuple part, field and constructor that it passes; options and links add
none.
-/

namespace TypedSexp

open Converter (readerName)

variable {M : Type → Type → Type} [∀ ε, Monad (M ε)] [Carrier M]

/-- Reads what stands behind a link. -/
abbrev Follow (M : Type → Type → Type) :=
  Nat → DefinitionId → List Converter → Node → M ReadError Value

/-- Reads trees with their numbers, which errors are told. -/
def readEach (read : Node → M ReadError Value) : Nat → List Node → M ReadError (List Value)
  | _, [] => outcome (.ok [])
  | i, node :: rest => do
    let v ← Carrier.mapError (.within (.index i)) (read node)
    let vs ← readEach read (i + 1) rest
    outcome (.ok (v :: vs))

/-- Stores the values of an array; one that does not fit is refused at its tree. -/
def storeEach (label : Text) (stored : ElementType) (items : List Node) (values : List Value) :
    Except ReadError Value :=
  match Storage.vector stored values with
  | .ok v => .ok v
  | .error (_, .unspellable) => .error .unspellable
  | .error (i, reason) =>
    let cause : ConversionCause :=
      .unexpectedShape (readerName label) ("elements fitting " ++ stored.name) (some reason.message)
    .error (.conversion ⟨cause, items[i]?, [.index i]⟩)

/-- The tag alone is refused where arguments must follow it. -/
def argumentsNeeded (what tag : Text) (node : Node) : ReadError :=
  .about node (.unexpectedShape what ("(" ++ tag ++ " ...)")
    (some ("constructor " ++ tag ++ " takes arguments")))

/-- The words that an absent option reads from. -/
def nothingWords : List Text := ["none", "None"]

/-- The tags of a present option. -/
def somethingTags : List Text := ["some", "Some"]

namespace Plan

mutual

/-- Reads a tree. -/
def read (follow : Follow M) (switches : Switches) : Plan → Node → M ReadError Value
  | .primitive p, node => outcome (Builtin.read p node)
  | .custom c, node => outcome (c.read node)
  | .sealed label, node => outcome (.error (.about node (.sealedValue (readerName label))))
  | .option label inner, node =>
    let refused : M ReadError Value :=
      outcome (.error (.about node
        (.unexpectedShape (readerName label) "none or (some value)" none)))
    match node with
    | .atom t _ => if nothingWords.contains t then outcome (.ok .none) else refused
    | .list [] _ => if switches.readsOldOption then outcome (.ok .none) else refused
    | .list [item] _ =>
      if switches.readsOldOption then read follow switches inner.plan item else refused
    | .list [.atom t _, item] _ =>
      if somethingTags.contains t then read follow switches inner.plan item else refused
    | .list _ _ => refused
  | .list label element, node =>
    match node with
    | .list items _ => do
      outcome (.ok (.list (← readEach (read follow switches element.plan) 0 items)))
    | .atom .. => outcome (.error (.about node (.unexpectedShape (readerName label) "a list" none)))
  | .array label stored element, node =>
    match node with
    | .list items _ => do
      outcome (storeEach label stored items
        (← readEach (read follow switches element.plan) 0 items))
    | .atom .. => outcome (.error (.about node (.unexpectedShape (readerName label) "a list" none)))
  | .tuple label parts, node =>
    match node with
    | .list items _ =>
      if items.length = parts.length then do
        outcome (.ok (.tuple (← readParts follow switches 0 parts items)))
      else outcome (.error (.about node (.arity (readerName label) parts.length items.length)))
    | .atom .. =>
      let expected := "a list of " ++ Text.ofNat parts.length ++ " elements"
      outcome (.error (.about node (.unexpectedShape (readerName label) expected none)))
  | .record fields, node => readRecord follow switches fields node
  | .variant label folding cases, node =>
    let what := readerName label
    let tags := CasePlan.tags cases
    match node with
    | .atom t _ =>
      match Tags.resolve? folding tags t with
      | some tag => readCase follow switches what tag node none cases
      | none => outcome (.error (.about node (.unknownTag what t tags)))
    | .list [] _ =>
      outcome (.error (.about node (.unexpectedShape what "a constructor" (some "empty list"))))
    | .list (.atom t l :: rest) _ =>
      match Tags.resolve? folding tags t with
      | some tag => readCase follow switches what tag node (some rest) cases
      | none => outcome (.error (.about (.atom t l) (.unknownTag what t tags)))
    | .list (head :: _) _ =>
      outcome (.error (.about head
        (.unexpectedShape what "a constructor tag" (some "nested list in tag position"))))
  | .link cell id args, node => follow cell id args node

/-- Reads the parts of a tuple, or the arguments of a constructor. -/
def readParts (follow : Follow M) (switches : Switches) :
    Nat → List (Keyed Plan) → List Node → M ReadError (List Value)
  | i, c :: cs, node :: rest => do
    let v ← Carrier.mapError (.within (.index i)) (read follow switches c.plan node)
    let vs ← readParts follow switches (i + 1) cs rest
    outcome (.ok (v :: vs))
  | _, _, _ => outcome (.ok [])

/-- Reads a record. -/
def readRecord (follow : Follow M) (switches : Switches) :
    RecordPlan Plan → Node → M ReadError Value
  | ⟨label, instanceOf, extra, fields⟩, node =>
    let r : RecordPlan Plan := ⟨label, instanceOf, extra, fields⟩
    let what := readerName label
    match node with
    | .list items _ => do
      let present ←
        outcome (Entries.gather what r.names (extra || !switches.checksExtra) [] items)
      let missing := r.missing present
      if missing.isEmpty then
        outcome (r.construct (← readFields follow switches what present fields))
      else outcome (.error (.about node (.missingFields what missing)))
    | .atom .. =>
      outcome (.error (.about node
        (.unexpectedShape what "a list of (field value) pairs" none)))

/-- Reads the fields of a record in the order in which they are declared. -/
def readFields (follow : Follow M) (switches : Switches) (what : Text)
    (present : List (Text × Node)) :
    List (FieldPlan Plan) → M ReadError (List (Text × Value))
  | [] => outcome (.ok [])
  | ⟨name, form, absent, _⟩ :: fields => do
    let v ←
      match present.lookup name with
      | none => outcome (.ok (absent.getD .none))
      | some entry =>
        Carrier.mapError (.within (.name name)) (readField follow switches what name entry form)
    let vs ← readFields follow switches what present fields
    outcome (.ok ((name, v) :: vs))

/-- Reads a field from its entry. -/
def readField (follow : Follow M) (switches : Switches) (what name : Text) (entry : Node) :
    FieldForm Plan → M ReadError Value
  | .flag => do
    outcome (Entries.checkFlag what name entry)
    outcome (.ok (.bool true))
  | .valued c _ => do
    read follow switches c.plan (← outcome (Entries.value what name entry))

/-- Reads the constructor with a tag, from what follows the tag; an atom has nothing there. -/
def readCase (follow : Follow M) (switches : Switches) (what tag : Text) (node : Node)
    (rest : Option (List Node)) : List (CasePlan Plan) → M ReadError Value
  | [] => outcome (.error (.about node (.unknownTag what tag [])))
  | ⟨t, instanceOf, form⟩ :: cases =>
    if t = tag then readForm follow switches what tag node rest instanceOf form
    else readCase follow switches what tag node rest cases

/-- Reads what follows a tag. An error inside is told the tag; a wrong number of arguments is an
error of the constructor itself. -/
def readForm (follow : Follow M) (switches : Switches) (what tag : Text) (node : Node)
    (rest : Option (List Node)) (instanceOf : Option ClassInfo) :
    CaseForm Plan → M ReadError Value
  | .constant =>
    match rest with
    | none => outcome (CasePlan.make tag instanceOf [])
    | some _ =>
      outcome (.error (.about node (.unexpectedShape what ("the atom " ++ tag)
        (some ("constructor " ++ tag ++ " takes no arguments")))))
  | .arguments converters =>
    match rest with
    | some items =>
      if items.length = converters.length then do
        let args ←
          Carrier.mapError (.within (.name tag)) (readParts follow switches 0 converters items)
        outcome (CasePlan.make tag instanceOf args)
      else
        outcome (.error (.about node
          (.arity (what ++ ": constructor " ++ tag) converters.length items.length)))
    | none => outcome (.error (argumentsNeeded what tag node))
  | .spliced element =>
    match rest with
    | some items => do
      let values ←
        Carrier.mapError (.within (.name tag))
          (readEach (read follow switches element.plan) 0 items)
      outcome (CasePlan.make tag instanceOf [.list values])
    | none => outcome (.error (argumentsNeeded what tag node))
  | .record fields =>
    match rest with
    | some items => do
      let v ←
        Carrier.mapError (.within (.name tag))
          (readRecord follow switches fields (.list items node.location))
      match instanceOf with
      | some _ => outcome (.ok v)
      | none => outcome (.ok (.variant tag [v]))
    | none => outcome (.error (argumentsNeeded what tag node))

end

end Plan

end TypedSexp
