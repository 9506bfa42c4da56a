import TypedSexp.Description.Basic
import TypedSexp.Value.Equality
/-!
# Equality of descriptions

Two descriptions are equal if they have the same structure. Definitions are told apart by number,
ready-made converters by identity and predicates by name. Defaults are the same if they are one
statement, and are otherwise compared as values, which may fail. What is not a number is the same
only as the same occurrence of it.
-/

namespace TypedSexp.Description

/-- One occurrence of what is not a number, or equal values. -/
def sameValue (v w : Value) : Except ValueFault Bool :=
  if v.isSameNan w then .ok true else v.eq w

/-- A default and its absence are compared as a default and a thing of another type. -/
def sameDefault : Option Default → Option Default → Except ValueFault Bool
  | some d, some e => if d.number = e.number then .ok true else sameValue d.value e.value
  | some d, none => d.value.eq (.foreign "absence")
  | none, some e => e.value.eq (.foreign "absence")
  | none, none => .ok true

/-- The element type, doubles if none is stated. -/
def sameStored (a b : Option ElementType) : Bool := a.getD .double == b.getD .double

/-- The first comparison holds, and then the second. -/
def both (a : Bool) (b : Except ValueFault Bool) : Except ValueFault Bool :=
  if a then b else .ok false

mutual

/-- Equality of descriptions. -/
def same : Description → Description → Except ValueFault Bool
  | .primitive a, .primitive b => .ok (a == b)
  | .product a, .product b => sameAll a b
  | .record a c x, .record b d y => do .ok ((← sameFields a b) && c == d && x == y)
  | .sum a, .sum b => sameCases a b
  | .polyVariant a, .polyVariant b => sameCases a b
  | .list a, .list b => same a b
  | .array a e, .array b f => do .ok ((← same a b) && sameStored e f)
  | .option a, .option b => same a b
  | .sealed, .sealed => .ok true
  | .parameter i s, .parameter j t => .ok (i == j && s == t)
  | .recursive i none, .recursive j none => .ok (i == j)
  | .recursive i (some a), .recursive j (some b) => both (i == j) (sameAll a b)
  | .applied i a, .applied j b => both (i == j) (sameAll a b)
  | .given a, .given b => .ok (a.identity == b.identity)
  | .notConverter a, .notConverter b => sameValue a b
  | .foreign a, .foreign b => sameValue a b
  | _, _ => .ok false

/-- Equality of several descriptions. -/
def sameAll : List Description → List Description → Except ValueFault Bool
  | [], [] => .ok true
  | a :: as, b :: bs => do if ← same a b then sameAll as bs else .ok false
  | _, _ => .ok false

/-- Equality of fields. -/
def sameFields : List (Field Description) → List (Field Description) → Except ValueFault Bool
  | [], [] => .ok true
  | f :: fs, g :: gs => do if ← sameField f g then sameFields fs gs else .ok false
  | _, _ => .ok false

/-- Equality of two fields. -/
def sameField : Field Description → Field Description → Except ValueFault Bool
  | ⟨name, some d, presence, default, rule, predicate⟩, g =>
    match g.type with
    | some e => do
      if ← both (name == g.name) (same d e) then
        both (presence == g.presence) (do
          .ok ((← sameDefault default g.default)
            && Field.rule (⟨name, none, presence, default, rule, predicate⟩ : Field Description)
              == g.rule
            && predicate.map Predicate.name == g.predicate.map Predicate.name))
      else .ok false
    | none => .ok false
  | ⟨name, none, presence, default, rule, predicate⟩, g =>
    both (name == g.name && g.type.isNone && presence == g.presence) (do
      .ok ((← sameDefault default g.default)
        && Field.rule (⟨name, none, presence, default, rule, predicate⟩ : Field Description)
          == g.rule
        && predicate.map Predicate.name == g.predicate.map Predicate.name))

/-- Equality of cases. -/
def sameCases : List (Case Description) → List (Case Description) → Except ValueFault Bool
  | [], [] => .ok true
  | .constructor c :: cs, .constructor d :: ds => do
    if ← sameConstructor c d then sameCases cs ds else .ok false
  | .nested a :: cs, .nested b :: ds => do
    if ← same a b then sameCases cs ds else .ok false
  | _, _ => .ok false

/-- Equality of two constructors. -/
def sameConstructor : Constructor Description → Constructor Description → Except ValueFault Bool
  | ⟨tag, args, instanceOf, none, spliced⟩, d => do
    if ← both (tag == d.tag) (sameAll args d.args) then
      .ok (instanceOf == d.instanceOf && d.record.isNone && spliced == d.spliced)
    else .ok false
  | ⟨tag, args, instanceOf, some r, spliced⟩, d =>
    match d.record with
    | some s => do
      if ← both (tag == d.tag) (sameAll args d.args) then
        both (instanceOf == d.instanceOf) (do .ok ((← same r s) && spliced == d.spliced))
      else .ok false
    | none => .ok false

end

end TypedSexp.Description
