import TypedSexp.Description.Basic
/-!
# Heads of definitions

The body of a definition may be another definition, or one of the parameters, and nothing else. Its
head is what it comes to in the end: a shape of its own, one of its parameters, or nothing at all,
because it only leads back to itself. A value that is there is written by what stands inside an
option, so for such a value options are passed on the way (`through`). Heads are found in rounds,
the first of which knows none; a head that is found at all is found after as many rounds as there
are definitions.
-/

namespace TypedSexp

/-- What a definition comes to before anything of a tree or value is looked at. -/
inductive Head where
  | shape
  | parameter (index : Nat)
  | endless
deriving DecidableEq, Repr

namespace Plan

mutual

/-- The head of a plan, from the heads of the definitions. -/
def head (through : Bool) (heads : List Head) : Plan → Head
  | .link _ id args =>
    match heads[id]? with
    | some (.parameter i) => headAt through heads i args
    | some h => h
    | none => .shape
  | .option _ inner => if through then head through heads inner.plan else .shape
  | _ => .shape

/-- The head of the argument with a number. -/
def headAt (through : Bool) (heads : List Head) : Nat → List (Keyed Plan) → Head
  | _, [] => .shape
  | 0, c :: _ => head through heads c.plan
  | i + 1, _ :: cs => headAt through heads i cs

end

end Plan

namespace Description

mutual

/-- The head of a description, from the heads of the definitions. -/
def head (through : Bool) (heads : List Head) : Description → Head
  | .parameter index _ => if index < 0 then .shape else .parameter index.toNat
  | .recursive id none => (heads[id]?).getD .shape
  | .recursive id (some args) => headOf through heads id args
  | .applied id args => headOf through heads id args
  | .option inner => if through then head through heads inner else .shape
  | .given c => c.plan.head through heads
  | _ => .shape

/-- The head of a definition applied to arguments. -/
def headOf (through : Bool) (heads : List Head) (id : DefinitionId) : List Description → Head
  | args =>
    match heads[id]? with
    | some (.parameter i) => headAt through heads i args
    | some h => h
    | none => .shape

/-- The head of the argument with a number. -/
def headAt (through : Bool) (heads : List Head) : Nat → List Description → Head
  | _, [] => .shape
  | 0, d :: _ => head through heads d
  | i + 1, _ :: ds => headAt through heads i ds

end

end Description

namespace Catalog

/-- The heads of the definitions, from those known so far. -/
def headsFrom (catalog : Catalog) (through : Bool) (known : List Head) : List Head :=
  catalog.map fun d => (d.body.map (Description.head through known)).getD .shape

/-- The heads that are found in a number of rounds. -/
def headsWithin (catalog : Catalog) (through : Bool) : Nat → List Head
  | 0 => catalog.map fun _ => .endless
  | rounds + 1 => catalog.headsFrom through (headsWithin catalog through rounds)

/-- The heads of the definitions. -/
def heads (catalog : Catalog) (through : Bool) : List Head :=
  catalog.headsWithin through catalog.length

end Catalog

end TypedSexp
