import TypedSexp.Description.Basic
/-!
# What derivation remembers

A `Deriver` remembers the converters that it derived, each under the definition or description it
was derived from and the identities of its arguments. Looking a converter up gives the identical
one. A derivation that fails keeps the converters that were complete before it failed.
-/

namespace TypedSexp

/-- What a converter is derived from. Descriptions are told apart by a number of their own, and a link
to a definition by the number of its cell, which keeps what the link came to. -/
inductive Subject where
  | definition (id : DefinitionId)
  | description (number : Nat)
  | cell (number : Nat) (id : DefinitionId)
deriving DecidableEq, Repr

/-- The converter is kept by a link. -/
def Subject.isCell : Subject → Bool
  | .cell .. => true
  | _ => false

/-- A subject with the identities of the arguments. -/
structure Request where
  subject : Subject
  args : List Identity
deriving DecidableEq, Repr

/-- The converters derived so far, the last one first, and the number for the next identity. -/
structure Deriver where
  next : Nat := 0
  cache : List (Request × Converter) := []

/-- Computations that may fail, and what they remembered stays. -/
abbrev Remembering (ε : Type) := ExceptT ε (StateM Deriver)

/-- A derivation: it may be refused, and what it remembered stays. -/
abbrev Derivation := Remembering DescriptionFault

namespace Deriver

/-- Nothing remembered any more, except what links came to. -/
def clear (d : Deriver) : Deriver :=
  { d with cache := d.cache.filter fun (r, _) => r.subject.isCell }

end Deriver

namespace Derivation

/-- A converter with an identity that no other has. -/
def fresh (name : Text) (plan : Plan) : Derivation Converter := do
  let d ← get
  set { d with next := d.next + 1 }
  pure ⟨.derived d.next, name, plan⟩

/-- A link to a definition, with a cell that is still empty. -/
def link (name : Text) (id : DefinitionId) (args : List Converter) : Derivation Converter := do
  let d ← get
  fresh name (.link d.next id args)

/-- The converter that was remembered for a request. -/
def cached? (r : Request) : Derivation (Option Converter) := do
  pure ((← get).cache.lookup r)

/-- Remembers a converter. -/
def remember (r : Request) (c : Converter) : Derivation Unit :=
  modify fun d => { d with cache := (r, c) :: d.cache }

/-- The result of a derivation that starts from what is remembered. -/
def result {α : Type} (x : Derivation α) (d : Deriver) : Except DescriptionFault α := (x d).1

end Derivation

end TypedSexp
