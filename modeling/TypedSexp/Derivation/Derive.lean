import TypedSexp.Derivation.Build
import TypedSexp.Description.Size
/-!
# Derivation

`Derivation.derive` gives the converter of a target: an existing converter, a definition applied to
arguments, or a description. Results are remembered. While a definition is being derived, a
reference to it with the same arguments becomes a link, so a definition may apply itself; `define`
keeps the list of what is being derived, and a number bounds how deep derivations of definitions
nest.
-/

namespace TypedSexp

/-- What a converter is asked for. -/
inductive Target where
  | converter (c : Converter)
  | definition (id : DefinitionId)
  | description (number : Nat) (d : Description)
  | foreign (v : Value)

namespace Derivation

/-- The name of the converter of a definition. -/
def definitionName (d : Definition) (args : List Converter) : Text :=
  if args.isEmpty then d.name else d.name ++ "[" ++ Text.join ", " (args.map Keyed.name) ++ "]"

/-- The body of a definition. -/
def bodyOf (d : Definition) : Except DescriptionFault Description :=
  match d.body with
  | some body => .ok body
  | none => .error (.undefinedType d.name)

/-- The converter of a definition, which is applied to `args`. -/
def define (catalog : Catalog) :
    Nat → List Request → DefinitionId → List Converter → Derivation Converter
  | 0, _, _, _ => throw .endless
  | depth + 1, inProgress, id, args => do
    let d ← liftExcept (Description.lookup catalog id args.length)
    let body ← liftExcept (bodyOf d)
    let request : Request := ⟨.definition id, args.map Keyed.identity⟩
    match ← cached? request with
    | some c => pure c
    | none =>
      if inProgress.contains request then link d.name id args
      else do
        let built ←
          Description.build catalog (define catalog depth (request :: inProgress))
            ⟨args, some d.name⟩ body
        let c ← fresh (definitionName d args) built.plan
        remember request c
        pure c

/-- How deep derivations of definitions nest at most: there are no more requests than definitions
with arguments, and each argument is a built-in converter, one that stands in the definitions or in
a description of the given size, or one of the `count` arguments given at first. -/
def depthBound (catalog : Catalog) (size count : Nat) : Nat :=
  let kinds := catalog.size + size + count + Primitive.all.length
  catalog.foldr (fun d n => Nat.pow kinds d.arity + n) 0 + 1

/-- The converter of a definition. -/
def ofDefinition (catalog : Catalog) (id : DefinitionId) (args : List Converter) :
    Derivation Converter :=
  define catalog (depthBound catalog 0 args.length) [] id args

/-- The first number above the identities of converters, and not below `n`. -/
def numberAbove (n : Nat) (cs : List Converter) : Nat :=
  cs.foldl (fun n c => match c.identity with
    | .derived k => max n (k + 1)
    | _ => n) n

/-- What a link comes to: what its cell holds, or else the converter of its definition, which the cell
holds from then on. New converters are told apart from the arguments. -/
def ofLink (catalog : Catalog) (cell : Nat) (id : DefinitionId) (args : List Converter) :
    Derivation Converter := do
  modify fun d => { d with next := numberAbove d.next args }
  match ← cached? ⟨.cell cell id, args.map Keyed.identity⟩ with
  | some c => pure c
  | none => do
    let c ← ofDefinition catalog id args
    remember ⟨.cell cell id, args.map Keyed.identity⟩ c
    pure c

/-- The converter of a description, whose parameters are `args`. -/
def ofDescription (catalog : Catalog) (number : Nat) (d : Description) (args : List Converter) :
    Derivation Converter := do
  let request : Request := ⟨.description number, args.map Keyed.identity⟩
  match ← cached? request with
  | some c => pure c
  | none => do
    let c ←
      Description.build catalog (define catalog (depthBound catalog d.size args.length) [request])
        ⟨args, none⟩ d
    remember request c
    pure c

/-- The converter of a target applied to converters. -/
def ofTarget (catalog : Catalog) (args : List Converter) : Target → Derivation Converter
  | .converter c => pure c
  | .definition id => ofDefinition catalog id args
  | .description number d => ofDescription catalog number d args
  | .foreign v => throw (.ofLiteral .notDerivable v)

/-- The converters of several targets without arguments, in order. -/
def ofTargets (catalog : Catalog) : List Target → Derivation (List Converter)
  | [] => pure []
  | t :: ts => do
    let c ← ofTarget catalog [] t
    let cs ← ofTargets catalog ts
    pure (c :: cs)

/-- The converter of a target applied to targets. An existing converter takes no arguments. -/
def derive (catalog : Catalog) (target : Target) (args : List Target) : Derivation Converter := do
  match target, args with
  | .converter c, _ :: _ => throw (.noArguments c.name)
  | _, _ =>
    let cs ← ofTargets catalog args
    ofTarget catalog cs target

end Derivation

end TypedSexp
