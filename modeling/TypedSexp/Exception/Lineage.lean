import TypedSexp.Text.Basic
/-!
# Classes of exceptions

A class has a name, a number and a lineage: itself and all its ancestors, each before its own bases.
Classes are told apart by number, so a class may have the name of an older one. The lineage of a new
class merges those of its bases and keeps their order; bases that disagree about an order, or that
cannot be laid out in one instance, are refused.
-/

namespace TypedSexp

/-- How an instance shows itself: always in the same words, not at all, by its arguments, by its
arguments with a single one as a literal, as an error of the system, or as an error in a source. -/
inductive Showing where
  | words (t : Text)
  | fails
  | arguments
  | argumentLiteral
  | systemError
  | sourceError
deriving DecidableEq, Repr

/-- What the arguments of an instance must be: anything, nothing, what a number or a text is made of,
an error of the system or in a source, a fault of decoding, encoding or replacing, or several
exceptions. -/
inductive Making where
  | free
  | nothing
  | integer
  | text
  | systemError
  | sourceError
  | decoding
  | encoding
  | replacing
  | group
deriving DecidableEq, Repr

/-- The number of a class. -/
abbrev ClassNumber := Nat

/-- A class. `isBuiltin` says that it exists from the start, and `isSolid` that its instances have a
layout of their own; `showing` and `making` are absent where they are inherited. -/
structure ExceptionClass where
  name : Text
  number : ClassNumber
  lineage : List ClassNumber
  isBuiltin : Bool
  isSolid : Bool
  showing : Option Showing
  making : Option Making
deriving DecidableEq, Repr

namespace ExceptionClass

/-- The class that all exceptions are derived from comes first. -/
def rootNumber : ClassNumber := 0

/-- The name with that of the module; every class that does not exist from the start belongs to the
main module. -/
def qualifiedName (c : ExceptionClass) : Text :=
  if c.isBuiltin then c.name else "__main__." ++ c.name

/-- The class is one of exceptions. -/
def isException (c : ExceptionClass) : Bool := c.lineage.contains rootNumber

end ExceptionClass

/-! ## Merging lineages -/

namespace Lineage

/-- The class stands behind the first place of a lineage. -/
def isLater (c : ClassNumber) (lineage : List ClassNumber) : Bool := lineage.tail.contains c

/-- The first class that heads a lineage and stands later in none. -/
def next? (lineages : List (List ClassNumber)) : Option ClassNumber :=
  (lineages.filterMap List.head?).find? fun c => !lineages.any (isLater c)

/-- The lineages without a class at their head. -/
def advance (c : ClassNumber) (lineages : List (List ClassNumber)) : List (List ClassNumber) :=
  lineages.map fun l => if l.head? = some c then l.tail else l

/-- One lineage with the classes of all, in an order that agrees with each of them; at most `count`
classes are placed. -/
def merge? : Nat → List (List ClassNumber) → Option (List ClassNumber)
  | count, lineages =>
    if lineages.all List.isEmpty then some []
    else
      match count with
      | 0 => none
      | count + 1 => do
        let c ← next? lineages
        let rest ← merge? count (advance c lineages)
        some (c :: rest)

end Lineage

/-! ## Hierarchies -/

/-- The classes that there are, the last declared first. -/
abbrev Hierarchy := List ExceptionClass

namespace Hierarchy

/-- Second names of known classes. -/
def aliases : List (Text × Text) := [("EnvironmentError", "OSError"), ("IOError", "OSError")]

/-- The class that a name means: the last one declared under it, or the first one that a second name
stands for. -/
def find? (h : Hierarchy) (name : Text) : Option ExceptionClass :=
  match List.find? (fun c : ExceptionClass => c.name == name) h, aliases.lookup name with
  | some c, _ => some c
  | none, some name => h.reverse.find? fun c => c.name == name
  | none, none => none

/-- The class with a number. -/
def numbered? (h : Hierarchy) (n : ClassNumber) : Option ExceptionClass :=
  List.find? (fun c : ExceptionClass => c.number == n) h

/-- One more class that exists from the start, with the ancestors of a lineage. -/
def add (h : Hierarchy) (name : Text) (ancestors : List ClassNumber) (isSolid : Bool)
    (showing : Option Showing) (making : Option Making) : Hierarchy :=
  ⟨name, h.length, h.length :: ancestors, true, isSolid, showing, making⟩ :: h

/-- The classes of a lineage. -/
def ancestry (h : Hierarchy) (c : ExceptionClass) : List ExceptionClass :=
  c.lineage.filterMap h.numbered?

/-- The nearest class with a layout of its own in a lineage. -/
def solidOf (h : Hierarchy) (c : ExceptionClass) : Option ExceptionClass :=
  (h.ancestry c).find? ExceptionClass.isSolid

/-- Of two layouts the one that extends the other. -/
def extending? (a b : Option ExceptionClass) : Option (Option ExceptionClass) :=
  match a, b with
  | none, b => some b
  | a, none => some a
  | some a, some b =>
    if b.lineage.contains a.number then some (some b)
    else if a.lineage.contains b.number then some (some a)
    else none

/-- The bases can be laid out in one instance. -/
def compatible (h : Hierarchy) (bases : List ExceptionClass) : Bool :=
  (bases.foldlM (fun layout b => extending? layout (h.solidOf b)) (none : Option ExceptionClass)).isSome

/-- Why a class is not declared. -/
inductive Fault where
  | unknownBase (name : Text)
  | repeatedBase
  | incompatible
  | disordered
deriving DecidableEq, Repr

/-- The class of exception of a fault. -/
def Fault.className : Fault → Text
  | .unknownBase _ => "KeyError"
  | _ => "TypeError"

/-- The classes with names. -/
def findAll (h : Hierarchy) : List Text → Except Fault (List ExceptionClass)
  | [] => .ok []
  | name :: names =>
    match h.find? name with
    | none => .error (.unknownBase name)
    | some c => (findAll h names).map (c :: ·)

/-- Declares a class with bases. -/
def declare (h : Hierarchy) (name : Text) (bases : List Text) (showing : Option Showing) :
    Except Fault Hierarchy := do
  let classes ← h.findAll bases
  let numbers := classes.map ExceptionClass.number
  if !decide numbers.Nodup then throw .repeatedBase
  if !h.compatible classes then throw .incompatible
  let lineages := classes.map ExceptionClass.lineage ++ [numbers]
  match Lineage.merge? lineages.flatten.length lineages with
  | none => throw .disordered
  | some ancestors =>
    pure (⟨name, h.length, h.length :: ancestors, false, false, showing, none⟩ :: h)

/-- How instances of a class show themselves: as the nearest ancestor says that says so. -/
def showingOf (h : Hierarchy) (c : ExceptionClass) : Showing :=
  ((h.ancestry c).findSome? ExceptionClass.showing).getD .arguments

/-- What the arguments of instances of a class must be. -/
def makingOf (h : Hierarchy) (c : ExceptionClass) : Making :=
  ((h.ancestry c).findSome? ExceptionClass.making).getD .nothing

end Hierarchy

end TypedSexp
