import TypedSexp.Conversion.Read
import TypedSexp.Conversion.Write
import TypedSexp.Derivation.Derive
import TypedSexp.Description.Head
/-!
# Conversion

A `Course` says how a conversion goes: which switches are set, and how what stands behind a link is
found. Links that follow one another without a shape between them are taken in one step
(`Course.settle`), so every other step goes down in the tree.

A conversion derives the definitions behind its links as it meets them (`Setting.live`): what it
derives is remembered, and a link keeps what it came to. `Setting.read` and `Setting.write` convert
with what is remembered beforehand, as if each link was the first that is met. What holds of them from
every memory holds of a conversion that derives, which goes as one from a memory that its links lead to
(`Setting.live_read`, `Setting.live_write`).
-/

namespace TypedSexp

/-- A refused description ends a reading. -/
def Setting.readFault : DescriptionFault → ReadError
  | .endless => .endless
  | fault => .description fault

/-- A refused description ends a writing. -/
def Setting.writeFault : DescriptionFault → WriteError
  | .endless => .endless
  | fault => .description fault

/-- How a conversion goes: the definitions, the switches, and what stands behind a link. -/
structure Course (M : Type → Type → Type) where
  catalog : Catalog
  switches : Switches
  resolve : Nat → DefinitionId → List Converter → M DescriptionFault Converter

namespace Course

open Setting (readFault writeFault)

variable {M : Type → Type → Type} [∀ ε, Monad (M ε)] [Carrier M]

/-- What a plan comes to, if at most `steps` links and options are passed on the way: a plan that is
no link and, going `through` options, no option, and the number of options that were passed. -/
def settleWithin (r : Course M) (through : Bool) : Nat → Plan → M DescriptionFault (Nat × Plan)
  | 0, _ => outcome (.error .endless)
  | steps + 1, .link cell id args => do
    let c ← r.resolve cell id args
    settleWithin r through steps c.plan
  | steps + 1, .option label inner =>
    if through then do
      let (layers, plan) ← settleWithin r through steps inner.plan
      outcome (.ok (layers + 1, plan))
    else outcome (.ok (0, .option label inner))
  | _ + 1, plan => outcome (.ok (0, plan))

/-- How many steps settling a plan takes at most: each plan inside it may be a link, and each
definition may lead to as many as there are references in all of them. -/
def stepBound (r : Course M) (plan : Plan) : Nat :=
  plan.size * Nat.pow (r.catalog.size + 2) r.catalog.length + 1

/-- What a plan comes to. A link that only leads back to itself comes to nothing. -/
def settle (r : Course M) (through : Bool) (plan : Plan) : M DescriptionFault (Nat × Plan) :=
  if plan.head through (r.catalog.heads through) = .endless then outcome (.error .endless)
  else r.settleWithin through (r.stepBound plan) plan

/-- Reads a tree. Each level goes down in the tree. -/
def readWithin (r : Course M) : Nat → Plan → Node → M ReadError Value
  | 0, _, _ => outcome (.error .endless)
  | levels + 1, plan, node => do
    let (_, shape) ← Carrier.mapError readFault (r.settle false plan)
    shape.read (fun cell id args node => readWithin r levels (.link cell id args) node) r.switches node

/-- Writes a value. A value that is there is written by what stands inside the options that the plan
comes to, so each level goes down in the value. -/
def writeWithin (r : Course M) : Nat → Plan → Value → M WriteError Sexp
  | 0, _, _ => outcome (.error .endless)
  | levels + 1, plan, v => do
    let (layers, shape) ← Carrier.mapError writeFault (r.settle (!v.isNone) plan)
    let t ← shape.write (fun cell id args v => writeWithin r levels (.link cell id args) v) r.switches v
    outcome (.ok (layers.repeat (presentSexp r.switches) t))

/-- The value that a tree stands for. A link inside a shape belongs to a tree inside the tree, so
there are no more levels than the tree is deep. -/
def read (r : Course M) (c : Converter) (node : Node) : M ReadError Value :=
  r.readWithin node.sexp.census.depth c.plan node

/-- The tree of a value. Levels go down in the value, or in a default that stands for an absent
field. -/
def write (r : Course M) (c : Converter) (v : Value) : M WriteError Sexp :=
  r.writeWithin (v.depth + r.catalog.size + c.plan.size) c.plan v

end Course

/-- What conversion looks at besides the converter and the value: the definitions, what has been
derived, and the switches. -/
structure Setting where
  catalog : Catalog
  deriver : Deriver
  switches : Switches

/-- Conversion that derives what stands behind a link when it meets the link. -/
def Setting.live (s : Setting) : Course Remembering where
  catalog := s.catalog
  switches := s.switches
  resolve := Derivation.ofLink s.catalog

/-! ## With what is remembered beforehand -/

namespace Setting

/-- The converter behind a link, from what is remembered. -/
def resolve (s : Setting) (cell : Nat) (id : DefinitionId) (args : List Converter) :
    Except DescriptionFault Converter :=
  (Derivation.ofLink s.catalog cell id args).result s.deriver

/-- Conversion that finds what stands behind a link from what is remembered beforehand. -/
def course (s : Setting) : Course Except where
  catalog := s.catalog
  switches := s.switches
  resolve := s.resolve

/-- What a plan comes to within some steps, from what is remembered. -/
def settleWithin (s : Setting) (through : Bool) (steps : Nat) (plan : Plan) :
    Except DescriptionFault (Nat × Plan) := s.course.settleWithin through steps plan

/-- How many steps settling a plan takes at most. -/
def stepBound (s : Setting) (plan : Plan) : Nat := s.course.stepBound plan

/-- What a plan comes to, from what is remembered. -/
def settle (s : Setting) (through : Bool) (plan : Plan) : Except DescriptionFault (Nat × Plan) :=
  s.course.settle through plan

/-- Reads a tree with what is remembered. -/
def readWithin (s : Setting) (levels : Nat) (plan : Plan) (node : Node) : Except ReadError Value :=
  s.course.readWithin levels plan node

/-- Writes a value with what is remembered. -/
def writeWithin (s : Setting) (levels : Nat) (plan : Plan) (v : Value) : Except WriteError Sexp :=
  s.course.writeWithin levels plan v

/-- The value that a tree stands for, with what is remembered. -/
def read (s : Setting) (c : Converter) (node : Node) : Except ReadError Value :=
  s.course.read c node

/-- The tree of a value, with what is remembered. -/
def write (s : Setting) (c : Converter) (v : Value) : Except WriteError Sexp := s.course.write c v

end Setting

/-! ### One step -/

section Equations

variable (s : Setting) (through : Bool) (steps levels cell : Nat) (id : DefinitionId)
  (args : List Converter) (plan : Plan)

namespace Setting

theorem settleWithin_link :
    s.settleWithin through (steps + 1) (.link cell id args) =
      s.resolve cell id args >>= fun c => s.settleWithin through steps c.plan := rfl

theorem settleWithin_option (label : Text) (inner : Converter) :
    s.settleWithin through (steps + 1) (.option label inner) =
      if through then do
        let (layers, plan) ← s.settleWithin through steps inner.plan
        .ok (layers + 1, plan)
      else .ok (0, .option label inner) := rfl

theorem settle_eq :
    s.settle through plan =
      if plan.head through (s.catalog.heads through) = .endless then .error .endless
      else s.settleWithin through (s.stepBound plan) plan := rfl

theorem readWithin_succ (node : Node) :
    s.readWithin (levels + 1) plan node = (do
      let (_, shape) ← (s.settle false plan).mapError readFault
      shape.read (fun cell id args node => s.readWithin levels (.link cell id args) node) s.switches
        node) := rfl

theorem writeWithin_succ (v : Value) :
    s.writeWithin (levels + 1) plan v = (do
      let (layers, shape) ← (s.settle (!v.isNone) plan).mapError writeFault
      let t ← shape.write (fun cell id args v => s.writeWithin levels (.link cell id args) v)
        s.switches v
      .ok (layers.repeat (presentSexp s.switches) t)) := rfl

theorem read_eq (c : Converter) (node : Node) :
    s.read c node = s.readWithin node.sexp.census.depth c.plan node := rfl

theorem write_eq (c : Converter) (v : Value) :
    s.write c v = s.writeWithin (v.depth + s.catalog.size + c.plan.size) c.plan v := rfl

end Setting

end Equations

/-! ## Texts -/

/-- Why a text is not read as a value. -/
inductive TextFailure where
  | source (fault : SourceFault)
  | parse (fault : ParseFault)
  | read (e : ReadError)
deriving Repr

namespace Setting

/-- The value that a text stands for, which must be one S-expression. -/
def readText (s : Setting) (c : Converter) (text : Source) (file : Text) :
    Remembering TextFailure Value :=
  match text.parse 0 file with
  | .error (.source fault) => outcome (.error (.source fault))
  | .error (.parse fault) => outcome (.error (.parse fault))
  | .ok node => Carrier.mapError .read (s.live.read c node)

/-- The values that a text stands for, one for each S-expression; reading ends with the first that
is not read, or where the text is malformed. -/
def readValues (s : Setting) (c : Converter) :
    List Node → StateM Deriver (List Value × Option ReadError)
  | [] => pure ([], none)
  | node :: rest => do
    match ← (s.live.read c node).run with
    | .error e => pure ([], some e)
    | .ok v =>
      let (vs, e) ← readValues s c rest
      pure (v :: vs, e)

end Setting

end TypedSexp
