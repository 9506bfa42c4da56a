import TypedSexp.Environment
/-!
# Conversion switches

Three switches decide how converters treat options and unknown record fields; they are looked at
when a value is read or written. A `Panel` holds their positions, whatever those are; `Switches` is a
panel whose positions are on and off. A switch may be left without a position, and is then off. A
change sets some of them. An override block makes a change, runs its steps and restores what
positions there were before on leaving, also when a step fails.
-/

namespace TypedSexp

/-- The positions of the switches. `readOldOption` accepts `()` and `(v)` for options,
`writeOldOption` writes them so, and `checkExtra` refuses unknown record fields. -/
structure Panel (α : Type) where
  readOldOption : Option α
  writeOldOption : Option α
  checkExtra : Option α
deriving DecidableEq, Repr

/-- Switches that are on or off. -/
abbrev Switches := Panel Bool

namespace Switches

/-- The positions at the start: old forms are read and not written, and extra fields refused. -/
def standard : Switches := ⟨some true, some false, some true⟩

/-- The old forms of options are accepted. -/
def readsOldOption (s : Switches) : Bool := s.readOldOption.getD false

/-- Options are written in their old forms. -/
def writesOldOption (s : Switches) : Bool := s.writeOldOption.getD false

/-- Unknown fields are refused. -/
def checksExtra (s : Switches) : Bool := s.checkExtra.getD false

/-- The positions that the environment gives. -/
def ofEnvironment (env : Environment) : Switches where
  readOldOption := some (env.flag "SEXPKIT_READ_OLD_OPTION_FORMAT" true)
  writeOldOption := some (env.flag "SEXPKIT_WRITE_OLD_OPTION_FORMAT" false)
  checkExtra := some (env.flag "SEXPKIT_CHECK_EXTRA_FIELDS" true)

end Switches

namespace Panel

variable {α β : Type}

/-- Other positions for those that there are. -/
def map (f : α → β) (s : Panel α) : Panel β :=
  ⟨s.readOldOption.map f, s.writeOldOption.map f, s.checkExtra.map f⟩

/-- The names of the switches. -/
inductive Name where
  | readOldOption
  | writeOldOption
  | checkExtra
deriving DecidableEq, Repr

/-- The switch of a name in a list of changes. -/
def Name.ofText? (t : Text) : Option Name :=
  if t = ("read_old_option_format" : Text) then some .readOldOption
  else if t = ("write_old_option_format" : Text) then some .writeOldOption
  else if t = ("check_extra_fields" : Text) then some .checkExtra
  else none

/-- Named switches with new positions, or with none. -/
abbrev Changes (α : Type) := List (Text × Option α)

/-- One switch set. -/
def put (s : Panel α) (name : Name) (position : Option α) : Panel α :=
  match name with
  | .readOldOption => { s with readOldOption := position }
  | .writeOldOption => { s with writeOldOption := position }
  | .checkExtra => { s with checkExtra := position }

/-- Switches with stated positions, or nothing if a name is unknown; no position can be stated
too. -/
def state? (s : Panel α) : Changes α → Option (Panel α)
  | [] => some s
  | (t, position) :: rest => do
    let name ← Name.ofText? t
    (s.put name position).state? rest

/-- The switches after others: those that have a position take its place. -/
def updatedBy (s t : Panel α) : Panel α :=
  ⟨t.readOldOption <|> s.readOldOption, t.writeOldOption <|> s.writeOldOption,
    t.checkExtra <|> s.checkExtra⟩

/-- Switches without positions. -/
def unset : Panel α := ⟨none, none, none⟩

/-- The switches after changes, or nothing if a name is unknown. No position leaves a switch as it
is. -/
def change? (s : Panel α) (changes : Changes α) : Option (Panel α) :=
  (unset.state? changes).map s.updatedBy

/-- What is done with switches: a change, an override block, or a failure of something else. -/
inductive Step (α : Type) where
  | set (changes : Changes α)
  | override (changes : Changes α) (steps : List (Step α))
  | fail

/-- What a step showed: the switches after a change; for a block the switches inside it before its
steps, what its steps showed, and the switches after it. A failed step shows nothing more. -/
inductive Trace (α : Type) where
  | changed (s : Panel α)
  | block (entry : Panel α) (inside : List (Trace α)) (after : Panel α)
  | failed
deriving Repr

mutual

/-- Runs a step: the switches afterwards, what it showed, and whether it went well. -/
def Step.run (s : Panel α) : Step α → Panel α × Trace α × Bool
  | .set changes =>
    match s.change? changes with
    | some t => (t, .changed t, true)
    | none => (s, .failed, false)
  | .override changes steps =>
    match s.change? changes with
    | some entry =>
      let (last, inside, ok) := Step.runAll entry steps
      let after := last.updatedBy s
      (after, .block entry inside after, ok)
    | none => (s, .failed, false)
  | .fail => (s, .failed, false)

/-- Runs steps up to the first that fails. -/
def Step.runAll (s : Panel α) : List (Step α) → Panel α × List (Trace α) × Bool
  | [] => (s, [], true)
  | step :: rest =>
    match Step.run s step with
    | (t, trace, true) =>
      let (u, more, ok) := Step.runAll t rest
      (u, trace :: more, ok)
    | (t, trace, false) => (t, [trace], false)

end

end Panel

end TypedSexp
