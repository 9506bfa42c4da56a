import TypedSexp.Text.Blank
/-!
# The environment

Variables that configure a run: whether diagnostics are coloured, and the start values of switches.
-/

namespace TypedSexp

/-- The variables that are set. -/
abbrev Environment := List (Text × Text)

namespace Environment

/-- The value of a variable. -/
def value? (env : Environment) (name : Text) : Option Text := env.lookup name

/-- Words, compared without case, that switch colour off. -/
def colorOff : List Text := ["0", "false", "no", "never"]

/-- Words, compared without case, that switch colour on. -/
def colorOn : List Text := ["1", "true", "yes", "always"]

/-- Colour is off if `NO_COLOR` is set to something, else as `SEXPKIT_COLOR` says, else on for a
terminal. -/
def useColor (env : Environment) (terminal : Bool) : Bool :=
  if (env.value? "NO_COLOR").any (!·.isEmpty) then false
  else
    let word := ((env.value? "SEXPKIT_COLOR").getD []).asciiLower
    if colorOff.contains word then false
    else if colorOn.contains word then true
    else terminal

/-- Words, compared without case and blanks around them, that mean yes. -/
def yesWords : List Text := ["1", "true", "yes", "on"]

/-- Words, compared without case and blanks around them, that mean no. -/
def noWords : List Text := ["0", "false", "no", "off"]

/-- A yes-or-no variable; any other word leaves the default. -/
def flag (env : Environment) (name : Text) (default : Bool) : Bool :=
  match env.value? name with
  | none => default
  | some raw =>
    let word := raw.strip.asciiLower
    if yesWords.contains word then true
    else if noWords.contains word then false
    else default

end Environment

end TypedSexp
