import TypedSexp.Text.DecimalDigit
/-!
# Options

How the words of a command line are taken. A word that starts with a hyphen is an option, unless it
is a single hyphen, a negative number, or has a blank in it. Long options may be abbreviated where
that is unambiguous, and may have their value behind an equals sign. Options of one letter take no
values; several may be written as one word. Behind a double hyphen all words are plain.
-/

namespace TypedSexp

/-- What an option asks for. -/
inductive OptionEffect where
  | help
  | verbose
  | human
  | width
deriving DecidableEq, Repr

/-- The names of options. -/
abbrev OptionTable := List (Text × OptionEffect)

/-- A word of a command line. A cluster is an option of one letter with more text behind it, which
should be letters of options too. -/
inductive Word where
  | plain (t : Text)
  | separator
  | option (effect : OptionEffect) (value : Option Text)
  | cluster (first : OptionEffect) (letters : Text)
  | unknown
deriving DecidableEq, Repr

namespace Word

/-- Splits a text at its first equals sign. -/
def splitValue (t : Text) : Text × Option Text :=
  match t.dropWhile (· != CodePoint.ofChar '=') with
  | [] => (t, none)
  | _ :: value => (t.takeWhile (· != CodePoint.ofChar '='), some value)

/-- A decimal digit of any script. -/
def isDigit (c : CodePoint) : Bool := c.decimalValue?.isSome

/-- The text without a line feed at its end. -/
def dropLineFeed (t : Text) : Text :=
  if t.getLast? = some (CodePoint.ofChar '\n') then t.dropLast else t

/-- A hyphen and digits, perhaps with a point before the last of them, on a line of its own. -/
def isNegativeNumber (t : Text) : Bool :=
  match dropLineFeed t with
  | _ :: body =>
    match body.dropWhile isDigit with
    | [] => !body.isEmpty
    | point :: decimals =>
      point == CodePoint.ofChar '.' && !decimals.isEmpty && decimals.all isDigit
  | [] => false

/-- The word is, or abbreviates, a long option. -/
def isLong (t : Text) : Bool := ("--" : Text).isPrefixOf t

/-- The options that a word abbreviates, each with the value that the word gives it, and the option
of one letter that it starts with. -/
def abbreviated (table : OptionTable) (t : Text) : List Word :=
  if isLong t then
    let (name, value) := splitValue t
    table.filterMap fun (full, effect) =>
      if name.isPrefixOf full then some (.option effect value) else none
  else
    table.filterMap fun (full, effect) =>
      if full = t.take 2 then some (.cluster effect (t.drop 2)) else none

/-- A word by itself; an ambiguous abbreviation is none. -/
def classify? (table : OptionTable) (t : Text) : Option Word :=
  let hyphen : CodePoint := '-'
  if t.head? ≠ some hyphen then some (.plain t)
  else
    match table.lookup t with
    | some effect => some (.option effect none)
    | none =>
      if t.length = 1 then some (.plain t)
      else
        let (name, value) := splitValue t
        match value, table.lookup name with
        | some v, some effect =>
          some (if isLong name then .option effect (some v) else .cluster effect v)
        | _, _ =>
          match abbreviated table t with
          | [w] => some w
          | _ :: _ :: _ => none
          | [] =>
            if isNegativeNumber t || t.contains (CodePoint.ofChar ' ') then some (.plain t)
            else some .unknown

/-- The words of a command line; behind the first double hyphen all are plain. -/
def classifyAll? (table : OptionTable) : List Text → Option (List Word)
  | [] => some []
  | t :: rest =>
    if t = ("--" : Text) then some (.separator :: rest.map .plain)
    else do
      let w ← classify? table t
      let ws ← classifyAll? table rest
      some (w :: ws)

/-- The effects of options of one letter, which all letters must be. -/
def letters? (table : OptionTable) : Text → Option (List OptionEffect)
  | [] => some []
  | c :: rest => do
    let effect ← table.lookup [CodePoint.ofChar '-', c]
    let effects ← letters? table rest
    some (effect :: effects)

/-- The effects of a cluster; nothing behind its first option is an error, an equals sign with
nothing behind it. -/
def cluster? (table : OptionTable) (first : OptionEffect) (letters : Text) :
    Option (List OptionEffect) :=
  if letters.isEmpty then none else (letters? table letters).map (first :: ·)

end Word

end TypedSexp
