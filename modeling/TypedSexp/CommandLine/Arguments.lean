import TypedSexp.CommandLine.Options
import TypedSexp.Number.Spelling
import TypedSexp.Sexp.Printer
/-!
# Command lines

A command line names a command, `check` or `fmt`, and a file. Options before the command belong to
the program, those behind it to the command. A call for help ends the reading at once; anything else
that is wrong is an error of usage.
-/

namespace TypedSexp

/-- What is done with the trees of a file: they are counted, or printed again. -/
inductive Command where
  | check
  | format (human : Bool) (width : Option Int)
deriving DecidableEq, Repr

/-- A command for a file. -/
structure Invocation where
  command : Command
  file : Text
deriving DecidableEq, Repr

/-- Why no command is run. -/
inductive Refusal where
  | help
  | usage
deriving DecidableEq, Repr

namespace Refusal

/-- The exit code. -/
def code : Refusal → Nat
  | .help => 0
  | .usage => 2

end Refusal

namespace Invocation

/-- The options of the program. -/
def programOptions : OptionTable :=
  [("-h", .help), ("--help", .help), ("--verbose", .verbose), ("-v", .verbose)]

/-- The options of `check`. -/
def checkOptions : OptionTable := [("-h", .help), ("--help", .help)]

/-- The options of `fmt`. -/
def formatOptions : OptionTable :=
  [("-h", .help), ("--help", .help), ("--hum", .human), ("--width", .width)]

/-- What has been read of a command: its options, its file, and whether a word was left over. -/
structure Progress where
  human : Bool := false
  width : Option Int := some ({} : Layout).width
  file : Option Text := none
  leftOver : Bool := false

/-- The progress after options without values; help ends the reading. -/
def Progress.apply (p : Progress) : List OptionEffect → Except Refusal Progress
  | [] => .ok p
  | .help :: _ => .error .help
  | .human :: rest => Progress.apply { p with human := true } rest
  | _ :: rest => p.apply rest

/-- The progress after a width. A double hyphen counts for nothing and leaves no width. -/
def Progress.setWidth (p : Progress) (t : Text) : Except Refusal Progress :=
  if t = ("--" : Text) then .ok { p with width := none }
  else
    match Spelling.readLooseInt t with
    | .ok width => .ok { p with width := some width }
    | .error _ => .error .usage

/-- Reads the words of a command. A double hyphen may stand before the file or directly behind
it. -/
def readWords (table : OptionTable) (p : Progress) : List Word → Except Refusal Progress
  | [] => .ok p
  | .plain t :: .separator :: rest =>
    if p.file.isSome then readWords table { p with leftOver := true } rest
    else readWords table { p with file := some t } rest
  | .separator :: .plain t :: rest =>
    if p.file.isSome then readWords table { p with leftOver := true } rest
    else readWords table { p with file := some t } rest
  | .plain t :: rest =>
    if p.file.isSome then readWords table { p with leftOver := true } rest
    else readWords table { p with file := some t } rest
  | .separator :: rest => readWords table { p with leftOver := true } rest
  | .unknown :: rest => readWords table { p with leftOver := true } rest
  | .option .width (some t) :: rest => do readWords table (← p.setWidth t) rest
  | .option .width none :: .plain t :: rest => do readWords table (← p.setWidth t) rest
  | .option .width none :: _ => .error .usage
  | .option effect none :: rest => do readWords table (← p.apply [effect]) rest
  | .option _ (some _) :: _ => .error .usage
  | .cluster first letters :: rest =>
    match Word.cluster? table first letters with
    | none => .error .usage
    | some effects => do readWords table (← p.apply effects) rest

/-- Reads the words behind the name of a command. -/
def readCommand (table : OptionTable) (command : Progress → Command) (args : List Text) :
    Except Refusal Invocation :=
  match Word.classifyAll? table args with
  | none => .error .usage
  | some words =>
    match readWords table {} words with
    | .error e => .error e
    | .ok p =>
      match p.file, p.leftOver with
      | some file, false => .ok ⟨command p, file⟩
      | _, _ => .error .usage

/-- Reads the name of a command and the words behind it. -/
def readNamed (name : Text) (args : List Text) : Except Refusal Invocation :=
  if name = ("check" : Text) then readCommand checkOptions (fun _ => .check) args
  else if name = ("fmt" : Text) then
    readCommand formatOptions (fun p => .format p.human p.width) args
  else .error .usage

/-- Reads the words up to the command; `clean` says that none was unknown so far. -/
def readProgram (clean : Bool) : List Word → List Text → Except Refusal Invocation
  | .plain name :: _, _ :: args =>
    match readNamed name args with
    | .ok invocation => if clean then .ok invocation else .error .usage
    | .error e => .error e
  | .unknown :: words, _ :: args => readProgram false words args
  | .option effect none :: words, _ :: args =>
    if effect = .help then .error .help else readProgram clean words args
  | .cluster first letters :: words, _ :: args =>
    match Word.cluster? programOptions first letters with
    | none => .error .usage
    | some effects =>
      if effects.contains .help then .error .help else readProgram clean words args
  | _, _ => .error .usage

/-- The invocation that a command line asks for. -/
def ofArguments (args : List Text) : Except Refusal Invocation :=
  match Word.classifyAll? programOptions args with
  | none => .error .usage
  | some words => readProgram true words args

end Invocation

end TypedSexp
