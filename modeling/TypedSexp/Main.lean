import TypedSexp.CommandLine.Run
/-!
# The program

`check FILE` counts the S-expressions of a file, `fmt FILE` prints them again. This module looks at
the file system and the environment, hands what it finds to `Command.answer`, and prints the answer.
-/

namespace TypedSexp.CommandLine

/-- What is said about the use of the program. -/
def usage : String :=
  "usage: sexpkit [-h] [--verbose] (check FILE | fmt [--hum] [--width WIDTH] FILE)"

/-- The variables that decide about colour. -/
def colorVariables : List String := ["NO_COLOR", "SEXPKIT_COLOR"]

/-- The values of some variables of the environment. -/
def environment (names : List String) : IO Environment := do
  let values ← names.mapM fun name => do
    return (← IO.getEnv name).map fun value => ((name : Text), (value : Text))
  return values.filterMap id

/-- What stands at a path. -/
def look (path : Path) : IO FileState := do
  let place := (← IO.currentDir) / path.render.display
  if ← place.isDir then return .directory
  if !(← place.pathExists) then return .missing
  try
    let content ← IO.FS.readBinFile place
    return .content content.toList
  catch fault => return .unreadable (toString fault)

/-- A step that may end the program with an exception. -/
def orFail {α : Type} (className : ε → Text) : Except ε α → IO α
  | .ok a => return a
  | .error fault => throw (IO.userError (className fault).display)

/-- Runs an invocation. -/
def run (invocation : Invocation) : IO Answer := do
  let here := ((← IO.currentDir).toString : Text)
  let directory ← orFail Path.Fault.className (Path.resolve [] here)
  let path ← orFail Path.Fault.className (Path.resolve directory invocation.file)
  let terminal ← (← IO.getStderr).isTty
  let color := (← environment colorVariables).useColor terminal
  orFail CommandFault.className (invocation.command.answer path (← look path) color)

end TypedSexp.CommandLine

open TypedSexp

/-- The program: the answer to its command line. -/
def main (args : List String) : IO UInt32 := do
  match Invocation.ofArguments (args.map Text.ofString) with
  | .error .help =>
    IO.println CommandLine.usage
    return 0
  | .error .usage =>
    IO.eprintln CommandLine.usage
    return 2
  | .ok invocation =>
    let answer ← CommandLine.run invocation
    IO.print answer.out.display
    IO.eprint answer.err.display
    return answer.code.toUInt32
