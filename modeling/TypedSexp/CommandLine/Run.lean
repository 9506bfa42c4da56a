import TypedSexp.CommandLine.Arguments
import TypedSexp.CommandLine.Path
import TypedSexp.Diagnostic.Failure
import TypedSexp.Document
import TypedSexp.Environment
/-!
# Commands

What a command answers, given what stands at its path. `check` counts the trees of a file, `fmt`
prints them again; a malformed file is reported and nothing is printed. A path that cannot be looked
at, and a layout without a width, end the command without an answer.
-/

namespace TypedSexp

/-- What stands at a path. -/
inductive FileState where
  | missing
  | directory
  | content (bytes : Utf8.Bytes)
  | unreadable (reason : Text)
deriving Repr

/-- What stands at some paths. -/
abbrev Listing := List (Path × FileState)

namespace Listing

/-- What is listed at a path, or a directory if something is listed below. -/
def listedAt (files : Listing) (p : Path) : FileState :=
  match List.lookup p files with
  | some state => state
  | none => if files.any fun entry => p.isPrefixOf entry.1 then .directory else .missing

/-- The path is one of a directory. -/
def isDirectory (files : Listing) (p : Path) : Bool :=
  match files.listedAt p with
  | .directory => true
  | _ => false

/-- The path is too long as a whole, or has too long a name in a directory. -/
def isTooLong (files : Listing) (p : Path) : Bool :=
  Path.maxPath < Path.byteCount p.render
    || (p.zipIdx).any fun (name, i) =>
      Path.maxName < Path.byteCount name && files.isDirectory (p.take i)

/-- What stands at a path. -/
def stateAt (files : Listing) (p : Path) : Except Path.Fault FileState :=
  if files.isTooLong p then .error .tooLong else .ok (files.listedAt p)

end Listing

/-- The answer of a command: the exit code, the output, and what is said about errors. -/
structure Answer where
  code : Nat
  out : Text
  err : Text
deriving DecidableEq, Repr

namespace Answer

/-- An error of the program. -/
def refuse (message : Text) : Answer := ⟨1, [], "sexpkit: error: " ++ message ++ "\n"⟩

/-- A good end with an output. -/
def done (out : Text) : Answer := ⟨0, out, []⟩

end Answer

/-- Why a command ends without an answer. -/
inductive CommandFault where
  | path (fault : Path.Fault)
  | noWidth
deriving DecidableEq, Repr

/-- The class of exception of a fault. -/
def CommandFault.className : CommandFault → Text
  | .path fault => fault.className
  | .noWidth => "TypeError"

namespace Command

/-- The tree cannot be laid out without a width: it is a list with items. -/
def needsWidth : Sexp → Bool
  | .list (_ :: _) => true
  | _ => false

/-- What a command prints about the trees of a file. -/
def output (command : Command) (fileName : Text) (trees : List Sexp) : Except CommandFault Text :=
  let lines (form : Sexp → Text) : Text := trees.flatMap fun s => form s ++ "\n"
  match command with
  | .check =>
    let count := trees.length
    .ok (fileName ++ ": " ++ Text.ofNat count ++ (if count = 1 then " form" else " forms") ++ " ok\n")
  | .format false _ => .ok (lines Sexp.print)
  | .format true (some width) => .ok (lines fun s => s.layout { width })
  | .format true none => if trees.any needsWidth then .error .noWidth else .ok (lines Sexp.print)

/-- The report of a malformed file. -/
def report (path text : Text) (fault : ParseFault) (color : Bool) : Text :=
  Report.render ⟨[(path, text)], [(Failure.ofParse fault).diagnostic]⟩ color ++ "\n"

/-- The answer for the text of a file. -/
def answerText (command : Command) (path : Path) (text : Text) (color : Bool) :
    Except CommandFault Answer :=
  match (Source.text text).parseMany 0 path.render with
  | .ok nodes => (command.output path.name (Node.sexps nodes)).map .done
  | .error (.parse fault) => .ok ⟨1, [], report path.render text fault color⟩
  | .error (.source _) => .ok (.refuse "could not read file")

/-- The answer for what stands at a path. -/
def answer (command : Command) (path : Path) (state : FileState) (color : Bool) :
    Except CommandFault Answer :=
  match state with
  | .missing => .ok (.refuse ("file not found: " ++ path.render))
  | .directory => .ok (.refuse ("not a file: " ++ path.render))
  | .unreadable reason => .ok (.refuse ("could not read file: " ++ reason))
  | .content bytes =>
    match Document.text bytes with
    | .error fault => .ok (.refuse ("could not read file: " ++ fault.message))
    | .ok text => command.answerText path text color

end Command

/-- The answer to an invocation in a directory, among the listed files. -/
def Invocation.answer (invocation : Invocation) (directory : Path) (files : Listing)
    (color : Bool) : Except CommandFault Answer := do
  let path ← (Path.resolve directory invocation.file).mapError .path
  invocation.command.answer path (← (files.stateAt path).mapError .path) color

end TypedSexp
