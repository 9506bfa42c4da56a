import TypedSexp.Exception.Lineage
import TypedSexp.Number.Spelling
import TypedSexp.Value.Literal
import TypedSexp.Value.Sequence
/-!
# Exceptions

An exception is made of arguments by its class (`Raised.make`). Some classes refuse arguments that do
not fit, and an error of the system with a known number belongs to a class of its own. The generic
form of an exception is its class and its arguments, and `Raised.describe` shows it as a text.
-/

namespace TypedSexp

/-- An exception: its class, its arguments, and what it was made of. What is no exception has no
arguments. -/
structure Raised where
  kind : ExceptionClass
  args : List Value
  given : List Value
deriving Repr

/-! ## Making -/

/-- Why a class does not take arguments. -/
inductive MakingFault where
  | wrongType
  | wrongValue
  | overflow
  | value (fault : ValueFault)
deriving DecidableEq, Repr

/-- The class of exception of a fault. -/
def MakingFault.className : MakingFault → Text
  | .wrongType => "TypeError"
  | .wrongValue => "ValueError"
  | .overflow => "OverflowError"
  | .value fault => fault.className

namespace Making

/-- Errors of the system with a class of their own, by number. -/
def systemClasses : List (Int × Text) :=
  [(1, "PermissionError"), (2, "FileNotFoundError"), (3, "ProcessLookupError"),
   (4, "InterruptedError"), (10, "ChildProcessError"), (11, "BlockingIOError"),
   (13, "PermissionError"), (17, "FileExistsError"), (20, "NotADirectoryError"),
   (21, "IsADirectoryError"), (32, "BrokenPipeError"), (103, "ConnectionAbortedError"),
   (104, "ConnectionResetError"), (108, "BrokenPipeError"), (110, "TimeoutError"),
   (111, "ConnectionRefusedError"), (114, "BlockingIOError"), (115, "BlockingIOError")]

/-- The class for the number of an error of the system. -/
def systemClass? : Value → Option Text
  | .bool b => systemClasses.lookup (if b then 1 else 0)
  | .int n => systemClasses.lookup n
  | .float x => (systemClasses.find? fun entry => x.eqInt entry.1).map Prod.snd
  | _ => none

/-- The value cannot be looked up in a table. -/
def isMutable : Value → Bool
  | .list _ => true
  | .record _ => true
  | .array .. => true
  | .object .. => true
  | .tuple items => items.attach.any fun ⟨v, _⟩ => isMutable v
  | .variant _ args => args.attach.any fun ⟨v, _⟩ => isMutable v
  | _ => false

/-- A text. -/
def isText : Value → Bool
  | .text _ => true
  | _ => false

/-- What can stand for bytes. -/
def isBuffer : Value → Bool
  | .bytes _ => true
  | .array .. => true
  | _ => false

/-- An integer that is the number of an item. -/
def checkIndex : Value → Except MakingFault Unit
  | .bool _ => .ok ()
  | .int n => if -(Nat.pow 2 63 : Int) ≤ n ∧ n < (Nat.pow 2 63 : Int) then .ok () else .error .overflow
  | .array (.integer ..) [] _ => .ok ()
  | _ => .error .wrongType

/-- The condition holds, or there is a wrong type. -/
def demand (holds : Bool) : Except MakingFault Unit :=
  if holds then .ok () else .error .wrongType

/-- What a number is made of. -/
def checkInteger : List Value → Except MakingFault Unit
  | [] => .ok ()
  | [.bool _] => .ok ()
  | [.int _] => .ok ()
  | [.float (.nan _)] => .error .wrongValue
  | [.float (.infinite _)] => .error .overflow
  | [.float _] => .ok ()
  | [.text t] => (Spelling.readLooseInt t).toOption.elim (.error .wrongValue) fun _ => .ok ()
  | [.bytes b] =>
    (Spelling.readIntBytes (b.map Literal.byteCode)).toOption.elim (.error .wrongValue) fun _ => .ok ()
  | [.array e [] [v]] => if e = .any then checkInteger [v] else .ok ()
  | _ => .error .wrongType
termination_by args => sizeOf args

/-- What a text is made of. -/
def checkText : List Value → Except MakingFault Unit
  | [] => .ok ()
  | [v] => (v.display.mapError .value).map fun _ => ()
  | v :: rest => demand (isBuffer v && rest.length ≤ 2 && rest.all isText)

/-- What an error in a source is made of: the second of two arguments is its place. -/
def checkSource : List Value → Except MakingFault Unit
  | [_, place] =>
    match place.items with
    | .ok parts => demand (4 ≤ parts.length && parts.length ≤ 6 && parts.length != 5)
    | .error _ => .error .wrongType
  | _ => .ok ()

/-- What an error of coding is made of: texts, or the coded object and two numbers. -/
def checkCoding (isObject : Value → Bool) : List Value → Except MakingFault Unit
  | [object, start, stop, reason] => do
    demand (isObject object)
    checkIndex start
    checkIndex stop
    demand (isText reason)
  | _ => .error .wrongType

/-- The items of what can stand for a list of exceptions. -/
def sequenceItems : Value → Except MakingFault (List Value)
  | .record _ => .error .wrongType
  | v => v.items.mapError fun _ => .wrongType

/-- What a group of exceptions is made of; no value is an exception. -/
def checkGroup : List Value → Except MakingFault Unit
  | [message, exceptions] => do
    demand (isText message)
    let _ ← sequenceItems exceptions
    .error .wrongValue
  | _ => .error .wrongType

/-- The arguments fit. -/
def check (making : Making) (args : List Value) : Except MakingFault Unit :=
  match making with
  | .free => .ok ()
  | .nothing => demand args.isEmpty
  | .integer => checkInteger args
  | .text => checkText args
  | .systemError => .ok ()
  | .sourceError => checkSource args
  | .decoding =>
    match args with
    | codec :: rest => do
      demand (rest.length == 4 && isText codec)
      checkCoding isBuffer rest
    | [] => .error .wrongType
  | .encoding =>
    match args with
    | codec :: rest => do
      demand (rest.length == 4 && isText codec)
      checkCoding isText rest
    | [] => .error .wrongType
  | .replacing => checkCoding isText args
  | .group => checkGroup args

end Making

namespace Raised

/-- The arguments that an error of the system keeps: of a number, a text and a file only the first
two. -/
def systemArgs (kind : ExceptionClass) : List Value → Except MakingFault (List Value)
  | number :: text :: file :: rest =>
    if 2 < rest.length ∨ file.isNone then .ok (number :: text :: file :: rest)
    else if kind.name = ("BlockingIOError" : Text) then
      match file with
      | .bool _ => .ok (number :: text :: file :: rest)
      | .int _ => do
        Making.checkIndex file |>.mapError fun _ => .wrongValue
        .ok (number :: text :: file :: rest)
      | .float _ => .error .wrongType
      | _ => .ok [number, text]
    else .ok [number, text]
  | args => .ok args

/-- An error of the system. Its number may decide about the class, unless that is derived from the
class of all of them. -/
def makeSystemError (h : Hierarchy) (c : ExceptionClass) (args : List Value) :
    Except MakingFault Raised := do
  let kind ←
    match args with
    | number :: _ :: rest =>
      if c.showing = some .systemError ∧ rest.length ≤ 3 then
        if Making.isMutable number then .error .wrongType
        else
          pure (((Making.systemClass? number).bind fun name => h.reverse.find? (·.name == name)).getD c)
      else pure c
    | _ => pure c
  .ok ⟨kind, ← systemArgs kind args, args⟩

/-- The exception of a class with arguments. -/
def make (h : Hierarchy) (c : ExceptionClass) (args : List Value) : Except MakingFault Raised :=
  match h.makingOf c with
  | .systemError => makeSystemError h c args
  | making => do
    making.check args
    .ok ⟨c, if c.isException then args else [], args⟩

/-! ## The generic form -/

/-- An argument in the generic form: a tree as it is, a text or number as its text, anything else as
its literal. -/
def payload : Value → Except ValueFault Sexp
  | .sexp s => .ok s
  | .text t => .ok (.atom t)
  | v => do .ok (.atom (← v.literal))

/-- The arguments in the generic form. -/
def payloads : List Value → Except ValueFault (List Sexp)
  | [] => .ok []
  | v :: vs => do
    let s ← payload v
    let ss ← payloads vs
    .ok (s :: ss)

/-- The generic form: the name of the class and the arguments, or the name alone. -/
def generic (e : Raised) : Except ValueFault Sexp :=
  match e.args with
  | [] => .ok (.atom e.kind.name)
  | args => do .ok (.list (.atom e.kind.name :: (← payloads args)))

/-! ## Showing -/

/-- Arguments as a text: none as no text, a single one as itself, several as a tuple. -/
def showArguments : List Value → Except ValueFault Text
  | [] => .ok []
  | [v] => v.display
  | args => (Value.tuple args).literal

/-- An error of the system: its number in brackets, its text, and the files that it is about. -/
def showSystemError (args given : List Value) : Except ValueFault Text :=
  match given with
  | number :: text :: rest =>
    if 3 < rest.length then showArguments args
    else do
      let start := "[Errno " ++ (← number.display) ++ "] " ++ (← text.display)
      match rest with
      | file :: more =>
        if file.isNone then .ok start
        else
          match more with
          | [_, second] =>
            if second.isNone then do .ok (start ++ ": " ++ (← file.literal))
            else do .ok (start ++ ": " ++ (← file.literal) ++ " -> " ++ (← second.literal))
          | _ => do .ok (start ++ ": " ++ (← file.literal))
      | [] => .ok start
  | _ => showArguments args

/-- The part of a text behind its last slash. -/
def lastName (t : Text) : Text := (t.reverse.takeWhile (· != CodePoint.ofChar '/')).reverse

/-- An error in a source: the message, and file and line where they are known. -/
def showSourceError (given : List Value) : Except ValueFault Text := do
  let message ← (given.headD .none).display
  match given with
  | [_, place] =>
    match place.items with
    | .ok (.text file :: .int line :: _) =>
      .ok (message ++ " (" ++ lastName file ++ ", line " ++ Text.ofInt line ++ ")")
    | .ok (.text file :: _) => .ok (message ++ " (" ++ lastName file ++ ")")
    | .ok (_ :: .int line :: _) => .ok (message ++ " (line " ++ Text.ofInt line ++ ")")
    | _ => .ok message
  | _ => .ok message

/-- How an exception shows itself, if it can. -/
def show? (showing : Showing) (e : Raised) : Option Text :=
  match showing with
  | .words t => some t
  | .fails => none
  | .arguments => (showArguments e.args).toOption
  | .argumentLiteral =>
    match e.args with
    | [v] => v.literal.toOption
    | args => (showArguments args).toOption
  | .systemError => (showSystemError e.args e.given).toOption
  | .sourceError => (showSourceError e.given).toOption

/-- How an exception describes itself; by the name of its class if it cannot show itself. -/
def describe (h : Hierarchy) (e : Raised) : Text :=
  (show? (h.showingOf e.kind) e).getD e.kind.name

/-- The generic form, or if there is none the description. -/
def fallback (h : Hierarchy) (e : Raised) : Sexp :=
  match e.generic with
  | .ok s => s
  | .error _ => .atom (e.describe h)

end Raised

end TypedSexp
