import TypedSexp.Exception.Lineage
/-!
# Known exception classes

The classes that exist from the start: the hierarchy of exceptions under `BaseException`, and two
classes that are no exceptions.
-/

namespace TypedSexp

namespace Hierarchy

/-- Classes and those directly derived from them; each is listed after its own base. -/
def families : List (Text × List Text) :=
  [("BaseException",
    ["Exception", "BaseExceptionGroup", "GeneratorExit", "KeyboardInterrupt", "SystemExit"]),
  ("Exception",
    ["ArithmeticError", "AssertionError", "AttributeError", "OSError", "BufferError", "Warning",
     "EOFError", "ImportError", "SyntaxError", "LookupError", "MemoryError", "NameError",
     "RuntimeError", "ReferenceError", "StopAsyncIteration", "StopIteration", "SystemError",
     "TypeError", "ValueError"]),
  ("OSError",
    ["BlockingIOError", "ConnectionError", "ChildProcessError", "FileExistsError",
     "FileNotFoundError", "InterruptedError", "IsADirectoryError", "NotADirectoryError",
     "PermissionError", "ProcessLookupError", "TimeoutError"]),
  ("ConnectionError",
    ["BrokenPipeError", "ConnectionAbortedError", "ConnectionRefusedError",
     "ConnectionResetError"]),
  ("Warning",
    ["BytesWarning", "DeprecationWarning", "EncodingWarning", "FutureWarning", "ImportWarning",
     "PendingDeprecationWarning", "ResourceWarning", "RuntimeWarning", "SyntaxWarning",
     "UnicodeWarning", "UserWarning"]),
  ("ArithmeticError", ["FloatingPointError", "OverflowError", "ZeroDivisionError"]),
  ("SyntaxError", ["IndentationError"]),
  ("LookupError", ["IndexError", "KeyError"]),
  ("ImportError", ["ModuleNotFoundError"]),
  ("RuntimeError", ["NotImplementedError", "RecursionError"]),
  ("IndentationError", ["TabError"]),
  ("NameError", ["UnboundLocalError"]),
  ("ValueError", ["UnicodeError"]),
  ("UnicodeError", ["UnicodeDecodeError", "UnicodeEncodeError", "UnicodeTranslateError"])]

/-- Classes whose instances have a layout of their own. -/
def solidNames : List Text :=
  ["AttributeError", "BaseExceptionGroup", "ImportError", "NameError", "OSError", "StopIteration",
   "SyntaxError", "SystemExit", "UnicodeDecodeError", "UnicodeEncodeError",
   "UnicodeTranslateError"]

/-- Classes that show themselves in a way of their own. -/
def showings : List (Text × Showing) :=
  [("BaseException", .arguments), ("KeyError", .argumentLiteral), ("OSError", .systemError),
   ("SyntaxError", .sourceError)]

/-- Classes whose instances are not made of any arguments. -/
def makings : List (Text × Making) :=
  [("BaseExceptionGroup", .group), ("OSError", .systemError), ("SyntaxError", .sourceError),
   ("UnicodeDecodeError", .decoding), ("UnicodeEncodeError", .encoding),
   ("UnicodeTranslateError", .replacing)]

/-- A known class with known bases. -/
def known (h : Hierarchy) (bases : List Text) (name : Text) : Hierarchy :=
  let lineages := (bases.filterMap h.find?).map ExceptionClass.lineage
  let ancestors := (Lineage.merge? lineages.flatten.length lineages).getD []
  h.add name ancestors (solidNames.contains name) (showings.lookup name) (makings.lookup name)

/-- The classes that exist from the start. -/
def initial : Hierarchy :=
  let root : Hierarchy := Hierarchy.add [] "BaseException" [] true (some .arguments) (some .free)
  let h := families.foldl (fun h (base, names) => names.foldl (fun h name => h.known [base] name) h) root
  ((h.known ["BaseExceptionGroup", "Exception"] "ExceptionGroup").add "int" [] true none
    (some .integer)).add "str" [] true none (some .text)

end Hierarchy

end TypedSexp
