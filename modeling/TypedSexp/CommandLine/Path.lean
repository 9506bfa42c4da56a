import TypedSexp.Text.Utf8
/-!
# Paths

An absolute path is a list of names below the root. A written path is resolved against a directory:
a point stays, two points go up, and empty names count for nothing. Names are told to the system as
bytes: UTF-8, where some surrogates stand for bytes that are none, and never with a null byte.
-/

namespace TypedSexp

/-- The names of an absolute path, from the root down. -/
abbrev Path := List Text

namespace Path

/-- The pieces between slashes. -/
def pieces : Text → List Text
  | [] => [[]]
  | c :: rest =>
    if c = '/' then [] :: pieces rest
    else
      match pieces rest with
      | [] => [[c]]
      | name :: more => (c :: name) :: more

/-- Why a path cannot be looked at. -/
inductive Fault where
  | notEncodable
  | nullByte
  | tooLong
deriving DecidableEq, Repr

/-- The class of exception of a fault. -/
def Fault.className : Fault → Text
  | .notEncodable => "UnicodeEncodeError"
  | .nullByte => "ValueError"
  | .tooLong => "OSError"

/-- A surrogate that stands for a byte. -/
def isByte (c : CodePoint) : Bool := 0xDC80 ≤ c.val && c.val ≤ 0xDCFF

/-- The number of bytes of a name. -/
def byteCount (name : Text) : Nat :=
  name.foldr (fun c n => (if isByte c then 1 else Utf8.width c) + n) 0

/-- A name can be told to the system. -/
def check (name : Text) : Except Fault Unit :=
  if name.any fun c => c.isSurrogate && !isByte c then .error .notEncodable
  else if name.any fun c => c.val == 0 then .error .nullByte
  else .ok ()

/-- One step from a directory. -/
def step (p : Path) (name : Text) : Except Fault Path :=
  if name.isEmpty || name = ("." : Text) then .ok p
  else if name = (".." : Text) then .ok p.dropLast
  else do
    check name
    .ok (p ++ [name])

/-- The path that a text means, seen from a directory. -/
def resolve (directory : Path) (t : Text) : Except Fault Path :=
  let start := if t.head? = some (CodePoint.ofChar '/') then [] else directory
  (pieces t).foldlM step start

/-- The text of a path. -/
def render (p : Path) : Text :=
  if p.isEmpty then "/" else p.flatMap fun name => "/" ++ name

/-- The most bytes of a name. -/
def maxName : Nat := 255

/-- The most bytes of a path. -/
def maxPath : Nat := 4095

/-- The last name of a path. -/
def name (p : Path) : Text := p.getLast?.getD []

end Path

end TypedSexp
