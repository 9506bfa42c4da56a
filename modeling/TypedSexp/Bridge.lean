import TypedSexp.Number.Spelling
import TypedSexp.Sexp.Atom
import TypedSexp.Sexp.Draft
/-!
# Symbols and strings

Other readers of S-expressions tell symbols from strings and know numbers, conditions and several
kinds of sequences. `Datum` is such a structure. A tree becomes a datum in which exactly the atoms
that need quotes are strings; a datum becomes a tree unless something foreign is in it.
-/

namespace TypedSexp

/-- A structure of symbols, strings and other data. -/
inductive Datum where
  | nothing
  | bool (b : Bool)
  | int (n : Int)
  | float (x : Binary64)
  | symbol (t : Text)
  | string (t : Text)
  | list (items : List Datum)
  | tuple (items : List Datum)
  | brackets (items : List Datum)
  | quoted (d : Datum)
  | foreign (typeName : Text)
deriving Repr, Inhabited

namespace Datum

/-- Why a datum is no tree. -/
inductive Fault where
  | foreign (typeName : Text)
  | quoted
  | tooManyDigits
deriving DecidableEq, Repr

/-- The wording of the fault of a foreign thing. -/
def Fault.message : Fault → Text
  | .foreign typeName => "Cannot convert " ++ typeName ++ " to a Sexp"
  | .quoted => "a quoted datum has no value"
  | .tooManyDigits => "too many digits"

/-- The class of exception of a fault. -/
def Fault.className : Fault → Text
  | .foreign _ => "TypeError"
  | .quoted => "AttributeError"
  | .tooManyDigits => "ValueError"

/-- The wording where a foreign thing stands in a tree. -/
def notSexp (typeName : Text) : Text := "Expected a Sexp, got " ++ typeName

/-- An atom: a string if it needs quotes, else a symbol. -/
def ofAtom (t : Text) : Datum := if Atom.needsQuotes t then .string t else .symbol t

mutual

/-- The datum of a tree. -/
def ofSexp : Sexp → Datum
  | .atom t => ofAtom t
  | .list items => .list (ofSexps items)

/-- The data of several trees. -/
def ofSexps : List Sexp → List Datum
  | [] => []
  | x :: xs => ofSexp x :: ofSexps xs

end

mutual

/-- The tree of a datum. All sequences become lists. -/
def sexp : Datum → Except Fault Sexp
  | .nothing => .ok .empty
  | .bool b => .ok (.atom (if b then "true" else "false"))
  | .int n =>
    match Spelling.writeInt? n with
    | some t => .ok (.atom t)
    | none => .error .tooManyDigits
  | .float x => .ok (.atom x.toText)
  | .symbol t => .ok (.atom t)
  | .string t => .ok (.atom t)
  | .list items => do .ok (.list (← sexps items))
  | .tuple items => do .ok (.list (← sexps items))
  | .brackets items => do .ok (.list (← sexps items))
  | .quoted _ => .error .quoted
  | .foreign typeName => .error (.foreign typeName)

/-- The trees of several data. -/
def sexps : List Datum → Except Fault (List Sexp)
  | [] => .ok []
  | d :: ds => do
    let s ← sexp d
    let ss ← sexps ds
    .ok (s :: ss)

end

end Datum

end TypedSexp
