import TypedSexp.Sexp.Basic
import TypedSexp.Text.Blank
import TypedSexp.Text.Printable
import TypedSexp.Number.Digit
/-!
# The written form of atoms

An atom is written bare if its text is a non-empty run of printable code points other than blanks,
parentheses, the double quote and the semicolon. Any other text is written between double quotes,
with escapes. `Atom.unescape` reads escapes back; it knows more of them than are written, and keeps
a backslash that starts none of them.
-/

namespace TypedSexp.Atom

/-! ## Bare atoms -/

/-- Structural code points end a bare atom. -/
def isStructural (c : CodePoint) : Bool := c = '(' || c = ')' || c = '"' || c = ';'

/-- A code point that a bare atom may hold. -/
def isBare (c : CodePoint) : Bool := !c.isBlank && !isStructural c

/-- The text cannot be written without quotes. -/
def needsQuotes (t : Text) : Bool := t.isEmpty || !t.all isBare || !t.isPrintable

/-! ## Writing escapes -/

/-- The escape of a code point, or the code point itself if it is printable. -/
def escapeOne (c : CodePoint) : Text :=
  if c = '"' then "\\\""
  else if c = '\\' then "\\\\"
  else if c = '\n' then "\\n"
  else if c = '\t' then "\\t"
  else if c = '\r' then "\\r"
  else if c = '\x08' then "\\b"
  else if c.isPrintable then [c]
  else if c.val < 256 then
    ['\\', Nat.digitChar (c.val / 100), Nat.digitChar (c.val / 10 % 10), Nat.digitChar (c.val % 10)]
  else "\\u\x7b" ++ (Nat.toDigits 16 c.val).map CodePoint.ofChar ++ "\x7d"

/-- The text between double quotes. -/
def quote (t : Text) : Text := "\"" ++ t.flatMap escapeOne ++ "\""

/-- The text as it is written: bare where possible. -/
def format (t : Text) : Text := if needsQuotes t then quote t else t

/-! ## Reading escapes -/

/-- The escapes of one letter. -/
def simpleEscape? (c : CodePoint) : Option CodePoint :=
  if c = '"' ∨ c = '\\' ∨ c = ' ' then some c
  else if c = 'n' then some '\n'
  else if c = 't' then some '\t'
  else if c = 'r' then some '\r'
  else if c = 'b' then some '\x08'
  else none

/-- Blanks that a line continuation drops from the start of the next line. -/
def isIndent (c : CodePoint) : Bool := c = ' ' || c = '\t'

/-- The number that digits of a base name, if all of them are digits and it is at most a bound. -/
def numbered? (base bound : Nat) (digits : Text) : Option CodePoint :=
  if digits.all fun c => (Digit.value? base c).isSome then
    let n := Digit.positional base digits
    if n ≤ bound then CodePoint.ofNat? n else none
  else none

/-- The escape that starts right after a backslash: what it stands for and how many code points it
takes. Three decimal digits up to 255, `x` and two hexadecimal digits, and `u` with hexadecimal
digits in braces name a code point; a line end stands for nothing, together with the blanks after
it. -/
def escape? : Text → Option (Text × Nat)
  | [] => none
  | c :: rest =>
    match simpleEscape? c with
    | some d => some ([d], 1)
    | none =>
      if c = '\n' then some ([], 1 + (rest.takeWhile isIndent).length)
      else if c = '\r' then
        match rest with
        | d :: more =>
          if d = '\n' then some ([], 2 + (more.takeWhile isIndent).length)
          else some ([], 1 + (rest.takeWhile isIndent).length)
        | [] => some ([], 1)
      else if Digit.isDigit c then
        match rest with
        | d :: e :: _ => (numbered? 10 255 [c, d, e]).map fun x => ([x], 3)
        | _ => none
      else if c = 'x' then
        match rest with
        | d :: e :: _ => (numbered? 16 255 [d, e]).map fun x => ([x], 3)
        | _ => none
      else if c = 'u' then
        match rest with
        | d :: more =>
          let digits := more.takeWhile fun x => x ≠ CodePoint.ofChar '\x7d'
          if d = '\x7b' ∧ digits ≠ [] ∧ digits.length < more.length then
            (numbered? 16 0x10FFFF digits).map fun x => ([x], digits.length + 3)
          else none
        | [] => none
      else none

/-- The text that the inside of a quoted atom stands for. -/
def unescape : Text → Text
  | [] => []
  | c :: rest =>
    if c = '\\' then
      match escape? rest with
      | some (meaning, taken) => meaning ++ unescape (rest.drop taken)
      | none => c :: unescape rest
    else c :: unescape rest
termination_by t => t.length
decreasing_by all_goals simp; try omega

end TypedSexp.Atom
