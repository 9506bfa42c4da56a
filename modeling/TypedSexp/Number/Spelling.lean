import TypedSexp.Text.Blank
import TypedSexp.Text.DecimalDigit
import TypedSexp.Number.Digit
import TypedSexp.Number.Decimal
/-!
# Spellings of numbers

An integer is an optional sign and either `0x`, `0o` or `0b` (either case) before digits of that
base, or decimal digits; underscores may stand among the digits. A float is an optional sign,
digits with at most one point, and an optional exponent, or one of four words. Decimal integers are
read and written with at most `maxDigits` digits.
-/

namespace TypedSexp.Spelling

open Digit

/-- The most decimal digits that an integer is read or written with. -/
def maxDigits : Nat := 4300

/-- Splits a sign off: whether it is a minus, and the rest. -/
def splitSign : Text → Bool × Text
  | [] => (false, [])
  | c :: rest =>
    if c = '-' then (true, rest) else if c = '+' then (false, rest) else (false, c :: rest)

/-- A digit of the base or an underscore. -/
def isDigitOrUnderscore (base : Nat) (c : CodePoint) : Bool :=
  c == CodePoint.ofChar '_' || (value? base c).isSome

/-- The base that a letter after a zero announces. -/
def baseOf? (c : CodePoint) : Option Nat :=
  if c = 'x' ∨ c = 'X' then some 16
  else if c = 'o' ∨ c = 'O' then some 8
  else if c = 'b' ∨ c = 'B' then some 2
  else none

/-- Splits an announced base off the digits of an integer. -/
def splitBase (t : Text) : Option Nat × Text :=
  match t with
  | zero :: letter :: rest =>
    match baseOf? letter with
    | some base => if zero = '0' then (some base, rest) else (none, t)
    | none => (none, t)
  | _ => (none, t)

/-- Why a text is not read as an integer. -/
inductive IntFault where
  | notInteger
  | tooManyDigits
deriving DecidableEq, Repr

/-- The magnitude that the part after the sign stands for. -/
def readMagnitude (t : Text) : Except IntFault Nat :=
  match splitBase t with
  | (some base, digits) =>
    if digits.all (isDigitOrUnderscore base) && digits.any fun c => (value? base c).isSome then
      .ok (positional base digits)
    else .error .notInteger
  | (none, digits) =>
    if digits.all (isDigitOrUnderscore 10) && digits.head?.any isDigit then
      if maxDigits < digits.countP isDigit then .error .tooManyDigits
      else .ok (positional 10 digits)
    else .error .notInteger

/-- The integer that a text spells. -/
def readInt (t : Text) : Except IntFault Int := do
  let (minus, rest) := splitSign t
  let n ← readMagnitude rest
  .ok (if minus then -(n : Int) else n)

/-- The decimal text of an integer, unless it has too many digits. -/
def writeInt? (n : Int) : Option Text :=
  let t := Text.ofInt n
  if maxDigits < (if n < 0 then t.length - 1 else t.length) then none else some t

/-- Splits the longest run of decimal digits off. -/
def splitDigits (t : Text) : Text × Text := (t.takeWhile isDigit, t.dropWhile isDigit)

/-- The exponent after a mantissa: zero if there is none. -/
def readExponent? : Text → Option Int
  | [] => some 0
  | mark :: rest =>
    if mark = 'e' ∨ mark = 'E' then
      let (minus, digits) := splitSign rest
      if digits.isEmpty || !digits.all isDigit then none
      else
        let n : Int := positional 10 digits
        some (if minus then -n else n)
    else none

/-- The number that a decimal numeral spells, rounded. -/
def readNumeral? (t : Text) : Option Binary64 := do
  let (minus, rest) := splitSign t
  let (whole, rest) := splitDigits rest
  let (decimals, rest) :=
    match rest with
    | c :: more => if c = '.' then splitDigits more else ([], rest)
    | [] => ([], rest)
  if whole.isEmpty && decimals.isEmpty then none
  else
    let exponent ← readExponent? rest
    some (.ofDecimal minus (positional 10 (whole ++ decimals)) (exponent - decimals.length))

/-- The words for what is not a number or not finite. -/
def floatWords : List (Text × Binary64) :=
  [("nan", .nan 0), ("inf", .infinite false), ("+inf", .infinite false), ("-inf", .infinite true)]

/-- The float that a text spells. -/
def readFloat? (t : Text) : Option Binary64 :=
  match floatWords.lookup t with
  | some x => some x
  | none => readNumeral? t

/-- The text without its underscores, if each of them stands between two digits; `afterDigit` says
whether a digit stands before the text. -/
def dropUnderscores? (afterDigit : Bool) : Text → Option Text
  | [] => some []
  | c :: rest =>
    if c = '_' then
      if afterDigit && rest.head?.any isDigit then dropUnderscores? false rest else none
    else (dropUnderscores? (isDigit c) rest).map (c :: ·)

/-- Digits of other scripts as ASCII digits. -/
def asciiDigits (t : Text) : Text :=
  t.map fun c =>
    match c.decimalValue? with
    | some d => CodePoint.ofChar (Nat.digitChar d)
    | none => c

/-- Blanks that may stand around a number; information separators may not. -/
def isSpace (c : CodePoint) : Bool := c.isBlank && !(28 ≤ c.val && c.val < 32)

/-- Why a text is not read loosely as an integer; of too many digits the number is told. -/
inductive LooseFault where
  | notInteger
  | tooManyDigits (count : Nat)
deriving DecidableEq, Repr

/-- The integer that a text spells in decimal when blanks around it, underscores between digits and
digits of any script are allowed. The digits are counted before what follows them is looked at. -/
def readLooseInt (t : Text) : Except LooseFault Int :=
  let (minus, rest) := splitSign ((asciiDigits t).dropWhile isSpace)
  match dropUnderscores? false (rest.takeWhile (isDigitOrUnderscore 10)) with
  | none => .error .notInteger
  | some digits =>
    if maxDigits < digits.length then .error (.tooManyDigits digits.length)
    else if digits.isEmpty || !(rest.dropWhile (isDigitOrUnderscore 10)).all isSpace then
      .error .notInteger
    else
      let n : Int := positional 10 digits
      .ok (if minus then -n else n)

/-- The text without the blanks around it. -/
def trimSpaces (t : Text) : Text := ((t.dropWhile isSpace).reverse.dropWhile isSpace).reverse

/-- The float that a text spells when blanks around it, underscores between digits, digits of any
script and longer words in any case are allowed. -/
def readLooseFloat? (t : Text) : Option Binary64 := do
  let t := trimSpaces (asciiDigits t)
  let (minus, word) := splitSign t
  let word := word.asciiLower
  if word = ("inf" : Text) ∨ word = ("infinity" : Text) then some (.infinite minus)
  else if word = ("nan" : Text) then some (.nan 0)
  else readNumeral? (← dropUnderscores? false t)

/-- A text of ASCII; anything else becomes a code point that belongs to no number. -/
def asciiOnly (t : Text) : Text := t.map fun c => if c.val < 128 then c else '?'

/-- The integer that ASCII bytes spell loosely. -/
def readIntBytes (t : Text) : Except LooseFault Int := readLooseInt (asciiOnly t)

/-- The float that ASCII bytes spell loosely. -/
def readFloatBytes? (t : Text) : Option Binary64 := readLooseFloat? (asciiOnly t)

end TypedSexp.Spelling
