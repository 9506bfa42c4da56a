/-!
# Binary floating point

A floating-point number is a sign and a magnitude `significand · 2 ^ exponent`, or an infinity, or
not a number. All arithmetic is exact on natural numbers: `Format.round` takes a fraction to the
nearest number of a format, a tie to the even significand. Numbers of `binary64` are kept in the
form in which the significand is full or the exponent is least, so equal forms are equal numbers.

What is not a number equals nothing, not even itself; a payload tells one occurrence from another.
-/

namespace TypedSexp

/-- A binary format: the bits of its significand and the range of its exponents. -/
structure Format where
  precision : Nat
  leastExponent : Int
  greatestExponent : Int
deriving DecidableEq, Repr

/-- Double precision. -/
def binary64 : Format := ⟨53, -1074, 971⟩

/-- Single precision. -/
def binary32 : Format := ⟨24, -149, 104⟩

/-- A floating-point number. The payload of what is not a number tells where it comes from; zero says
nothing about that. -/
inductive Binary64 where
  | nan (payload : Nat)
  | infinite (negative : Bool)
  | finite (negative : Bool) (significand : Nat) (exponent : Int)
deriving DecidableEq, Repr

/-- The quotient rounded to nearest, a tie to the even neighbour. -/
def roundDiv (num den : Nat) : Nat :=
  let q := num / den
  let r := num % den
  if den < 2 * r ∨ (2 * r = den ∧ q % 2 = 1) then q + 1 else q

/-- `num / den · 2 ^ shift` as a fraction of natural numbers. -/
def scaleFraction (num den : Nat) (shift : Int) : Nat × Nat :=
  if 0 ≤ shift then (num * Nat.pow 2 shift.toNat, den) else (num, den * Nat.pow 2 (-shift).toNat)

namespace Format

/-- The exponent at which `num / den` fills the significand, or the least exponent. -/
def exponentOf (f : Format) (num den : Nat) : Int :=
  let low : Int := (num.log2 : Int) - den.log2 - f.precision
  let (a, b) := scaleFraction num den (-low)
  max f.leastExponent (if b * Nat.pow 2 f.precision ≤ a then low + 1 else low)

/-- The number of the format nearest to `num / den`; too large a magnitude is infinite. -/
def round (f : Format) (negative : Bool) (num den : Nat) : Binary64 :=
  if num = 0 then .finite negative 0 f.leastExponent
  else
    let e := f.exponentOf num den
    let (a, b) := scaleFraction num den (-e)
    let m := roundDiv a b
    let (m, e) := if m = Nat.pow 2 f.precision then (Nat.pow 2 (f.precision - 1), e + 1) else (m, e)
    if f.greatestExponent < e then .infinite negative else .finite negative m e

end Format

namespace Binary64

/-- Positive zero. -/
def zero : Binary64 := .finite false 0 binary64.leastExponent

/-- One. -/
def one : Binary64 := binary64.round false 1 1

instance : Inhabited Binary64 := ⟨zero⟩

/-- The magnitude of a finite number as a fraction. -/
def fraction (m : Nat) (e : Int) : Nat × Nat := scaleFraction m 1 e

/-- The nearest number to an integer; an integer too large for the format has none. -/
def ofInt? (n : Int) : Option Binary64 :=
  match binary64.round (n < 0) n.natAbs 1 with
  | .infinite _ => none
  | x => some x

/-- The decimal number `± digits · 10 ^ exponent`, rounded. A magnitude of at least `10 ^ 400` or
below `10 ^ (-400)` is decided by its order of magnitude alone. -/
def ofDecimal (negative : Bool) (digits : Nat) (exponent : Int) : Binary64 :=
  let order : Int := (Nat.toDigits 10 digits).length + exponent
  if digits = 0 ∨ order < -400 then .finite negative 0 binary64.leastExponent
  else if 400 < order then .infinite negative
  else if 0 ≤ exponent then binary64.round negative (digits * Nat.pow 10 exponent.toNat) 1
  else binary64.round negative digits (Nat.pow 10 (-exponent).toNat)

/-- The number rounded to single precision. -/
def toSingle : Binary64 → Binary64
  | .finite s m e =>
    let (num, den) := fraction m e
    match binary32.round s num den with
    | .finite s m e =>
      let (num, den) := fraction m e
      binary64.round s num den
    | x => x
  | x => x

/-- The integer part, toward zero; only finite numbers have one. -/
def truncate? : Binary64 → Option Int
  | .finite s m e =>
    let (num, den) := fraction m e
    let n : Int := (num / den : Nat)
    some (if s then -n else n)
  | _ => none

/-- Positive or negative zero. -/
def isZero : Binary64 → Bool
  | .finite _ m _ => m == 0
  | _ => false

/-- Less than zero. -/
def isNegative : Binary64 → Bool
  | .finite s m _ => s && m != 0
  | .infinite s => s
  | .nan _ => false

/-- Equal as numbers: the zeros are equal, and what is not a number equals nothing. -/
def numEq : Binary64 → Binary64 → Bool
  | .nan _, _ => false
  | _, .nan _ => false
  | x, y => x == y || (x.isZero && y.isZero)

/-- The same occurrence of what is not a number. -/
def isSameNan : Binary64 → Binary64 → Bool
  | .nan p, .nan q => p != 0 && p == q
  | _, _ => false

/-- The number with the place where it comes from, which is kept of what is not a number. -/
def withOrigin (origin : Nat) : Binary64 → Binary64
  | .nan _ => .nan origin
  | x => x

/-- The number without the place where it comes from. -/
def forgetOrigin (x : Binary64) : Binary64 := x.withOrigin 0

/-- Equal to an integer, exactly. -/
def eqInt (x : Binary64) (n : Int) : Bool :=
  match x with
  | .finite s m e =>
    let (num, den) := fraction m e
    num == n.natAbs * den && (num == 0 || s == decide (n < 0))
  | _ => false

end Binary64

end TypedSexp
