import TypedSexp.Text.Basic
import TypedSexp.Number.Binary64
/-!
# Shortest decimals

`Shortest.digits` finds the fewest decimal digits that read back as a binary number, and among
those the nearest. It tries one digit, two digits, …: of the grid of decimals with that many digits
it takes the two neighbours of the number, and keeps those inside the interval of reals that round
to the number. `DecimalStyle` says how the digits are written.
-/

namespace TypedSexp

/-- A positive decimal `digits · 10 ^ exponent`. -/
structure Decimal where
  digits : Nat
  exponent : Int
deriving DecidableEq, Repr

namespace Shortest

/-- How many decimal digits a natural number has. -/
def length (n : Nat) : Nat := (Nat.toDigits 10 n).length

/-- The greatest power of ten that is at most `num / den`. -/
def order (num den : Nat) : Int :=
  if den ≤ num then (length (num / den) : Int) - 1
  else
    let t := length (den / num)
    if den ≤ num * Nat.pow 10 (t - 1) then 1 - (t : Int) else -(t : Int)

/-- The reals that round to a number: from `low` to `high` over `den`, ends included or not. -/
structure Interval where
  low : Nat
  value : Nat
  high : Nat
  den : Nat
  closed : Bool
deriving Repr

/-- The interval of `m · 2 ^ e` in a format. Below a power of two the numbers stand twice as
dense. -/
def interval (f : Format) (m : Nat) (e : Int) : Interval :=
  let below := if m = Nat.pow 2 (f.precision - 1) ∧ f.leastExponent < e then 1 else 2
  let up (n : Nat) := (scaleFraction n 1 (e - 2)).1
  ⟨up (4 * m - below), up (4 * m), up (4 * m + 2), (scaleFraction 1 1 (e - 2)).2, m % 2 == 0⟩

/-- `d · 10 ^ k` as a fraction. -/
def Decimal.fraction (d : Nat) (k : Int) : Nat × Nat :=
  if 0 ≤ k then (d * Nat.pow 10 k.toNat, 1) else (d, Nat.pow 10 (-k).toNat)

/-- The decimal lies in the interval. -/
def Interval.holds (i : Interval) (d : Nat) (k : Int) : Bool :=
  let (num, den) := Decimal.fraction d k
  if i.closed then i.low * den ≤ num * i.den && num * i.den ≤ i.high * den
  else i.low * den < num * i.den && num * i.den < i.high * den

/-- The decimal of the interval on the grid `10 ^ k` nearest to the value, if there is one. -/
def Interval.onGrid? (i : Interval) (k : Int) : Option Nat :=
  let (num, den) :=
    if 0 ≤ k then (i.value, i.den * Nat.pow 10 k.toNat) else (i.value * Nat.pow 10 (-k).toNat, i.den)
  let d := num / den
  match i.holds d k, i.holds (d + 1) k with
  | true, true => some (roundDiv num den)
  | true, false => some d
  | false, true => some (d + 1)
  | false, false => none

/-- The first grid with a decimal in the interval, from the coarsest; `tries` grids are looked at. -/
def Interval.search (i : Interval) : Nat → Int → Decimal
  | 0, k => ⟨i.value / i.den, k⟩
  | tries + 1, k =>
    match i.onGrid? k with
    | some d => ⟨d, k⟩
    | none => i.search tries (k - 1)

/-- The decimal without zeros at its end; `steps` zeros at most are removed. -/
def Decimal.trim : Nat → Decimal → Decimal
  | 0, d => d
  | steps + 1, d =>
    if d.digits ≠ 0 ∧ d.digits % 10 = 0 then Decimal.trim steps ⟨d.digits / 10, d.exponent + 1⟩
    else d

/-- The shortest decimal of an interval. Seventeen digits always suffice. -/
def Interval.shortest (i : Interval) : Decimal := i.search 17 (order i.value i.den)

/-- The shortest decimal that reads back as `m · 2 ^ e` in a format, for `m` above zero. -/
def digits (f : Format) (m : Nat) (e : Int) : Decimal :=
  Decimal.trim 20 (interval f m e).shortest

/-- The digits on the grid `10 ^ k`: the one neighbour of the value that lies in the interval, and if
both or none do, the nearer one, a tie to the even digit. -/
def Interval.rounded (i : Interval) (k : Int) : Nat :=
  match i.onGrid? k with
  | some d => d
  | none =>
    let (num, den) :=
      if 0 ≤ k then (i.value, i.den * Nat.pow 10 k.toNat) else (i.value * Nat.pow 10 (-k).toNat, i.den)
    roundDiv num den

end Shortest

/-- How a decimal is written: positional for orders of magnitude from `leastPositional` up to but
not including `firstScientific`, otherwise one digit, a point and the others, and an exponent. -/
structure DecimalStyle where
  leastPositional : Int
  firstScientific : Int
  exponentWidth : Nat
deriving Repr

namespace DecimalStyle

/-- Positional from a ten-thousandth up to below `10 ^ 16`; exponents have two digits or more. -/
def standard : DecimalStyle := ⟨-4, 16, 2⟩

/-- Zeros. -/
def zeros (n : Int) : Text := Text.times "0" n

/-- Digits in positional notation; the point stands before digit number `point`. A whole number
ends in `.0`. -/
def positional (digits : Text) (point : Int) : Text :=
  if point ≤ 0 then "0." ++ zeros (-point) ++ digits
  else if digits.length ≤ point then digits ++ zeros (point - digits.length) ++ ".0"
  else digits.take point.toNat ++ "." ++ digits.drop point.toNat

/-- Digits in scientific notation with an order of magnitude. -/
def scientific (style : DecimalStyle) (digits : Text) (order : Int) : Text :=
  let mantissa := match digits with
    | [] => []
    | [d] => [d]
    | d :: rest => d :: CodePoint.ofChar '.' :: rest
  let n := Text.ofNat order.natAbs
  mantissa ++ "e" ++ (if order < 0 then "-" else "+")
    ++ zeros (style.exponentWidth - n.length) ++ n

/-- A positive decimal in this style. -/
def render (style : DecimalStyle) (d : Decimal) : Text :=
  let digits := Text.ofNat d.digits
  let order : Int := digits.length + d.exponent - 1
  if style.leastPositional ≤ order ∧ order < style.firstScientific then
    positional digits (order + 1)
  else style.scientific digits order

end DecimalStyle

/-- The text of a number: the shortest decimal that reads back, or `nan`, `inf`, `-inf`. -/
def Binary64.toText : Binary64 → Text
  | .nan _ => "nan"
  | .infinite s => if s then "-inf" else "inf"
  | .finite s m e =>
    let magnitude : Text :=
      if m = 0 then "0.0" else DecimalStyle.standard.render (Shortest.digits binary64 m e)
    if s then "-" ++ magnitude else magnitude

end TypedSexp
