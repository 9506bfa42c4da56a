import TypedSexp.Number.Decimal
/-!
# Columns of floats

Floats that stand together are written alike: all positional with their points below each other, or
all scientific with the same number of digits. At most eight digits follow the point. A column is
scientific if its magnitudes are large, or small, or far apart (`Column.needsScientific`).
-/

namespace TypedSexp

/-- What the floats of a column are: their format, and the order of magnitude from which on a column
is scientific. -/
structure ColumnFormat where
  format : Format
  firstScientific : Nat
deriving Repr

namespace ColumnFormat

/-- Columns of double precision. -/
def double : ColumnFormat := ⟨binary64, 8⟩

/-- Columns of single precision. -/
def single : ColumnFormat := ⟨binary32, 6⟩

/-- The most digits behind the point. -/
def maxDecimals : Nat := 8

end ColumnFormat

namespace Column

/-! ## Positional or scientific -/

/-- A fraction is less than another. -/
def isLess (a b : Nat × Nat) : Bool := a.1 * b.2 < b.1 * a.2

/-- The magnitude of a finite number other than zero. -/
def magnitude? : Binary64 → Option (Nat × Nat)
  | .finite _ m e => if m = 0 then none else some (Binary64.fraction m e)
  | _ => none

/-- A number without sign is greater than a fraction. -/
def exceeds (x : Binary64) (bound : Nat × Nat) : Bool :=
  match x with
  | .finite _ m e => isLess bound (Binary64.fraction m e)
  | .infinite _ => true
  | .nan _ => false

/-- The numbers of a column need scientific notation: the greatest magnitude has the order of
magnitude from which on it is used, the least one is below a ten-thousandth, or the one is more than
a thousand times the other. Quotients are rounded to the format. -/
def needsScientific (c : ColumnFormat) (xs : List Binary64) : Bool :=
  match xs.filterMap magnitude? with
  | [] => false
  | m :: ms =>
    let high := ms.foldl (fun a b => if isLess a b then b else a) m
    let low := ms.foldl (fun a b => if isLess b a then b else a) m
    !isLess high (Nat.pow 10 c.firstScientific, 1)
      || exceeds (c.format.round false 1 10000) low
      || exceeds (c.format.round false (high.1 * low.2) (high.2 * low.1)) (1000, 1)

/-! ## Digits -/

/-- The reals that round to a number of the format; zero has none. -/
def interval? (c : ColumnFormat) (x : Binary64) : Option Shortest.Interval := do
  let (num, den) ← magnitude? x
  match c.format.round false num den with
  | .finite _ m e => some (Shortest.interval c.format m e)
  | _ => none

/-- The sign in front of a number. -/
def sign : Binary64 → Text
  | .finite true _ _ => "-"
  | _ => []

/-- Digits without the zeros at their end. -/
def trimZeros (t : Text) : Text :=
  (t.reverse.dropWhile (· == CodePoint.ofChar '0')).reverse

/-- What stands before and behind the point in positional notation. -/
def positional (c : ColumnFormat) (x : Binary64) : Text × Text :=
  match interval? c x with
  | none => (sign x ++ "0", [])
  | some i =>
    let k := max (-(ColumnFormat.maxDecimals : Int)) (min i.shortest.exponent 0)
    let d := i.rounded k
    let places := (-k).toNat
    let decimals := Text.ofNat (d % Nat.pow 10 places)
    (sign x ++ Text.ofNat (d / Nat.pow 10 places),
      trimZeros (Text.times "0" (places - decimals.length : Nat) ++ decimals))

/-- What stands before and behind the point in scientific notation, and the exponent; at least
`least` and at most `most` digits stand behind the point. -/
def scientific (c : ColumnFormat) (least most : Nat) (x : Binary64) : Text × Text × Int :=
  match interval? c x with
  | none => (sign x ++ "0", Text.times "0" least, 0)
  | some i =>
    let order := Shortest.order i.value i.den
    let k := max (order - most) (min i.shortest.exponent (order - least))
    let digits := Text.ofNat (i.rounded k)
    let decimals := trimZeros (digits.drop 1)
    (sign x ++ digits.take 1, decimals ++ Text.times "0" (least - decimals.length : Nat),
      digits.length - 1 + k)

end Column

/-! ## Columns -/

/-- How the floats of a column are written: the widths before and behind the point, in scientific
notation also the number of decimals and the width of the exponent. -/
structure Column where
  format : ColumnFormat
  isScientific : Bool
  left : Nat
  right : Nat
  decimals : Nat
  exponentWidth : Nat
deriving Repr

namespace Column

/-- The greatest number of a list. -/
def widest (ns : List Nat) : Nat := ns.foldl max 0

/-- The finite number is one. -/
def isFinite : Binary64 → Bool
  | .finite .. => true
  | _ => false

/-- The column of finite numbers. -/
def ofFinite (c : ColumnFormat) (xs : List Binary64) : Column :=
  if needsScientific c xs then
    let parts := xs.map (scientific c 0 ColumnFormat.maxDecimals)
    let decimals := widest (parts.map fun p => p.2.1.length)
    let exponentWidth := max 2 (widest (parts.map fun p => (Text.ofNat p.2.2.natAbs).length))
    ⟨c, true, widest (parts.map fun p => p.1.length), exponentWidth + 2 + decimals, decimals,
      exponentWidth⟩
  else
    let parts := xs.map (positional c)
    ⟨c, false, widest (parts.map fun p => p.1.length), widest (parts.map fun p => p.2.length), 0, 0⟩

/-- The words for what is not finite. -/
def word : Binary64 → Text
  | .nan _ => "nan"
  | .infinite true => "-inf"
  | _ => "inf"

/-- The column of numbers. What is not finite takes the whole width, and widens it if need be. -/
def ofNumbers (c : ColumnFormat) (xs : List Binary64) : Column :=
  let column := ofFinite c (xs.filter isFinite)
  let words := (xs.filter fun x => !isFinite x).map fun x => (word x).length
  { column with left := max column.left (widest words - (column.right + 1)) }

/-- A number in its column. -/
def write (column : Column) (x : Binary64) : Text :=
  if !isFinite x then Text.padLeft (column.left + column.right + 1) (word x)
  else if column.isScientific then
    let (whole, decimals, exponent) := scientific column.format column.decimals column.decimals x
    let n := Text.ofNat exponent.natAbs
    Text.padLeft column.left whole ++ "." ++ decimals ++ "e" ++ (if exponent < 0 then "-" else "+")
      ++ Text.times "0" (column.exponentWidth - n.length : Nat) ++ n
  else
    let (whole, decimals) := positional column.format x
    Text.padLeft column.left whole ++ "." ++ Text.padRight column.right decimals

end Column

end TypedSexp
