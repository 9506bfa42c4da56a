import TypedSexp.Value.Fault
/-!
# Equality of values

`Value.same` decides whether two values are equal. Numbers of different kinds are equal if they are
the same number, and what is not a number equals nothing. Two arrays are equal if their shapes are
and all their elements; an array is never equal to what is no array.

Inside other values an array is compared element by element with what stands on the other side, and
that has an answer only if one element meets one element. A plain number then takes the element type
of the array; numbers in a sequence have element types of their own, so a sequence may differ from an
array where its number alone would not.

The items of a sequence, record, instance or variant are also equal if they are the same occurrence
of what is not a number.
-/

namespace TypedSexp

/-- The number behind a value. -/
inductive Numeral where
  | int (n : Int)
  | float (x : Binary64)
deriving DecidableEq, Repr

namespace Numeral

/-- The same number. -/
def eq : Numeral → Numeral → Bool
  | .int m, .int n => m == n
  | .int m, .float y => y.eqInt m
  | .float x, .int n => x.eqInt n
  | .float x, .float y => x.numEq y

/-- The nearest float; an integer beyond all floats has none. -/
def toFloat? : Numeral → Option Binary64
  | .int n => Binary64.ofInt? n
  | .float x => some x

/-- Equal as floats, the second after `fit`. An integer beyond all floats cannot be compared so. -/
def eqFloat (fit : Binary64 → Binary64) (x y : Numeral) : Except ValueFault Bool :=
  match x.toFloat?, y.toFloat? with
  | some x, some y => .ok (x.numEq (fit y))
  | _, _ => .error .integerTooLarge

end Numeral

namespace ElementType

/-- The elements are floats. -/
def isFloat : ElementType → Bool
  | .single => true
  | .double => true
  | _ => false

/-- An integer type holds the integer. -/
def holds (signed : Bool) (width : Width) (n : Int) : Bool :=
  least signed width ≤ n && n ≤ greatest signed width

/-- The element type of an integer in a sequence. -/
def ofInt (n : Int) : ElementType :=
  if holds true .w64 n then .integer true .w64
  else if holds false .w64 n then .integer false .w64
  else .any

end ElementType

namespace Value

/-- The number that a value is; true and false are one and zero. -/
def numeral? : Value → Option Numeral
  | .bool b => some (.int (if b then 1 else 0))
  | .int n => some (.int n)
  | .float x => some (.float x)
  | .cell _ v => numeral? v
  | _ => Option.none

/-- Compares numbers of two element types; integers are compared with floats as floats. -/
def eqTyped (e f : ElementType) (x y : Numeral) : Except ValueFault Bool :=
  if e.isFloat == f.isFloat then .ok (x.eq y) else x.eqFloat id y

/-- Compares a number from an array with a plain one, which takes the element type of the array. -/
def eqPlain (e : ElementType) (x y : Numeral) : Except ValueFault Bool :=
  match e, y with
  | .single, _ => x.eqFloat Binary64.toSingle y
  | .double, _ => x.eqFloat id y
  | .boolean, .int n =>
    if ElementType.holds true .w64 n then .ok (x.eq y) else .error .beyondWord
  | _, .int _ => .ok (x.eq y)
  | _, .float _ => x.eqFloat id y

/-! ## What an array is compared with -/

/-- The text without the null code points at its end. -/
def dropNulls (t : Text) : Text := (t.reverse.dropWhile fun c => c.val == 0).reverse

/-- The bytes without the null bytes at their end. -/
def dropNullBytes (b : Utf8.Bytes) : Utf8.Bytes := (b.reverse.dropWhile (· == 0)).reverse

/-- What an array sees of a value: the lengths that agree everywhere in it, from outside, and whether
that is all there is. -/
structure Outline where
  shape : Shape
  isRagged : Bool
deriving DecidableEq, Repr

namespace Outline

/-- The lengths at the start of two shapes that agree. -/
def commonStart : Shape → Shape → Shape
  | m :: s, n :: t => if m = n then m :: commonStart s t else []
  | _, _ => []

/-- The outline of a sequence of things with outlines. -/
def stack : List Outline → Outline
  | [] => ⟨[0], false⟩
  | o :: os =>
    ⟨(os.length + 1) :: os.foldl (fun s p => commonStart s p.shape) o.shape,
      o.isRagged || os.any fun p => p.isRagged || p.shape != o.shape⟩

end Outline

mutual

/-- The outline of an S-expression: lists are dimensions. -/
def sexpOutline : Sexp → Outline
  | .atom _ => ⟨[], false⟩
  | .list items => .stack (sexpOutlines items)

/-- The outlines of several S-expressions. -/
def sexpOutlines : List Sexp → List Outline
  | [] => []
  | x :: xs => sexpOutline x :: sexpOutlines xs

end

mutual

/-- The outline of a value: sequences are dimensions. -/
def outline : Value → Outline
  | .list items => .stack (outlines items)
  | .tuple items => .stack (outlines items)
  | .sexp s => sexpOutline s
  | .array _ shape _ => ⟨shape, false⟩
  | _ => ⟨[], false⟩

/-- The outlines of several values. -/
def outlines : List Value → List Outline
  | [] => []
  | v :: vs => outline v :: outlines vs

end

/-- Why a comparison element by element has no one answer. -/
def unclear (a b : Value) : ValueFault :=
  let (s, t) := (outline a, outline b)
  if s.isRagged then .ragged s.shape
  else if t.isRagged then .ragged t.shape
  else
    match Shape.stretch? s.shape t.shape with
    | some u => if u.size = 0 then .emptyTruth else .ambiguousTruth
    | Option.none => .unlikeShapes s.shape t.shape

/-- The one leaf of an S-expression of nested lists of one. -/
def sexpLeaf? : Sexp → Option Sexp
  | .atom t => some (.atom t)
  | .list [x] => sexpLeaf? x
  | .list _ => Option.none

/-- The element type of a value in a sequence. -/
def elementType : Value → ElementType
  | .bool _ => .boolean
  | .int n => .ofInt n
  | .float _ => .double
  | .cell e _ => e
  | _ => .any

/-- The one element of nested sequences of one, with its element type. -/
def leaf? : Value → Option (ElementType × Value)
  | .list [x] => leaf? x
  | .list _ => Option.none
  | .tuple [x] => leaf? x
  | .tuple _ => Option.none
  | .sexp s => (sexpLeaf? s).map fun x => (.any, .sexp x)
  | .array e _ [x] => some (e, x)
  | .array .. => Option.none
  | .text t => some (.any, .text (dropNulls t))
  | .bytes b => some (.any, .bytes (dropNullBytes b))
  | v => some (elementType v, v)

/-- The value is a number that takes the element type of an array. -/
def isPlainNumber : Value → Bool
  | .int _ => true
  | .float _ => true
  | _ => false

/-- What the one item of an array meets: a value that it must equal as a value, or numbers that are
compared by their element types. -/
inductive Meeting where
  | values (y : Value)
  | numbers (answer : Except ValueFault Bool)

/-- The answer for two numbers, by a comparison of numerals. -/
def onNumerals (compare : Numeral → Numeral → Except ValueFault Bool) (x y : Value) : Meeting :=
  match x.numeral?, y.numeral? with
  | some m, some n => .numbers (compare m n)
  | _, _ => .numbers (.ok false)

/-- What the one item of an array meets in a value, unless there are several items. -/
def meeting (e : ElementType) (x b : Value) : Option Meeting :=
  if isPlainNumber b then
    some (if e = .any then .values b else onNumerals (eqPlain e) x b)
  else
    (leaf? b).map fun (f, y) =>
      if e = .any ∨ f = .any then .values y else onNumerals (eqTyped e f) x y

/-- Why an array that has not one item is not compared. A plain number must fit its element type
before anything is compared. -/
def crowd (e : ElementType) (a b : Value) : ValueFault :=
  match e, b with
  | .any, _ => unclear a b
  | _, .int n =>
    match eqPlain e (.int 0) (.int n) with
    | .error fault => fault
    | .ok _ => unclear a b
  | _, _ => unclear a b

/-- Compares a number with a value; any other value is different. A number that stands in a sequence
has an element type of its own. -/
def eqNumber (inSequence : Bool) (x : Value) (m : Numeral) : Value → Except ValueFault Bool
  | .array f _ [y] =>
    if f = .any ∨ (inSequence ∧ elementType x = .any) then eqNumber false x m y
    else
      match y.numeral? with
      | some n => if inSequence then eqTyped f (elementType x) n m else eqPlain f n m
      | Option.none => .ok false
  | .array f s ys => .error (crowd f (.array f s ys) x)
  | .cell f y =>
    match y.numeral? with
    | some n => if inSequence then eqTyped f (elementType x) n m else eqPlain f n m
    | Option.none => .ok false
  | v => .ok (v.numeral?.any m.eq)

/-- The value in arrays of one item, or the value itself. -/
def content? : Value → Option Value
  | .array _ _ [x] => content? x
  | .array .. => Option.none
  | v => some v

/-- The value in arrays of one item, for a value that is compared with it. -/
def content (a b : Value) : Except ValueFault Value :=
  match content? b with
  | some v => .ok v
  | Option.none => .error (unclear a b)

/-- The value is an array. -/
def isArray : Value → Bool
  | .array .. => true
  | _ => false

/-- The value is an array, or a single element of one. -/
def isElementwise : Value → Bool
  | .array .. => true
  | .cell .. => true
  | _ => false

/-- Compares a text with a value. -/
def eqText (s : Text) (b : Value) : Except ValueFault Bool := do
  match ← content (.text s) b with
  | .text t => .ok ((if b.isArray then dropNulls s else s) == t)
  | _ => .ok false

/-- Compares bytes with a value. -/
def eqBytes (s : Utf8.Bytes) (b : Value) : Except ValueFault Bool := do
  match ← content (.bytes s) b with
  | .bytes t => .ok ((if b.isArray then dropNullBytes s else s) == t)
  | _ => .ok false

/-- Compares an S-expression with a value. For an array, a list is a sequence of its items. -/
def eqSexp (s : Sexp) (b : Value) : Except ValueFault Bool :=
  if b.isElementwise then
    match sexpLeaf? s with
    | some leaf => do
      match ← content (.sexp s) b with
      | .sexp t => .ok (leaf == t)
      | _ => .ok false
    | Option.none => .error (unclear (.sexp s) b)
  else
    match b with
    | .sexp t => .ok (s == t)
    | _ => .ok false

/-- The same occurrence of what is not a number. -/
def isSameNan : Value → Value → Bool
  | .float x, .float y => x.isSameNan y
  | _, _ => false

/-! ## Comparison -/

mutual

/-- Equality inside values; `inSequence` says that the first value stands in a sequence that is
compared with an array. -/
def eqWith (inSequence : Bool) : Value → Value → Except ValueFault Bool
  | .array e s [x], b =>
    match meeting e x b with
    | some (.values y) => eqWith false x y
    | some (.numbers answer) => answer
    | Option.none => .error (unclear (.array e s [x]) b)
  | .array e s xs, b => .error (crowd e (.array e s xs) b)
  | .cell e x, b =>
    match meeting e x b with
    | some (.values y) => eqWith false x y
    | some (.numbers answer) => answer
    | Option.none => .error (unclear x b)
  | .list [x], b =>
    if b.isElementwise then eqWith true x b
    else
      match b with
      | .list ys => if ys.length = 1 then eqAll [x] ys else .ok false
      | _ => .ok false
  | .list xs, b =>
    if b.isElementwise then .error (unclear (.list xs) b)
    else
      match b with
      | .list ys => if xs.length = ys.length then eqAll xs ys else .ok false
      | _ => .ok false
  | .tuple [x], b =>
    if b.isElementwise then eqWith true x b
    else
      match b with
      | .tuple ys => eqAll [x] ys
      | _ => .ok false
  | .tuple xs, b =>
    if b.isElementwise then .error (unclear (.tuple xs) b)
    else
      match b with
      | .tuple ys => eqAll xs ys
      | _ => .ok false
  | .record xs, b => do
    match ← content .none b with
    | .record ys => if xs.length = ys.length then eqEntries xs ys else .ok false
    | _ => .ok false
  | .object c xs, b => do
    match ← content .none b with
    | .object d ys => if c = d then eqFields xs ys else .ok false
    | _ => .ok false
  | .variant s xs, b => do
    match ← content .none b with
    | .variant t ys => if s = t then eqAll xs ys else .ok false
    | _ => .ok false
  | .bool x, b => eqNumber true (.bool x) (.int (if x then 1 else 0)) b
  | .int n, b => eqNumber inSequence (.int n) (.int n) b
  | .float x, b => eqNumber inSequence (.float x) (.float x) b
  | .none, b => do
    match ← content .none b with
    | .none => .ok true
    | _ => .ok false
  | .text s, b => eqText s b
  | .bytes s, b => eqBytes s b
  | .sexp s, b => eqSexp s b
  | .foreign _, b => do
    let _ ← content .none b
    .ok false

/-- Compares values in order up to the first difference; then the numbers of values must agree. -/
def eqAll : List Value → List Value → Except ValueFault Bool
  | [], ys => .ok ys.isEmpty
  | _ :: _, [] => .ok false
  | x :: xs, y :: ys => do
    if ← (if isSameNan x y then .ok true else eqWith false x y) then eqAll xs ys else .ok false

/-- Each entry is in the other entries under its name. -/
def eqEntries : List (Text × Value) → List (Text × Value) → Except ValueFault Bool
  | [], _ => .ok true
  | (name, x) :: xs, ys =>
    match ys.lookup name with
    | some y => do
      if ← (if isSameNan x y then .ok true else eqWith false x y) then eqEntries xs ys
      else .ok false
    | Option.none => .ok false

/-- The fields of two instances of one class, in order. -/
def eqFields : List (Text × Value) → List (Text × Value) → Except ValueFault Bool
  | [], ys => .ok ys.isEmpty
  | _ :: _, [] => .ok false
  | (_, x) :: xs, (_, y) :: ys => do
    if ← (if isSameNan x y then .ok true else eqWith false x y) then eqFields xs ys else .ok false

end

/-- Equality inside values. -/
def eq (a b : Value) : Except ValueFault Bool := eqWith false a b

/-- Compares the elements of two arrays of one shape; every pair is looked at. -/
def sameElements (e f : ElementType) : List Value → List Value → Except ValueFault Bool
  | x :: xs, y :: ys => do
    let here ←
      if e = .any ∨ f = .any then eq x y
      else
        match onNumerals (eqTyped e f) x y with
        | .numbers answer => answer
        | .values _ => pure false
    let rest ← sameElements e f xs ys
    .ok (here && rest)
  | _, _ => .ok true

/-- Two values are equal. -/
def same : Value → Value → Except ValueFault Bool
  | .array e s xs, .array f t ys => if s = t then sameElements e f xs ys else .ok false
  | .array .., _ => .ok false
  | _, .array .. => .ok false
  | a, b => eq a b

end Value

end TypedSexp
