import TypedSexp.Number.Spelling
import TypedSexp.Sexp.Printer
import TypedSexp.Text.Literal
import TypedSexp.Value.ArrayText
/-!
# Literals of values

How messages and generic forms show a value: `Value.literal` spells it out, and `Value.display`
shows a text as it is. A value that holds something foreign, or an integer with too many digits, has
no literal.
-/

namespace TypedSexp.Value

/-- Items in brackets. -/
def enclosed (opening : Text) (items : List Text) (closing : Text) : Text :=
  opening ++ Text.join ", " items ++ closing

/-- Items of a tuple; a single item is followed by a comma. -/
def enclosedTuple : List Text → Text
  | [item] => "(" ++ item ++ ",)"
  | items => enclosed "(" items ")"

mutual

/-- The literal of an S-expression. -/
def sexpLiteral : Sexp → Text
  | .atom t => "Atom(text=" ++ Literal.ofText t ++ ")"
  | .list items => "SexpList(items=" ++ enclosedTuple (sexpLiterals items) ++ ")"

/-- The literals of several S-expressions. -/
def sexpLiterals : List Sexp → List Text
  | [] => []
  | x :: xs => sexpLiteral x :: sexpLiterals xs

end

/-- The literal of a condition. -/
def boolLiteral (b : Bool) : Text := if b then "True" else "False"

/-! ## Numbers of arrays -/

/-- The text of a float of single precision by itself: scientific from a million on, and below a
ten-thousandth. -/
def singleText (x : Binary64) : Text :=
  match Column.interval? .single x with
  | Option.none => x.toText
  | some i =>
    let style : DecimalStyle := if 10000 * i.value < i.den then ⟨0, 0, 2⟩ else ⟨-4, 6, 2⟩
    Column.sign x ++ style.render (Shortest.Decimal.trim 20 i.shortest)

/-- A number or condition by itself; nothing else is an element of an array of numbers. -/
def scalarText (e : ElementType) : Value → Text
  | .bool b => boolLiteral b
  | .int n => Text.ofInt n
  | .float x => if e = .single then singleText x else x.toText
  | _ => []

/-- How a single element of an array of numbers shows itself. -/
def cellLiteral (e : ElementType) (v : Value) : Text :=
  match e with
  | .boolean => "np." ++ scalarText e v ++ "_"
  | _ => "np." ++ e.name ++ "(" ++ scalarText e v ++ ")"

/-- The float that an element is. -/
def elementFloat : Value → Binary64
  | .float x => x
  | _ => .zero

/-- The elements of an array of numbers, filled up to one width; the ends of all dimensions decide
how wide it is. -/
def scalarTexts (e : ElementType) (shape : Shape) (items : List Value) : List Text :=
  let visible := if ArrayLayout.maxItems < shape.size then Shape.corners shape items else items
  let floats (c : ColumnFormat) : List Text :=
    let column := Column.ofNumbers c (visible.map elementFloat)
    items.map fun v => column.write (elementFloat v)
  match e with
  | .single => floats .single
  | .double => floats .double
  | _ =>
    let width := if e = .boolean then if shape.isEmpty then 4 else 5
      else Column.widest (visible.map fun v => (scalarText e v).length)
    items.map fun v => Text.padLeft width (scalarText e v)

/-- The shape and the element type, where the items do not tell them. -/
def remarks (e : ElementType) (shape : Shape) : List Text :=
  let isEmpty := shape.size == 0
  (if (isEmpty && shape != [0]) || ArrayLayout.maxItems < shape.size then
      ["shape=" ++ Shape.text shape] else [])
    ++ (if !isEmpty && (e == .int64 || e == .double || e == .boolean) then []
      else ["dtype=" ++ e.name])

/-- An array with its remarks, which start a line of their own, under the bracket of the items, if
they would pass the end of the last one. -/
def withRemarks (items : Text) (remarks : List Text) : Text :=
  if remarks.isEmpty then ArrayLayout.opening ++ items ++ ")"
  else
    let start : Text := ArrayLayout.opening ++ items ++ ","
    let rest := Text.join ", " remarks ++ ")"
    let last := (Text.lines start).getLastD []
    if ArrayLayout.lineWidth < last.length + rest.length + 1 then
      start ++ "\n" ++ ArrayLayout.margin ArrayLayout.opening.length ++ rest
    else start ++ " " ++ rest

/-! ## All values -/

mutual

/-- The literal of a value. -/
def literal : Value → Except ValueFault Text
  | .none => .ok "None"
  | .bool b => .ok (boolLiteral b)
  | .int n =>
    match Spelling.writeInt? n with
    | some t => .ok t
    | Option.none => .error .tooManyDigits
  | .float x => .ok x.toText
  | .text t => .ok (Literal.ofText t)
  | .bytes b => .ok (Literal.ofBytes b)
  | .sexp s => .ok (sexpLiteral s)
  | .list items => do .ok (enclosed "[" (← literals items) "]")
  | .tuple items => do .ok (enclosedTuple (← literals items))
  | .record entries => do
    let texts ← entryLiterals (fun name => Literal.ofText name ++ ": ") entries
    .ok (enclosed "\x7b" texts "\x7d")
  | .object className fields => do
    let texts ← entryLiterals (fun name => name ++ "=") fields
    .ok (className ++ enclosed "(" texts ")")
  | .variant tag args => do
    let texts ← literals args
    .ok (if texts.isEmpty then tag else tag ++ enclosed "(" texts ")")
  | .array e shape items => do
    let words := if e = .any then itemLiterals items else (scalarTexts e shape items).map .ok
    .ok (withRemarks (← ArrayLayout.literal.render shape words) (remarks e shape))
  | .cell e v => .ok (cellLiteral e v)
  | .foreign _ => .error .noLiteral

/-- The literals of several values. -/
def literals : List Value → Except ValueFault (List Text)
  | [] => .ok []
  | v :: vs => do
    let t ← literal v
    .ok (t :: (← literals vs))

/-- The literals of the items of an array; lists are marked, since they are no dimensions. -/
def itemLiterals : List Value → List (Except ValueFault Text)
  | [] => []
  | .list items :: vs =>
    (do .ok (enclosed "list([" (← literals items) "])")) :: itemLiterals vs
  | v :: vs => literal v :: itemLiterals vs

/-- The literals of named values, each with its name before it. -/
def entryLiterals (label : Text → Text) : List (Text × Value) → Except ValueFault (List Text)
  | [] => .ok []
  | (name, v) :: vs => do
    let t ← literal v
    .ok ((label name ++ t) :: (← entryLiterals label vs))

end

mutual

/-- The value is an integer with too many digits, or the first thing without a literal in plain
sequences and records is one. -/
def isUnspellable : Value → Bool
  | .int n => (Spelling.writeInt? n).isNone
  | .list items => areUnspellable items
  | .tuple items => areUnspellable items
  | .record entries => entriesUnspellable entries
  | _ => false

/-- The first of several values without a literal is unspellable. -/
def areUnspellable : List Value → Bool
  | [] => false
  | v :: vs => if (literal v).isOk then areUnspellable vs else isUnspellable v

/-- The first of several named values without a literal is unspellable. -/
def entriesUnspellable : List (Text × Value) → Bool
  | [] => false
  | (_, v) :: vs => if (literal v).isOk then entriesUnspellable vs else isUnspellable v

end

/-- A text as it is, and any other value as its literal; an array without the word for it, and a
single element as itself. -/
def display : Value → Except ValueFault Text
  | .text t => .ok t
  | .sexp s => .ok s.print
  | .cell e v => .ok (scalarText e v)
  | .array .any [] [v] => display v
  | .array e [] [v] => .ok (scalarText e v)
  | .array e shape items =>
    let words := if e = .any then itemLiterals items else (scalarTexts e shape items).map .ok
    ArrayLayout.plain.render shape words
  | v => literal v

end TypedSexp.Value
