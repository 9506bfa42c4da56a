/-!
# Text as code points

A text is a list of code points, and a code point is any number below `0x110000`. Lone surrogates
are code points too, because an escape in a quoted atom may name one; this is why a text is not a
`String`. Every `Char` is a code point (`CodePoint.ofChar`), and a `String` stands for the text of
its characters.
-/

namespace TypedSexp

/-- A code point: a number below `0x110000`, surrogates included. -/
structure CodePoint where
  val : Nat
  isLt : val < 0x110000
deriving DecidableEq, Repr

namespace CodePoint

/-- The code point of a character. -/
def ofChar (c : Char) : CodePoint :=
  ⟨c.toNat, by
    rcases c.valid with h | ⟨_, h⟩ <;> (show c.val.toNat < _) <;> omega⟩

instance : Coe Char CodePoint := ⟨ofChar⟩
instance : Inhabited CodePoint := ⟨ofChar ' '⟩

/-- The code point with a number, if there is one. -/
def ofNat? (n : Nat) : Option CodePoint :=
  if h : n < 0x110000 then some ⟨n, h⟩ else none

/-- Surrogates have no UTF-8 form and are no characters. -/
def isSurrogate (c : CodePoint) : Bool := 0xD800 ≤ c.val && c.val < 0xE000

/-- The code point that two surrogates stand for together: a high one and a low one, in this
order. -/
def ofSurrogates? (high low : CodePoint) : Option CodePoint :=
  if h : (0xD800 ≤ high.val ∧ high.val < 0xDC00) ∧ 0xDC00 ≤ low.val ∧ low.val < 0xE000 then
    some ⟨0x10000 + (high.val - 0xD800) * 0x400 + (low.val - 0xDC00), by omega⟩
  else none

/-- The character of a code point; a surrogate has none. -/
def toChar? (c : CodePoint) : Option Char :=
  if c.isSurrogate then none else some (Char.ofNat c.val)

@[simp] theorem val_ofChar (c : Char) : (ofChar c).val = c.toNat := rfl

end CodePoint

/-- A text: code points in order. -/
abbrev Text := List CodePoint

instance : Coe String Text := ⟨fun s => s.toList.map CodePoint.ofChar⟩

namespace Text

/-- The text of a string. -/
def ofString (s : String) : Text := s

/-- The string of a text, a surrogate shown as the replacement character. -/
def display (t : Text) : String :=
  String.ofList (t.map fun c => c.toChar?.getD '\uFFFD')

/-- The decimal text of a natural number. -/
def ofNat (n : Nat) : Text := n.repr

/-- The decimal text of an integer, with a minus sign if it is negative. -/
def ofInt : Int → Text
  | .ofNat n => ofNat n
  | .negSucc n => "-" ++ ofNat (n + 1)

/-- The texts in order with a separator between two of them. -/
def join (separator : Text) : List Text → Text
  | [] => []
  | [t] => t
  | t :: rest => t ++ separator ++ join separator rest

/-- The text repeated; a negative count gives the empty text. -/
def times (t : Text) (n : Int) : Text := (List.replicate n.toNat t).flatten

/-- The text filled up with blanks on the left. -/
def padLeft (width : Nat) (t : Text) : Text := times " " (width - t.length : Nat) ++ t

/-- The text filled up with blanks on the right. -/
def padRight (width : Nat) (t : Text) : Text := t ++ times " " (width - t.length : Nat)

/-- The pieces between line feeds: one more than there are line feeds. -/
def lines : Text → List Text
  | [] => [[]]
  | c :: rest =>
    if c = '\n' then [] :: lines rest
    else
      match lines rest with
      | [] => [[c]]
      | line :: more => (c :: line) :: more

/-- Replaces one text in another, from left to right; `skip` code points are dropped first. -/
def replaceFrom (old new : Text) : Nat → Text → Text
  | _, [] => []
  | skip + 1, _ :: rest => replaceFrom old new skip rest
  | 0, c :: rest =>
    if old.isPrefixOf (c :: rest) then new ++ replaceFrom old new (old.length - 1) rest
    else c :: replaceFrom old new 0 rest

/-- Replaces every occurrence of one text, which has code points, by another. -/
def replace (old new t : Text) : Text := replaceFrom old new 0 t

/-- Reads as the same word if the case of ASCII letters is left aside. -/
def asciiLower (t : Text) : Text :=
  t.map fun c => if h : 65 ≤ c.val ∧ c.val ≤ 90 then ⟨c.val + 32, by omega⟩ else c

end Text

end TypedSexp
