import TypedSexp.Text.Printable
import TypedSexp.Text.Utf8
/-!
# Literals

How messages quote a text or bytes. The quote is single unless the content has a single quote and
no double one. The backslash and the quote are escaped by a backslash, tab, line feed and carriage
return by a letter, and what is not printable by its number in hexadecimal.
-/

namespace TypedSexp.Literal

/-- A number in lower-case hexadecimal, filled up with zeros to a width. -/
def hex (width n : Nat) : Text :=
  let digits : Text := (Nat.toDigits 16 n).map CodePoint.ofChar
  List.replicate (width - digits.length) ('0' : CodePoint) ++ digits

/-- The quote for a content. -/
def quoteFor (content : Text) : CodePoint :=
  if content.contains (CodePoint.ofChar '\'') && !content.contains (CodePoint.ofChar '"') then '"'
  else '\''

/-- A code point by its number: two, four or eight digits. -/
def byNumber (c : CodePoint) : Text :=
  if c.val < 0x100 then "\\x" ++ hex 2 c.val
  else if c.val < 0x10000 then "\\u" ++ hex 4 c.val
  else "\\U" ++ hex 8 c.val

/-- A code point inside a literal; `plain` says what stands for itself. -/
def escape (plain : CodePoint → Bool) (quote c : CodePoint) : Text :=
  if c = quote ∨ c = '\\' then ['\\', c]
  else if c = '\t' then "\\t"
  else if c = '\n' then "\\n"
  else if c = '\r' then "\\r"
  else if plain c then [c]
  else byNumber c

/-- The literal of a text. -/
def ofText (t : Text) : Text :=
  let quote := quoteFor t
  [quote] ++ t.flatMap (escape CodePoint.isPrintable quote) ++ [quote]

/-- The code point with the number of a byte. -/
def byteCode (b : UInt8) : CodePoint :=
  ⟨b.toNat, by have := b.toNat_lt; omega⟩

/-- The literal of bytes: only ASCII stands for itself. -/
def ofBytes (bytes : Utf8.Bytes) : Text :=
  let content := bytes.map byteCode
  let quote := quoteFor content
  "b" ++ [quote] ++
    content.flatMap (escape (fun c => 0x20 ≤ c.val && c.val < 0x7F) quote) ++ [quote]

end TypedSexp.Literal
