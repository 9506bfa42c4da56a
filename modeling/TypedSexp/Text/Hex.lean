import TypedSexp.Number.Digit
import TypedSexp.Text.Literal
/-!
# Bytes in hexadecimal

A byte is written as two digits. Reading takes digits of either case in pairs; a single digit at the
end stands for nothing.
-/

namespace TypedSexp.Hex

/-- Bytes as digits. -/
def write (bytes : Utf8.Bytes) : Text := bytes.flatMap fun b => Literal.hex 2 b.toNat

/-- The bytes of digits. -/
def read : Text → Utf8.Bytes
  | high :: low :: rest => UInt8.ofNat (Digit.positional 16 [high, low]) :: read rest
  | _ => []

end TypedSexp.Hex
