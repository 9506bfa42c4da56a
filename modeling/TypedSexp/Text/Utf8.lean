import TypedSexp.Text.Basic
/-!
# UTF-8

Encoding gives every code point that is not a surrogate one to four bytes. Decoding reads a first
byte, which fixes the ranges that its continuation bytes must lie in, and then those bytes one by
one; a fault names the bytes from the first byte of the broken character up to the offending one.
-/

namespace TypedSexp.Utf8

/-- A sequence of bytes. -/
abbrev Bytes := List UInt8

/-- How many bytes a code point takes. -/
def width (c : CodePoint) : Nat :=
  if c.val < 0x80 then 1 else if c.val < 0x800 then 2 else if c.val < 0x10000 then 3 else 4

/-- How many bytes a text takes. -/
def size (t : Text) : Nat := t.foldr (fun c n => width c + n) 0

/-- A continuation byte that carries six bits. -/
def continuation (n : Nat) : UInt8 := UInt8.ofNat (0x80 + n % 64)

/-- The bytes of a code point. -/
def encodeOne (c : CodePoint) : Bytes :=
  let n := c.val
  if n < 0x80 then [UInt8.ofNat n]
  else if n < 0x800 then [UInt8.ofNat (0xC0 + n / 64), continuation n]
  else if n < 0x10000 then
    [UInt8.ofNat (0xE0 + n / 4096), continuation (n / 64), continuation n]
  else
    [UInt8.ofNat (0xF0 + n / 262144), continuation (n / 4096), continuation (n / 64),
      continuation n]

/-- The bytes of a text; a text with a surrogate has none. -/
def encode? (t : Text) : Option Bytes :=
  if t.any CodePoint.isSurrogate then none else some (t.flatMap encodeOne)

/-- Why bytes are not UTF-8. -/
inductive Reason where
  | invalidStart
  | invalidContinuation
  | unexpectedEnd
deriving DecidableEq, Repr

/-- A fault: the bytes `start` up to `stop` (exclusive) are no character. -/
structure Fault where
  start : Nat
  stop : Nat
  reason : Reason
  firstByte : UInt8
deriving DecidableEq, Repr

/-- A closed range of byte values. -/
abbrev ByteRange := Nat × Nat

/-- Any continuation byte. -/
def anyContinuation : ByteRange := (0x80, 0xBF)

/-- What a first byte carries, and the ranges of the bytes that must follow it. -/
def lead? (b : Nat) : Option (Nat × List ByteRange) :=
  let tail := anyContinuation
  if b < 0x80 then some (b, [])
  else if b < 0xC2 then none
  else if b < 0xE0 then some (b - 0xC0, [tail])
  else if b = 0xE0 then some (0, [(0xA0, 0xBF), tail])
  else if b = 0xED then some (0xD, [(0x80, 0x9F), tail])
  else if b < 0xF0 then some (b - 0xE0, [tail, tail])
  else if b = 0xF0 then some (0, [(0x90, 0xBF), tail, tail])
  else if b < 0xF4 then some (b - 0xF0, [tail, tail, tail])
  else if b = 0xF4 then some (4, [(0x80, 0x8F), tail, tail])
  else none

/-- A character that is being read: where and with which byte it started, the bits so far, and the
ranges of the bytes still to come. -/
structure Pending where
  start : Nat
  firstByte : UInt8
  bits : Nat
  wanted : List ByteRange

/-- Decodes from byte number `pos` on, in the middle of a character if one is open. -/
def decodeFrom (pos : Nat) : Option Pending → Bytes → Except Fault Text
  | none, [] => .ok []
  | some p, [] => .error ⟨p.start, pos, .unexpectedEnd, p.firstByte⟩
  | none, b :: rest =>
    match lead? b.toNat with
    | none => .error ⟨pos, pos + 1, .invalidStart, b⟩
    | some (bits, []) => do
      let more ← decodeFrom (pos + 1) none rest
      .ok ((CodePoint.ofNat? bits).getD default :: more)
    | some (bits, wanted) => decodeFrom (pos + 1) (some ⟨pos, b, bits, wanted⟩) rest
  | some p, b :: rest =>
    match p.wanted with
    | [] => .error ⟨p.start, pos, .invalidContinuation, p.firstByte⟩
    | (low, high) :: wanted =>
      if low ≤ b.toNat ∧ b.toNat ≤ high then
        let bits := p.bits * 64 + (b.toNat - 0x80)
        if wanted.isEmpty then do
          let more ← decodeFrom (pos + 1) none rest
          .ok ((CodePoint.ofNat? bits).getD default :: more)
        else decodeFrom (pos + 1) (some { p with bits, wanted }) rest
      else .error ⟨p.start, pos, .invalidContinuation, p.firstByte⟩

/-- The text that bytes encode, or the first fault. -/
def decode (bytes : Bytes) : Except Fault Text := decodeFrom 0 none bytes

/-- The wording of a reason. -/
def Reason.message : Reason → Text
  | .invalidStart => "invalid start byte"
  | .invalidContinuation => "invalid continuation byte"
  | .unexpectedEnd => "unexpected end of data"

/-- Two lower-case hexadecimal digits. -/
def hexByte (b : UInt8) : Text :=
  [(Nat.digitChar (b.toNat / 16) : CodePoint), Nat.digitChar (b.toNat % 16)]

/-- The wording of a fault: one byte is named by its value, several by their positions. -/
def Fault.message (f : Fault) : Text :=
  let what : Text :=
    if f.stop = f.start + 1 then
      "byte 0x" ++ hexByte f.firstByte ++ " in position " ++ Text.ofNat f.start
    else "bytes in position " ++ Text.ofNat f.start ++ "-" ++ Text.ofNat (f.stop - 1)
  "'utf-8' codec can't decode " ++ what ++ ": " ++ f.reason.message

end TypedSexp.Utf8
