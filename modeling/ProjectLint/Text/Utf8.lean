import ProjectLint.Text.Hex
import ProjectLint.Number.Decimal

/-!
UTF-8, read strictly: no overlong forms, no surrogates, nothing past U+10FFFF. The reader takes one
byte at a time and remembers only the sequence it is in the middle of, so a fault can name the
bytes that are already known to be wrong.
-/

namespace ProjectLint.Utf8

/-- Bytes in the order they are stored. -/
abbrev Bytes := List UInt8

/-- What is wrong with a byte sequence. -/
inductive Defect where
  | badStart
  | badContinuation
  | truncated
deriving DecidableEq

/-- A place where bytes are not UTF-8: the positions of the first and the last byte at fault, and
the value of the first. -/
structure Fault where
  defect : Defect
  first : Nat
  last : Nat
  lead : UInt8
deriving DecidableEq

def Defect.phrase : Defect → Text
  | badStart => "invalid start byte"
  | badContinuation => "invalid continuation byte"
  | truncated => "unexpected end of data"

/-- The message for a fault. One byte is given with its value, several only by position. -/
def Fault.message (fault : Fault) : Text :=
  "'utf-8' codec can't decode " ++
    (if fault.first = fault.last then
      ("byte 0x" : Text) ++ hexDigits 2 fault.lead.toNat ++ " in position " ++ decimal fault.first
    else
      ("bytes in position " : Text) ++ decimal fault.first ++ "-" ++ decimal fault.last) ++
    ": " ++ fault.defect.phrase

/-- A sequence of several bytes that has begun: its first byte and that byte's position, the bits
read so far, how many bytes are still missing, and the bounds of the next one. -/
structure Pending where
  lead : UInt8
  start : Nat
  bits : Nat
  missing : Nat
  low : UInt8
  high : UInt8

/-- A sequence with more bits read and fewer bytes missing. Any continuation byte may come next. -/
def Pending.next (p : Pending) (bits missing : Nat) : Pending :=
  { p with bits, missing, low := 0x80, high := 0xBF }

/-- The sequence that a first byte above 127 begins. The bounds of the second byte keep out
overlong forms, surrogates and numbers past the last code point. -/
def begin? (position : Nat) (b : UInt8) : Option Pending :=
  if b < 0xC2 || b > 0xF4 then none
  else if b < 0xE0 then some ⟨b, position, b.toNat % 32, 1, 0x80, 0xBF⟩
  else if b < 0xF0 then
    some ⟨b, position, b.toNat % 16, 2, if b = 0xE0 then 0xA0 else 0x80,
      if b = 0xED then 0x9F else 0xBF⟩
  else
    some ⟨b, position, b.toNat % 8, 3, if b = 0xF0 then 0x90 else 0x80,
      if b = 0xF4 then 0x8F else 0xBF⟩

/-- Decodes bytes from a position on, in the middle of a sequence if there is one. -/
def decodeFrom (position : Nat) : Option Pending → Bytes → Except Fault Text
  | none, [] => .ok []
  | some p, [] => .error ⟨.truncated, p.start, position - 1, p.lead⟩
  | none, b :: rest =>
      if b < 0x80 then
        (decodeFrom (position + 1) none rest).map (CodePoint.ofNat b.toNat :: ·)
      else
        match begin? position b with
        | none => .error ⟨.badStart, position, position, b⟩
        | some p => decodeFrom (position + 1) (some p) rest
  | some p, b :: rest =>
      if p.low ≤ b && b ≤ p.high then
        let bits := p.bits * 64 + b.toNat % 64
        match p.missing with
        | 0 | 1 => (decodeFrom (position + 1) none rest).map (CodePoint.ofNat bits :: ·)
        | missing + 2 =>
            decodeFrom (position + 1) (some (p.next bits (missing + 1))) rest
      else
        .error ⟨.badContinuation, p.start, position - 1, p.lead⟩

/-- The text that bytes spell, or the first fault. -/
def decode (bytes : Bytes) : Except Fault Text :=
  decodeFrom 0 none bytes

/-- The bytes of the code point with a number. A surrogate half gets three bytes like its
neighbours, which is not UTF-8 and is refused by `decode`. -/
def encodeNumber (n : Nat) : Bytes :=
  if n < 0x80 then [.ofNat n]
  else if n < 0x800 then [.ofNat (0xC0 + n / 64), .ofNat (0x80 + n % 64)]
  else if n < 0x10000 then
    [.ofNat (0xE0 + n / 4096), .ofNat (0x80 + n / 64 % 64), .ofNat (0x80 + n % 64)]
  else
    [.ofNat (0xF0 + n / 262144), .ofNat (0x80 + n / 4096 % 64), .ofNat (0x80 + n / 64 % 64),
      .ofNat (0x80 + n % 64)]

def encodeOne (c : CodePoint) : Bytes :=
  encodeNumber c.toNat

def encode (t : Text) : Bytes :=
  t.flatMap encodeOne

end ProjectLint.Utf8
