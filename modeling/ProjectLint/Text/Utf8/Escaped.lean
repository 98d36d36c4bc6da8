import ProjectLint.Text.Utf8

/-!
Bytes as text without loss. Where bytes are UTF-8 they are read as such. Every other byte is read as
a surrogate half of its own, from U+DC80 to U+DCFF, and such a half is written as that byte again.
-/

namespace ProjectLint

/-- The code point that stands for a byte which is not UTF-8. -/
def CodePoint.ofRawByte (b : UInt8) : CodePoint :=
  .ofNat (0xDC00 + b.toNat)

/-- The byte that a code point stands for. -/
def CodePoint.rawByte? (c : CodePoint) : Option UInt8 :=
  if 0xDC80 ≤ c.toNat && c.toNat ≤ 0xDCFF then some (.ofNat (c.toNat - 0xDC00)) else none

namespace Utf8

/-- The bytes of one code point; one that stands for a byte has just that byte. -/
def encodeOneEscaped (c : CodePoint) : Bytes :=
  match c.rawByte? with
  | some b => [b]
  | none => encodeOne c

/-- The bytes of a text in which code points can stand for bytes. -/
def encodeEscaped (t : Text) : Bytes :=
  t.flatMap encodeOneEscaped

/-- The number that a sequence spells, if the bytes that are still missing follow. -/
def finish? : Pending → Bytes → Option Nat
  | _, [] => none
  | p, b :: rest =>
      if p.low ≤ b && b ≤ p.high then
        let bits := p.bits * 64 + b.toNat % 64
        match p.missing with
        | 0 | 1 => some bits
        | missing + 2 => finish? (p.next bits (missing + 1)) rest
      else none

/-- Reads bytes after the first `skip` of them. -/
def decodeEscapedAfter : (skip : Nat) → Bytes → Text
  | _, [] => []
  | skip + 1, _ :: rest => decodeEscapedAfter skip rest
  | 0, b :: rest =>
      if b < 0x80 then .ofNat b.toNat :: decodeEscapedAfter 0 rest
      else
        match begin? 0 b with
        | none => .ofRawByte b :: decodeEscapedAfter 0 rest
        | some p =>
            match finish? p rest with
            | none => .ofRawByte b :: decodeEscapedAfter 0 rest
            | some n => .ofNat n :: decodeEscapedAfter p.missing rest

/-- The text that bytes are read as. -/
def decodeEscaped (bytes : Bytes) : Text :=
  decodeEscapedAfter 0 bytes

end Utf8
end ProjectLint
