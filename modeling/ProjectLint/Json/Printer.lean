import ProjectLint.Json.Value
import ProjectLint.Number.Shortest
import ProjectLint.Text.Hex

/-!
Writing JSON values on one line in ASCII: a blank after each comma and colon, every code point
outside U+0020 to U+007E as an escape, and past U+FFFF as the escapes of two surrogate halves.
-/

namespace ProjectLint.Json

/-- The words for floating-point numbers that are not finite. -/
def specialWords : Binary64.SpecialWords := ⟨"NaN", "Infinity", "-Infinity"⟩

/-- A numeric escape. -/
def writeUnit (n : Nat) : Text :=
  .scalar '\\' :: .scalar 'u' :: hexDigits 4 n

def writeCodePoint (c : CodePoint) : Text :=
  let n := c.toNat
  if c = .scalar '"' || c = .scalar '\\' then [.scalar '\\', c]
  else if c = .scalar '\n' then ['\\', 'n']
  else if c = .scalar '\r' then ['\\', 'r']
  else if c = .scalar '\t' then ['\\', 't']
  else if c = .scalar '\x0c' then ['\\', 'f']
  else if c = .scalar '\x08' then ['\\', 'b']
  else if 0x20 ≤ n && n ≤ 0x7E then [c]
  else if n < 0x10000 then writeUnit n
  else writeUnit (0xD800 + (n - 0x10000) / 0x400) ++ writeUnit (0xDC00 + (n - 0x10000) % 0x400)

def writeString (t : Text) : Text :=
  .scalar '"' :: t.flatMap writeCodePoint ++ [.scalar '"']

mutual

def write : Json → Text
  | null => "null"
  | bool true => "true"
  | bool false => "false"
  | int n => signedDecimal n
  | float x => x.write specialWords
  | string t => writeString t
  | array items => .scalar '[' :: writeItems items ++ [.scalar ']']
  | object fields => .scalar '\x7b' :: writeFields fields ++ [.scalar '\x7d']

def writeItems : List Json → Text
  | [] => []
  | [item] => write item
  | item :: items => write item ++ .scalar ',' :: .scalar ' ' :: writeItems items

def writeFields : List (Text × Json) → Text
  | [] => []
  | [(name, value)] => writeString name ++ .scalar ':' :: .scalar ' ' :: write value
  | (name, value) :: fields =>
      writeString name ++ .scalar ':' :: .scalar ' ' :: write value ++
        .scalar ',' :: .scalar ' ' :: writeFields fields

end

end ProjectLint.Json
