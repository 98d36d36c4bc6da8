import ProjectLint.Json.Value
import ProjectLint.Number.Decimal
import ProjectLint.Text.Hex

/-!
Reading JSON documents. Besides the standard grammar the reader takes the words `NaN`, `Infinity`
and `-Infinity`. Blanks are space, tab, line feed and carriage return. The first fault ends the
reading and is reported with its place in the document.
-/

namespace ProjectLint.Json

/-- What is wrong with a document. -/
inductive Defect where
  | value
  | extraData
  | propertyName
  | colon
  | comma
  | unterminated
  | controlCharacter
  | escape
  | unicodeEscape
  | byteOrderMark
deriving DecidableEq

def Defect.phrase : Defect → Text
  | value => "Expecting value"
  | extraData => "Extra data"
  | propertyName => "Expecting property name enclosed in double quotes"
  | colon => "Expecting ':' delimiter"
  | comma => "Expecting ',' delimiter"
  | unterminated => "Unterminated string starting at"
  | controlCharacter => "Invalid control character at"
  | escape => "Invalid \\escape"
  | unicodeEscape => "Invalid \\uXXXX escape"
  | byteOrderMark => "Unexpected UTF-8 BOM (decode using utf-8-sig)"

/-- Why a document was not read: it is malformed at a line and column (both from one) and an offset
in code points, a whole number has too many digits, or arrays and objects are nested too deep. -/
inductive Fault where
  | malformed (defect : Defect) (line column offset : Nat)
  | tooManyDigits
  | tooDeep
deriving DecidableEq

/-- The message for a malformed document; the other faults have none. -/
def Fault.message : Fault → Text
  | malformed defect line column offset =>
      defect.phrase ++ (": line " : Text) ++ decimal line ++ (" column " : Text) ++
        decimal column ++ (" (char " : Text) ++ decimal offset ++ (")" : Text)
  | tooManyDigits | tooDeep => []

/-- How deep values may be nested and how many digits a whole number may have. -/
structure Limits where
  depth : Nat
  digits : Nat

/-- How many digits a whole number may have. -/
def maxDigits : Nat := 4300

/-- The limits where values may be nested to some depth. -/
def Limits.nested (depth : Nat) : Limits := ⟨depth, maxDigits⟩

/-- Why the reader stopped. A defect is placed by the number of code points from it to the end. -/
inductive Stop where
  | defect (defect : Defect) (remaining : Nat)
  | tooManyDigits
  | tooDeep

/-- Whether a code point may stand between the parts of a document. -/
def isGap (c : CodePoint) : Bool :=
  c == ' ' || c == '\t' || c == '\n' || c == '\r'

/-- A text without the blanks it starts with. -/
def skipGap (t : Text) : Text :=
  t.dropWhile isGap

/-- The number of a `\u` escape. -/
def escapeUnit? (a b c d : CodePoint) : Option Nat := do
  let a ← a.hexValue?
  let b ← b.hexValue?
  let c ← c.hexValue?
  let d ← d.hexValue?
  return ((a * 16 + b) * 16 + c) * 16 + d

/-- What a code point after a backslash stands for, the `u` of a numeric escape left aside. -/
def simpleEscape? (c : CodePoint) : Option CodePoint :=
  if c = .scalar '"' || c = .scalar '\\' || c = .scalar '/' then some c
  else if c = .scalar 'b' then some '\x08'
  else if c = .scalar 'f' then some '\x0c'
  else if c = .scalar 'n' then some '\n'
  else if c = .scalar 'r' then some '\r'
  else if c = .scalar 't' then some '\t'
  else none

/-- Whether a number is that of the first half of a surrogate pair. -/
def isHighHalf (n : Nat) : Bool :=
  0xD800 ≤ n && n < 0xDC00

/-- Whether a number is that of the second half of a surrogate pair. -/
def isLowHalf (n : Nat) : Bool :=
  0xDC00 ≤ n && n < 0xE000

/-- The code point of two surrogate halves. -/
def joinHalves (high low : Nat) : CodePoint :=
  .ofNat (0x10000 + (high - 0xD800) * 0x400 + (low - 0xDC00))

/-- What the number of an escape adds to a string after an escape of a first surrogate half, if
there was one just before, and the first half that now waits for a second one. -/
def joinEscape (high : Option Nat) (n : Nat) : Text × Option Nat :=
  match high with
  | some h =>
      if isLowHalf n then ([joinHalves h n], none)
      else if isHighHalf n then ([.ofNat h], some n)
      else ([.ofNat h, .ofNat n], none)
  | none => if isHighHalf n then ([], some n) else ([.ofNat n], none)

/-- The first surrogate half that stands alone, if there is one. -/
def loneHalf (high : Option Nat) : Text :=
  high.toList.map CodePoint.ofNat

/-- Reads the inside of a string to its closing quote. `opening` is the text from the opening one
on. An escape of a first surrogate half and one of a second half right after it make one code point;
`high` is such a first half that was read just before. -/
def readString (opening : Text) (high : Option Nat) : Text → Except Stop (Text × Text)
  | [] => .error (.defect .unterminated opening.length)
  | c :: rest =>
      if c = .scalar '"' then .ok (loneHalf high, rest)
      else if c = .scalar '\\' then
        match rest with
        | [] => .error (.defect .unterminated opening.length)
        | e :: after =>
            if e = .scalar 'u' then
              match after with
              | a :: b :: c :: d :: left =>
                  match escapeUnit? a b c d, left with
                  | some n, _ :: _ =>
                      let (read, high) := joinEscape high n
                      (readString opening high left).map fun (t, left) => (read ++ t, left)
                  | _, _ => .error (.defect .unicodeEscape (after.length + 1))
              | _ => .error (.defect .unicodeEscape (after.length + 1))
            else
              match simpleEscape? e with
              | some c =>
                  (readString opening none after).map fun (t, left) =>
                    (loneHalf high ++ c :: t, left)
              | none => .error (.defect .escape (after.length + 2))
      else if c.toNat < 0x20 then .error (.defect .controlCharacter (rest.length + 1))
      else
        (readString opening none rest).map fun (t, left) => (loneHalf high ++ c :: t, left)

/-- The digits at the start of a text, and the rest. -/
def spanDigits (t : Text) : Text × Text :=
  (t.takeWhile CodePoint.isAsciiDigit, t.dropWhile CodePoint.isAsciiDigit)

/-- The digits of a whole number: a lone zero, or digits that start with another one. -/
def spanWhole? : Text → Option (Text × Text)
  | [] => none
  | c :: rest =>
      if c = .scalar '0' then some ([c], rest)
      else if c.isAsciiDigit then some (spanDigits (c :: rest))
      else none

/-- The digits after a point; none are taken, and no point, if no digit follows it. -/
def spanFraction : Text → Option Text × Text
  | [] => (none, [])
  | c :: rest =>
      let (digits, left) := spanDigits rest
      if c = .scalar '.' && !digits.isEmpty then (some digits, left) else (none, c :: rest)

/-- The exponent after an `e`; nothing is taken if no digit follows. -/
def spanExponent : Text → Option Int × Text
  | [] => (none, [])
  | c :: rest =>
      let (negative, unsigned) :=
        match rest with
        | .scalar '-' :: rest => (true, rest)
        | .scalar '+' :: rest => (false, rest)
        | rest => (false, rest)
      let (digits, left) := spanDigits unsigned
      if (c = .scalar 'e' || c = .scalar 'E') && !digits.isEmpty then
        let size : Int := readDecimal digits
        (some (if negative then -size else size), left)
      else (none, c :: rest)

/-- Reads the longest number at the start of a text. With a fraction or an exponent it is a
floating-point number. -/
def readNumber? (limits : Limits) (t : Text) : Option (Except Stop Json × Text) := do
  let (negative, unsigned) :=
    match t with
    | .scalar '-' :: rest => (true, rest)
    | rest => (false, rest)
  let (whole, left) ← spanWhole? unsigned
  let (fraction, left) := spanFraction left
  let (exponent, left) := spanExponent left
  if fraction.isNone && exponent.isNone then
    if limits.digits < whole.length then
      return (.error .tooManyDigits, left)
    else
      let size : Int := readDecimal whole
      return (.ok (.int (if negative then -size else size)), left)
  else
    let fraction := fraction.getD []
    let digits := (whole ++ fraction).dropWhile (· == .scalar '0')
    return (.ok (.float (.ofDecimal negative (readDecimal digits) digits.length
      (exponent.getD 0 - fraction.length))), left)

/-- The words that stand for values. -/
def words : List (Text × Json) :=
  [("null", .null), ("true", .bool true), ("false", .bool false), ("NaN", .float .nan),
    ("Infinity", .float (.infinite false)), ("-Infinity", .float (.infinite true))]

/-- Reads a value that is no string, array or object. -/
def readAtom (limits : Limits) (t : Text) : Except Stop (Json × Text) :=
  match words.find? fun word => word.1.isPrefixOf t with
  | some (word, value) => .ok (value, t.drop word.length)
  | none =>
      match readNumber? limits t with
      | some (value, left) => value.map fun value => (value, left)
      | none => .error (.defect .value t.length)

/-- Reads the values of an array that is not empty, to its closing bracket; there are at most so
many of them as a number says. -/
def readItems (read : Text → Except Stop (Json × Text)) : Nat → Text →
    Except Stop (List Json × Text)
  | 0, t => .error (.defect .value t.length)
  | fuel + 1, t => do
      let (value, left) ← read t
      match skipGap left with
      | .scalar ',' :: left =>
          let (values, left) ← readItems read fuel (skipGap left)
          return (value :: values, left)
      | .scalar ']' :: left => return ([value], left)
      | left => throw (.defect .comma left.length)

/-- Reads the fields of an object that is not empty, to its closing brace, names repeated as they
are; there are at most so many of them as a number says. -/
def readFields (read : Text → Except Stop (Json × Text)) : Nat → Text →
    Except Stop (List (Text × Json) × Text)
  | 0, t => .error (.defect .propertyName t.length)
  | fuel + 1, t => do
      match t with
      | .scalar '"' :: inside =>
          let (name, left) ← readString t none inside
          match skipGap left with
          | .scalar ':' :: left =>
              let (value, left) ← read (skipGap left)
              match skipGap left with
              | .scalar ',' :: left =>
                  let (fields, left) ← readFields read fuel (skipGap left)
                  return ((name, value) :: fields, left)
              | .scalar '\x7d' :: left => return ([(name, value)], left)
              | left => throw (.defect .comma left.length)
          | left => throw (.defect .colon left.length)
      | t => throw (.defect .propertyName t.length)

/-- Reads one value that may be nested to a depth, in a document of no more than `size` code
points. -/
def readValue (limits : Limits) (size : Nat) : (depth : Nat) → Text → Except Stop (Json × Text)
  | _, .scalar '"' :: rest =>
      (readString (.scalar '"' :: rest) none rest).map fun (t, left) => (.string t, left)
  | 0, .scalar '[' :: _ | 0, .scalar '\x7b' :: _ => .error .tooDeep
  | depth + 1, .scalar '[' :: rest =>
      match skipGap rest with
      | .scalar ']' :: left => .ok (.array [], left)
      | inside =>
          (readItems (readValue limits size depth) size inside).map fun (items, left) =>
            (.array items, left)
  | depth + 1, .scalar '\x7b' :: rest =>
      match skipGap rest with
      | .scalar '\x7d' :: left => .ok (.object [], left)
      | inside =>
          (readFields (readValue limits size depth) size inside).map fun (fields, left) =>
            (.object (Fields.ofPairs fields), left)
  | _, t => readAtom limits t

/-- Places a defect in a document: lines and columns count from one, a column from the last line
feed before it. -/
def place (document : Text) (defect : Defect) (remaining : Nat) : Fault :=
  let before := document.take (document.length - remaining)
  let column := (before.reverse.takeWhile (· != .scalar '\n')).length + 1
  .malformed defect (before.count (.scalar '\n') + 1) column before.length

/-- Reads a document: one value and blanks around it. A byte order mark at the start is refused. -/
def readDocument (limits : Limits) (document : Text) : Except Stop Json :=
  if document.head? = some (CodePoint.ofNat 0xFEFF) then
    .error (.defect .byteOrderMark document.length)
  else
    match readValue limits document.length limits.depth (skipGap document) with
    | .error stop => .error stop
    | .ok (value, left) =>
        match skipGap left with
        | [] => .ok value
        | left => .error (.defect .extraData left.length)

/-- The value of a document, or why it has none. -/
def read (limits : Limits) (document : Text) : Except Fault Json :=
  match readDocument limits document with
  | .ok value => .ok value
  | .error (.defect defect remaining) => .error (place document defect remaining)
  | .error .tooManyDigits => .error .tooManyDigits
  | .error .tooDeep => .error .tooDeep

end ProjectLint.Json
