import ProjectLint.Json.Value
import ProjectLint.Json.Reader
import ProjectLint.Text.Blank
import ProjectLint.Text.DecimalDigit

/-!
Whole numbers from JSON values of any kind: truth values count as zero and one, floating-point
numbers lose their fraction, and a text is read as a number if it spells one.
-/

namespace ProjectLint.Json

/-- Why a value is no whole number: its kind never is one, it is infinite, or it is a text or a NaN
that does not stand for a number. -/
inductive IntegerFault where
  | wrongKind
  | infinite
  | unreadable
deriving DecidableEq

/-- Reads digits of any script, between which single underscores may stand. `after` tells whether a
digit stands before. -/
def readDigits (after : Bool) (total : Nat) : Text → Option Nat
  | [] => if after then some total else none
  | c :: rest =>
      if c = .scalar '_' then
        if after && !rest.isEmpty then readDigits false total rest else none
      else
        match c.digitValue? with
        | some digit => readDigits true (total * 10 + digit) rest
        | none => none

/-- Whether a code point has the property White_Space: the information separators do not. -/
def isWhiteSpace (c : CodePoint) : Bool :=
  c.isBlank && !(0x1C ≤ c.toNat && c.toNat ≤ 0x1F)

/-- Reads a whole number with an optional sign and white space around it. -/
def readInteger? (t : Text) : Option Int := do
  let t := ((t.dropWhile isWhiteSpace).reverse.dropWhile isWhiteSpace).reverse
  let (negative, digits) :=
    match t with
    | .scalar '-' :: rest => (true, rest)
    | .scalar '+' :: rest => (false, rest)
    | rest => (false, rest)
  if maxDigits < (digits.filter (· != .scalar '_')).length then
    none
  else
    let size ← readDigits false 0 digits
    return if negative then -(size : Int) else size

/-- The whole number that a value stands for. -/
def toInteger : Json → Except IntegerFault Int
  | bool b => .ok (if b then 1 else 0)
  | int n => .ok n
  | float .nan => .error .unreadable
  | float (.infinite _) => .error .infinite
  | float (.finite negative mantissa exponent) =>
      match (Binary64.finite negative mantissa exponent).truncate? with
      | some n => .ok n
      | none => .error .infinite
  | string t =>
      match readInteger? t with
      | some n => .ok n
      | none => .error .unreadable
  | null | array _ | object _ => .error .wrongKind

end ProjectLint.Json
