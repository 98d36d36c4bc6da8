import ProjectLint.Text.Basic

/-!
Hexadecimal digits of a fixed width, in lower case.
-/

namespace ProjectLint

/-- The lower-case hexadecimal digit of a number below sixteen. -/
def hexDigit (n : Nat) : CodePoint :=
  if n < 10 then .scalar (Char.ofNat (48 + n)) else .scalar (Char.ofNat (87 + n))

/-- The last `width` hexadecimal digits of a number, leading zeros included. -/
def hexDigits : (width n : Nat) → Text
  | 0, _ => []
  | width + 1, n => hexDigits width (n / 16) ++ [hexDigit (n % 16)]

/-- The value of a hexadecimal digit in either case. -/
def CodePoint.hexValue? (c : CodePoint) : Option Nat :=
  let n := c.toNat
  if 48 ≤ n && n ≤ 57 then some (n - 48)
  else if 97 ≤ n && n ≤ 102 then some (n - 87)
  else if 65 ≤ n && n ≤ 70 then some (n - 55)
  else none

end ProjectLint
