import ProjectLint.Text.Basic

/-!
Whole numbers in decimal digits.
-/

namespace ProjectLint

def decimal (n : Nat) : Text :=
  (Nat.toDigits 10 n).map .scalar

/-- The decimal digits of an integer, after a minus sign if it is negative. -/
def signedDecimal : Int → Text
  | .ofNat n => decimal n
  | .negSucc n => .scalar '-' :: decimal (n + 1)

/-- The number that ASCII digits spell, read on from a number. -/
def readDecimal (digits : Text) : Nat :=
  digits.foldl (fun n c => n * 10 + (c.toNat - 48)) 0

end ProjectLint
