/-!
Floating-point numbers of 64 bits, as exact values. A finite number is a sign, a mantissa below
`2 ^ 53` and an exponent; all arithmetic on them is done on natural numbers.
-/

namespace ProjectLint

/-- A 64-bit floating-point number. A finite one is the mantissa times two to the exponent. -/
inductive Binary64 where
  | nan
  | infinite (negative : Bool)
  | finite (negative : Bool) (mantissa : Nat) (exponent : Int)
deriving DecidableEq, Inhabited

/-- A quotient rounded to the nearest whole number, a half going to the even neighbour. -/
def roundQuotient (num den : Nat) : Nat :=
  let floor := num / den
  let twice := 2 * (num % den)
  if twice < den then floor
  else if den < twice then floor + 1
  else floor + floor % 2

/-- A quotient scaled by two to the power of `-exponent`, as a quotient again. -/
def scaleQuotient (num den : Nat) (exponent : Int) : Nat × Nat :=
  match exponent with
  | .ofNat n => (num, den * Nat.pow 2 n)
  | .negSucc n => (num * Nat.pow 2 (n + 1), den)

namespace Binary64

/-- The least exponent. -/
def minExponent : Int := -1074

/-- The greatest exponent of a finite number. -/
def maxExponent : Int := 971

/-- The nearest number to a positive quotient, a tie going to the even mantissa. -/
def ofQuotient (negative : Bool) (num den : Nat) : Binary64 :=
  let guess : Int := (num.log2 : Int) - (den.log2 : Int) - 52
  let (n, d) := scaleQuotient num den guess
  let exponent := max minExponent (if n < Nat.pow 2 52 * d then guess - 1 else guess)
  let (n, d) := scaleQuotient num den exponent
  let mantissa := roundQuotient n d
  let (mantissa, exponent) :=
    if mantissa = Nat.pow 2 53 then (Nat.pow 2 52, exponent + 1) else (mantissa, exponent)
  if maxExponent < exponent then .infinite negative else .finite negative mantissa exponent

/-- The nearest number to `digits` times ten to the power of `exponent`, where `digits` has `count`
decimal digits. Powers of ten far outside the range are settled without computing them. -/
def ofDecimal (negative : Bool) (digits count : Nat) (exponent : Int) : Binary64 :=
  if digits = 0 then .finite negative 0 minExponent
  else if 310 < (count : Int) + exponent then .infinite negative
  else if (count : Int) + exponent < -330 then .finite negative 0 minExponent
  else
    match exponent with
    | .ofNat n => ofQuotient negative (digits * Nat.pow 10 n) 1
    | .negSucc n => ofQuotient negative digits (Nat.pow 10 (n + 1))

/-- The whole number that is left when the fraction is cut off; none for NaN and the infinities. -/
def truncate? : Binary64 → Option Int
  | nan | infinite _ => none
  | finite negative mantissa exponent =>
      let size := match exponent with
        | .ofNat n => mantissa * Nat.pow 2 n
        | .negSucc n => mantissa / Nat.pow 2 (n + 1)
      some (if negative then -(size : Int) else size)

/-- Whether a number equals zero. -/
def isZero : Binary64 → Bool
  | finite _ 0 _ => true
  | _ => false

end Binary64
end ProjectLint
