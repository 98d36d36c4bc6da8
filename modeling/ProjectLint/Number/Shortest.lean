import ProjectLint.Number.Binary64
import ProjectLint.Number.Decimal

/-!
The shortest decimal digits that read back as a given floating-point number, and their layout. Of
the decimals with the fewest digits that round to the number, the nearest is taken.
-/

namespace ProjectLint

/-- A positive decimal: its digits as a number, times ten to the power of the exponent. -/
structure ShortDecimal where
  digits : Nat
  exponent : Int
deriving DecidableEq

/-- The reals that round to a positive number, as multiples of one `num / den`: the number itself
and both ends, which belong to the interval if `closed` holds. -/
structure RoundingInterval where
  num : Nat
  den : Nat
  value : Nat
  low : Nat
  high : Nat
  closed : Bool

/-- The interval of the reals that round to `mantissa` times two to the power of `exponent`. Below
a power of two the neighbours lie closer together. -/
def RoundingInterval.of (mantissa : Nat) (exponent : Int) : RoundingInterval :=
  let (den, num) := scaleQuotient 1 1 (exponent - 2)
  let low := if mantissa = Nat.pow 2 52 && Binary64.minExponent < exponent then 1 else 2
  ⟨num, den, 4 * mantissa, 4 * mantissa - low, 4 * mantissa + 2, mantissa % 2 == 0⟩

namespace RoundingInterval

/-- Multiplies both sides of a comparison by ten to the power of `exponent`, if need be moving it
to the other side. -/
def timesTen (left right : Nat) (exponent : Int) : Nat × Nat :=
  match exponent with
  | .ofNat n => (left * Nat.pow 10 n, right)
  | .negSucc n => (left, right * Nat.pow 10 (n + 1))

/-- Whether `digits` times ten to the power of `exponent` rounds to the number. -/
def holds (r : RoundingInterval) (digits : Nat) (exponent : Int) : Bool :=
  let (left, right) := timesTen (digits * r.den) r.num exponent
  let above := if r.closed then decide (r.low * right ≤ left) else decide (r.low * right < left)
  let below := if r.closed then decide (left ≤ r.high * right) else decide (left < r.high * right)
  above && below

/-- The power of ten just above the number. -/
def magnitude (r : RoundingInterval) : Int :=
  let top := r.value * r.num
  let guess : Int := ((Nat.toDigits 10 top).length : Int) - ((Nat.toDigits 10 r.den).length : Int)
  let (left, right) := timesTen r.den top guess
  if right < left then guess else guess + 1

/-- The decimal with `count` digits that rounds to the number, if there is one; of two the nearer,
and of two equally near the even one. -/
def atLength? (r : RoundingInterval) (count : Nat) : Option ShortDecimal :=
  let exponent := r.magnitude - count
  let (left, right) := timesTen r.den (r.value * r.num) exponent
  let floor := right / left
  let rest := right % left
  let lower := r.holds floor exponent
  let upper := r.holds (floor + 1) exponent
  if lower && upper then
    let down := 2 * rest < left || (2 * rest = left && floor % 2 = 0)
    some ⟨if down then floor else floor + 1, exponent⟩
  else if lower then some ⟨floor, exponent⟩
  else if upper then some ⟨floor + 1, exponent⟩
  else none

/-- The decimal with the fewest digits, which are never more than seventeen. -/
def shortest (r : RoundingInterval) : ShortDecimal :=
  ((List.range 17).findSome? fun n => r.atLength? (n + 1)).getD ⟨0, 0⟩

end RoundingInterval

/-- How decimals are laid out: positional notation from ten to the power of `least` on and below
ten to the power of `most`, and exponents of at least `exponentDigits` digits. -/
structure DecimalLayout where
  least : Int
  most : Int
  exponentDigits : Nat

/-- Positional notation covers exponents from -4 to 15, and an exponent has two digits or more. -/
def DecimalLayout.standard : DecimalLayout := ⟨-4, 16, 2⟩

/-- Digits without the zeros they end with. -/
def dropFinalZeros (digits : Text) : Text :=
  (digits.reverse.dropWhile (· == .scalar '0')).reverse

/-- Lays out a positive decimal. A whole number in positional notation ends with `.0`. -/
def DecimalLayout.write (layout : DecimalLayout) (d : ShortDecimal) : Text :=
  let all := decimal d.digits
  let digits := dropFinalZeros all
  let scientific : Int := (all.length : Int) - 1 + d.exponent
  if layout.least ≤ scientific && scientific < layout.most then
    if scientific < 0 then
      ("0." : Text) ++ List.replicate (scientific.natAbs - 1) (.scalar '0') ++ digits
    else
      let whole := scientific.toNat + 1
      let front := digits.take whole ++ List.replicate (whole - digits.length) (.scalar '0')
      let back := digits.drop whole
      front ++ .scalar '.' :: (if back.isEmpty then [.scalar '0'] else back)
  else
    let size := decimal scientific.natAbs
    let fraction : Text := if digits.length ≤ 1 then [] else .scalar '.' :: digits.drop 1
    let sign : Text := if scientific < 0 then ['e', '-'] else ['e', '+']
    digits.take 1 ++ fraction ++ sign ++
      List.replicate (layout.exponentDigits - size.length) (.scalar '0') ++ size

namespace Binary64

/-- The words for the numbers that are not finite. -/
structure SpecialWords where
  nan : Text
  infinity : Text
  negativeInfinity : Text

/-- A number in its shortest decimal form. -/
def write (words : SpecialWords) : Binary64 → Text
  | nan => words.nan
  | infinite negative => if negative then words.negativeInfinity else words.infinity
  | finite negative mantissa exponent =>
      let size : Text :=
        if mantissa = 0 then "0.0"
        else DecimalLayout.standard.write (RoundingInterval.of mantissa exponent).shortest
      if negative then .scalar '-' :: size else size

end Binary64
end ProjectLint
