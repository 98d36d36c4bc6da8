import Mathlib.Tactic.LinearCombination
import ProjectLint.Number.Shortest
import ProjectLint.Proofs.Number.Decimal
import ProjectLint.Proofs.Number.Rounding

/-!
The shortest decimal of a floating-point number. Seventeen digits always suffice: the steps between
decimals of that length are shorter than the interval of what is rounded to the number. Main
statement: the decimal that is found is rounded to the number, so a number that was written can be
read again.
-/

namespace ProjectLint

theorem zpow_ten_pos (k : ℤ) : (0 : ℚ) < 10 ^ k := by
  positivity

theorem zpow_ten_add (a b : ℤ) : (10 : ℚ) ^ (a + b) = 10 ^ a * 10 ^ b :=
  zpow_add₀ (by norm_num) a b

namespace RoundingInterval

open Binary64

theorem timesTen_spec (left right : Nat) (k : ℤ) :
    ∃ c : ℚ, 0 < c ∧ ((timesTen left right k).1 : ℚ) = left * 10 ^ k * c ∧
      ((timesTen left right k).2 : ℚ) = right * c := by
  cases k with
  | ofNat n =>
      refine ⟨1, one_pos, ?_, ?_⟩
      · simp [timesTen]
      · simp [timesTen]
  | negSucc n =>
      refine ⟨10 ^ (n + 1), by positivity, ?_, ?_⟩
      · rw [zpow_negSucc, mul_assoc, inv_mul_cancel₀ (by positivity), mul_one]
        rfl
      · simp [timesTen]

variable {mantissa : Nat} {exponent : ℤ}

theorem unit_of (mantissa : Nat) (exponent : ℤ) :
    0 < (RoundingInterval.of mantissa exponent).den ∧
      0 < (RoundingInterval.of mantissa exponent).num ∧
        4 * ((RoundingInterval.of mantissa exponent).num : ℚ) =
          (RoundingInterval.of mantissa exponent).den * 2 ^ exponent := by
  have hden : (RoundingInterval.of mantissa exponent).den = (scaleQuotient 1 1 (exponent - 2)).1 :=
    rfl
  have hnum : (RoundingInterval.of mantissa exponent).num = (scaleQuotient 1 1 (exponent - 2)).2 :=
    rfl
  obtain ⟨scale, hscale, hleft, hright⟩ := scaleQuotient_spec 1 Nat.one_pos (exponent - 2)
  rw [Nat.cast_one, div_one, one_mul] at hleft
  rw [hden, hnum, hleft, hright]
  refine ⟨?_, scaleQuotient_pos 1 Nat.one_pos (exponent - 2), ?_⟩
  · rw [← hleft] at hscale
    exact_mod_cast hscale
  · have hfour : (2 : ℚ) ^ exponent = 4 * 2 ^ (exponent - 2) := by
      have hexp : exponent = exponent - 2 + (2 : Nat) := by omega
      rw [hexp, zpow_two_add_ofNat, ← hexp]
      norm_num
    rw [hfour]
    ring

theorem low_of (hmantissa : 0 < mantissa) (exponent : ℤ) :
    ((RoundingInterval.of mantissa exponent).low : ℚ) =
      4 * (mantissa - reachDown mantissa exponent) := by
  have hlow : (RoundingInterval.of mantissa exponent).low =
      4 * mantissa - if mantissa = 2 ^ 52 && minExponent < exponent then 1 else 2 := rfl
  rw [hlow, reachDown]
  by_cases hpower : mantissa = 2 ^ 52 ∧ minExponent < exponent
  · rw [if_pos (by simpa using hpower), if_pos hpower, Nat.cast_sub (by omega)]
    push_cast
    ring
  · rw [if_neg (by simpa using hpower), if_neg hpower, Nat.cast_sub (by omega)]
    push_cast
    ring

theorem high_of (mantissa : Nat) (exponent : ℤ) :
    ((RoundingInterval.of mantissa exponent).high : ℚ) = 4 * (mantissa + 1 / 2) := by
  have hhigh : (RoundingInterval.of mantissa exponent).high = 4 * mantissa + 2 := rfl
  rw [hhigh]
  push_cast
  ring

/-- What a decimal and the ends of the interval are multiplied by where they are compared. -/
theorem exists_scale (mantissa : Nat) (exponent : ℤ) (digits : Nat) (k : ℤ) :
    ∃ scale : ℚ, 0 < scale ∧
      ((timesTen (digits * (RoundingInterval.of mantissa exponent).den)
        (RoundingInterval.of mantissa exponent).num k).1 : ℚ) = digits * 10 ^ k * scale ∧
      ∀ (bound : Nat) (edge : ℚ), (bound : ℚ) = 4 * edge →
        (bound : ℚ) * (timesTen (digits * (RoundingInterval.of mantissa exponent).den)
          (RoundingInterval.of mantissa exponent).num k).2 = edge * 2 ^ exponent * scale := by
  obtain ⟨hden, -, hunit⟩ := unit_of mantissa exponent
  obtain ⟨c, hc, hleft, hright⟩ := timesTen_spec
    (digits * (RoundingInterval.of mantissa exponent).den)
    (RoundingInterval.of mantissa exponent).num k
  have hdenPos : (0 : ℚ) < (RoundingInterval.of mantissa exponent).den := by exact_mod_cast hden
  refine ⟨(RoundingInterval.of mantissa exponent).den * c, mul_pos hdenPos hc, ?_, ?_⟩
  · rw [hleft]
    push_cast
    ring
  · intro bound edge hedge
    rw [hright, hedge]
    linear_combination edge * c * hunit

/-- A decimal is taken exactly if it lies between the ends, or on one if the mantissa is even. -/
theorem holds_iff (hmantissa : 0 < mantissa) (exponent : ℤ) (digits : Nat) (k : ℤ) :
    (RoundingInterval.of mantissa exponent).holds digits k = true ↔
      RoundsTo mantissa exponent (digits * 10 ^ k) := by
  obtain ⟨scale, hscale, hleft, hends⟩ := exists_scale mantissa exponent digits k
  have hlow := hends _ _ (low_of hmantissa exponent)
  have hhigh := hends _ _ (high_of mantissa exponent)
  have hclosed : (RoundingInterval.of mantissa exponent).closed = (mantissa % 2 == 0) := rfl
  rw [holds]
  generalize timesTen (digits * (RoundingInterval.of mantissa exponent).den)
    (RoundingInterval.of mantissa exponent).num k = sides at hleft hlow hhigh
  obtain ⟨left, right⟩ := sides
  simp only at hleft hlow hhigh ⊢
  have hfrom : (RoundingInterval.of mantissa exponent).low * right ≤ left ↔
      ((mantissa : ℚ) - reachDown mantissa exponent) * 2 ^ exponent ≤ digits * 10 ^ k := by
    rw [← Nat.cast_le (α := ℚ), Nat.cast_mul, hlow, hleft, mul_le_mul_iff_of_pos_right hscale]
  have hupTo : left ≤ (RoundingInterval.of mantissa exponent).high * right ↔
      digits * 10 ^ k ≤ ((mantissa : ℚ) + 1 / 2) * 2 ^ exponent := by
    rw [← Nat.cast_le (α := ℚ), Nat.cast_mul, hhigh, hleft, mul_le_mul_iff_of_pos_right hscale]
  have hfromStrict : (RoundingInterval.of mantissa exponent).low * right < left ↔
      ((mantissa : ℚ) - reachDown mantissa exponent) * 2 ^ exponent < digits * 10 ^ k := by
    rw [← Nat.cast_lt (α := ℚ), Nat.cast_mul, hlow, hleft, mul_lt_mul_iff_of_pos_right hscale]
  have hupToStrict : left < (RoundingInterval.of mantissa exponent).high * right ↔
      digits * 10 ^ k < ((mantissa : ℚ) + 1 / 2) * 2 ^ exponent := by
    rw [← Nat.cast_lt (α := ℚ), Nat.cast_mul, hhigh, hleft, mul_lt_mul_iff_of_pos_right hscale]
  rw [hclosed]
  by_cases heven : mantissa % 2 = 0
  · have htest : (mantissa % 2 == 0) = true := by simpa using heven
    simp only [htest, if_true, Bool.and_eq_true, decide_eq_true_eq, hfrom, hupTo]
    exact ⟨fun ⟨h, h'⟩ => ⟨h, h', fun hodd => by omega⟩, fun h => ⟨h.low, h.high⟩⟩
  · have htest : (mantissa % 2 == 0) = false := by simpa using heven
    simp only [htest, Bool.false_eq_true, if_false, Bool.and_eq_true, decide_eq_true_eq,
      hfromStrict, hupToStrict]
    exact ⟨fun ⟨h, h'⟩ => ⟨le_of_lt h, le_of_lt h', fun _ => ⟨h, h'⟩⟩, fun h => h.odd (by omega)⟩

theorem magnitude_eq (r : RoundingInterval) (guess : ℤ)
    (h : guess = ((Nat.toDigits 10 (r.value * r.num)).length : ℤ) -
      ((Nat.toDigits 10 r.den).length : ℤ)) :
    r.magnitude =
      if (timesTen r.den (r.value * r.num) guess).2 < (timesTen r.den (r.value * r.num) guess).1
      then guess else guess + 1 := by
  subst h
  rfl

theorem length_toDigits_bounds {n : Nat} (hn : 0 < n) :
    (10 : ℚ) ^ (((Nat.toDigits 10 n).length : ℤ) - 1) ≤ n ∧
      (n : ℚ) < 10 ^ ((Nat.toDigits 10 n).length : ℤ) := by
  have hlength := Nat.length_toDigits_pos (b := 10) (n := n)
  constructor
  · have h := pow_length_toDigits_le hn
    have hcast : (((Nat.toDigits 10 n).length : ℤ) - 1) =
        (((Nat.toDigits 10 n).length - 1 : Nat) : ℤ) := by omega
    rw [hcast, zpow_natCast]
    exact_mod_cast h
  · rw [zpow_natCast]
    exact_mod_cast lt_pow_length_toDigits n

/-- How many digits two numbers have tells their quotient up to a factor of ten. -/
theorem quotient_bounds {top den : Nat} (htop : 0 < top) (hden : 0 < den) {q : ℚ}
    (h : (top : ℚ) = den * q) :
    (10 : ℚ) ^ (((Nat.toDigits 10 top).length : ℤ) - (Nat.toDigits 10 den).length - 1) ≤ q ∧
      q < 10 ^ (((Nat.toDigits 10 top).length : ℤ) - (Nat.toDigits 10 den).length + 1) := by
  have hdenPos : (0 : ℚ) < den := by exact_mod_cast hden
  obtain ⟨htopLow, htopHigh⟩ := length_toDigits_bounds htop
  obtain ⟨hdenLow, hdenHigh⟩ := length_toDigits_bounds hden
  rw [h] at htopLow htopHigh
  generalize ((Nat.toDigits 10 top).length : ℤ) = lt at *
  generalize ((Nat.toDigits 10 den).length : ℤ) = ld at *
  constructor
  · have hexp : lt - 1 = (lt - ld - 1) + ld := by omega
    rw [hexp, zpow_ten_add] at htopLow
    have hten := zpow_ten_pos (lt - ld - 1)
    have hscaled : (10 : ℚ) ^ (lt - ld - 1) * den ≤ q * den := by nlinarith
    exact le_of_mul_le_mul_right hscaled hdenPos
  · have hexp : lt = (lt - ld + 1) + (ld - 1) := by omega
    rw [hexp, zpow_ten_add] at htopHigh
    have hten := zpow_ten_pos (lt - ld + 1)
    have hscaled : q * den < 10 ^ (lt - ld + 1) * den := by nlinarith
    exact lt_of_mul_lt_mul_right hscaled (le_of_lt hdenPos)

/-- The number itself is the quotient that is compared with a power of ten. -/
theorem value_of (mantissa : Nat) (exponent : ℤ) :
    (((RoundingInterval.of mantissa exponent).value *
      (RoundingInterval.of mantissa exponent).num : Nat) : ℚ) =
        (RoundingInterval.of mantissa exponent).den * (mantissa * 2 ^ exponent) := by
  obtain ⟨-, -, hunit⟩ := unit_of mantissa exponent
  have hvalue : (RoundingInterval.of mantissa exponent).value = 4 * mantissa := rfl
  rw [hvalue]
  push_cast
  linear_combination (mantissa : ℚ) * hunit

theorem exists_scale_value (mantissa : Nat) (exponent k : ℤ) :
    ∃ scale : ℚ, 0 < scale ∧
      ((timesTen (RoundingInterval.of mantissa exponent).den
        ((RoundingInterval.of mantissa exponent).value *
          (RoundingInterval.of mantissa exponent).num) k).1 : ℚ) = 10 ^ k * scale ∧
      ((timesTen (RoundingInterval.of mantissa exponent).den
        ((RoundingInterval.of mantissa exponent).value *
          (RoundingInterval.of mantissa exponent).num) k).2 : ℚ) =
            mantissa * 2 ^ exponent * scale := by
  obtain ⟨hden, -⟩ := unit_of mantissa exponent
  obtain ⟨c, hc, hleft, hright⟩ := timesTen_spec (RoundingInterval.of mantissa exponent).den
    ((RoundingInterval.of mantissa exponent).value *
      (RoundingInterval.of mantissa exponent).num) k
  have hdenPos : (0 : ℚ) < (RoundingInterval.of mantissa exponent).den := by exact_mod_cast hden
  refine ⟨(RoundingInterval.of mantissa exponent).den * c, mul_pos hdenPos hc, ?_, ?_⟩
  · rw [hleft]
    ring
  · rw [hright, value_of]
    ring

/-- The number is at least a tenth of its magnitude, and less than that. -/
theorem magnitude_spec (hmantissa : 0 < mantissa) (exponent : ℤ) :
    (10 : ℚ) ^ ((RoundingInterval.of mantissa exponent).magnitude - 1) ≤ mantissa * 2 ^ exponent ∧
      (mantissa : ℚ) * 2 ^ exponent < 10 ^ (RoundingInterval.of mantissa exponent).magnitude := by
  obtain ⟨hden, hnum, -⟩ := unit_of mantissa exponent
  have hpos : 0 < (RoundingInterval.of mantissa exponent).value := Nat.mul_pos (by decide) hmantissa
  obtain ⟨hlow, hhigh⟩ := quotient_bounds (Nat.mul_pos hpos hnum) hden (value_of mantissa exponent)
  rw [magnitude_eq _ _ rfl]
  generalize ((Nat.toDigits 10 _).length : ℤ) - ((Nat.toDigits 10 _).length : ℤ) = guess at *
  obtain ⟨scale, hscale, hleft, hright⟩ := exists_scale_value mantissa exponent guess
  split
  next hless =>
    rw [← Nat.cast_lt (α := ℚ), hleft, hright, mul_lt_mul_iff_of_pos_right hscale] at hless
    exact ⟨hlow, hless⟩
  next hless =>
    rw [← Nat.cast_lt (α := ℚ), hleft, hright, mul_lt_mul_iff_of_pos_right hscale] at hless
    rw [Int.add_sub_cancel]
    exact ⟨not_lt.1 hless, hhigh⟩

theorem holds_of_atLength? {r : RoundingInterval} {count : Nat} {d : ShortDecimal}
    (h : r.atLength? count = some d) : r.holds d.digits d.exponent = true := by
  simp only [atLength?] at h
  split at h
  · rename_i hboth
    rw [Bool.and_eq_true] at hboth
    cases h
    simp only
    split
    · exact hboth.1
    · exact hboth.2
  · split at h
    · cases h
      assumption
    · split at h
      · cases h
        assumption
      · cases h

theorem atLength?_isSome {r : RoundingInterval} {count : Nat} {floor : Nat}
    (hfloor : floor = (timesTen r.den (r.value * r.num) (r.magnitude - count)).2 /
      (timesTen r.den (r.value * r.num) (r.magnitude - count)).1)
    (h : r.holds floor (r.magnitude - count) = true ∨
      r.holds (floor + 1) (r.magnitude - count) = true) : (r.atLength? count).isSome = true := by
  subst hfloor
  simp only [atLength?]
  split
  · rfl
  · split
    · rfl
    · split
      · rfl
      · rename_i hlower hupper
        exact absurd (h.resolve_left hlower) hupper

/-- The steps between decimals of seventeen digits are shorter than the interval reaches down. -/
theorem step_lt_reach (hshort : mantissa < 2 ^ 53) {step : ℚ}
    (hstep : step * 10 ^ 16 ≤ mantissa * 2 ^ exponent) :
    step < 2 * reachDown mantissa exponent * 2 ^ exponent := by
  have hmantissa : (mantissa : ℚ) < 10 ^ 16 * (2 * reachDown mantissa exponent) := by
    rw [reachDown]
    by_cases hpower : mantissa = 2 ^ 52 ∧ minExponent < exponent
    · rw [if_pos hpower, hpower.1]
      norm_num
    · rw [if_neg hpower]
      have : (mantissa : ℚ) < 2 ^ 53 := by exact_mod_cast hshort
      linarith
  have hscaled := mul_lt_mul_of_pos_right hmantissa (zpow_two_pos exponent)
  have hboth : step * 10 ^ 16 <
      2 * reachDown mantissa exponent * 2 ^ exponent * 10 ^ 16 := by linarith
  exact lt_of_mul_lt_mul_right hboth (by norm_num)

/-- A decimal no farther from the number than half a step is rounded to it. -/
theorem roundsTo_of_near (hshort : mantissa < 2 ^ 53) {step q : ℚ}
    (hstep : step * 10 ^ 16 ≤ mantissa * 2 ^ exponent)
    (hlow : mantissa * 2 ^ exponent - step / 2 ≤ q)
    (hhigh : q ≤ mantissa * 2 ^ exponent + step / 2) : RoundsTo mantissa exponent q := by
  have hreach := step_lt_reach hshort hstep
  have hhalf := mul_le_mul_of_nonneg_right (reachDown_le mantissa exponent)
    (le_of_lt (zpow_two_pos exponent))
  have hfrom : ((mantissa : ℚ) - reachDown mantissa exponent) * 2 ^ exponent < q := by linarith
  have hupTo : q < ((mantissa : ℚ) + 1 / 2) * 2 ^ exponent := by linarith
  exact ⟨le_of_lt hfrom, le_of_lt hupTo, fun _ => ⟨hfrom, hupTo⟩⟩

/-- The whole quotient of two numbers lies just below the quotient that they stand for. -/
theorem natDiv_bounds {left right : Nat} {step q scale : ℚ} (hscale : 0 < scale) (hstep : 0 < step)
    (hleft : (left : ℚ) = step * scale) (hright : (right : ℚ) = q * scale) :
    ((right / left : Nat) : ℚ) * step ≤ q ∧ q ≤ ((right / left + 1 : Nat) : ℚ) * step := by
  have hpos : 0 < left := by
    have h : (0 : ℚ) < left := by
      rw [hleft]
      exact mul_pos hstep hscale
    exact_mod_cast h
  constructor
  · have h : ((right / left * left : Nat) : ℚ) ≤ right := by
      exact_mod_cast Nat.div_mul_le_self right left
    rw [Nat.cast_mul, hleft, hright, ← mul_assoc] at h
    exact le_of_mul_le_mul_right h hscale
  · have h : (right : ℚ) ≤ ((right / left + 1) * left : Nat) := by
      have hlt : right < left * (right / left + 1) := Nat.lt_mul_div_succ right hpos
      rw [Nat.mul_comm] at hlt
      exact_mod_cast le_of_lt hlt
    rw [Nat.cast_mul, hleft, hright, ← mul_assoc ((right / left + 1 : Nat) : ℚ)] at h
    exact le_of_mul_le_mul_right h hscale

/-- A decimal of seventeen digits just below or just above the number is rounded to it. -/
theorem atLength?_seventeen (hmantissa : 0 < mantissa) (hshort : mantissa < 2 ^ 53)
    (exponent : ℤ) : ((RoundingInterval.of mantissa exponent).atLength? 17).isSome = true := by
  obtain ⟨hlow, -⟩ := magnitude_spec hmantissa exponent
  refine atLength?_isSome rfl ?_
  rw [holds_iff hmantissa, holds_iff hmantissa]
  have hexp : (RoundingInterval.of mantissa exponent).magnitude - 1 =
      (RoundingInterval.of mantissa exponent).magnitude - (17 : Nat) + 16 := by omega
  rw [hexp, zpow_ten_add] at hlow
  generalize (RoundingInterval.of mantissa exponent).magnitude - (17 : Nat) = k at *
  -- Seventeen digits make the step so small that half of it lies within the rounding interval; the
  -- number lies between two neighbours on that grid, one of which is no farther than that.
  have hstep : (10 : ℚ) ^ k * 10 ^ 16 ≤ mantissa * 2 ^ exponent := by exact_mod_cast hlow
  obtain ⟨scale, hscale, hleft, hright⟩ := exists_scale_value mantissa exponent k
  obtain ⟨hfloor, hceiling⟩ := natDiv_bounds hscale (zpow_ten_pos k) hleft hright
  generalize timesTen _ _ k = sides at *
  push_cast at hceiling ⊢
  rcases le_total ((mantissa : ℚ) * 2 ^ exponent - (sides.2 / sides.1 : Nat) * 10 ^ k) (10 ^ k / 2)
    with hnear | hnear
  · exact Or.inl (roundsTo_of_near hshort hstep (by linarith) (by linarith [zpow_ten_pos k]))
  · exact Or.inr (roundsTo_of_near hshort hstep (by linarith) (by linarith))

/-- The shortest decimal of a positive number is rounded to it. -/
theorem shortest_spec (hmantissa : 0 < mantissa) (hshort : mantissa < 2 ^ 53) (exponent : ℤ) :
    RoundsTo mantissa exponent ((RoundingInterval.of mantissa exponent).shortest.digits *
      10 ^ (RoundingInterval.of mantissa exponent).shortest.exponent) := by
  rw [← holds_iff hmantissa, shortest]
  cases hfound : (List.range 17).findSome? fun n =>
      (RoundingInterval.of mantissa exponent).atLength? (n + 1) with
  | none =>
      have hnone := List.findSome?_eq_none_iff.1 hfound 16 (by decide)
      have hsome := atLength?_seventeen hmantissa hshort exponent
      rw [hnone] at hsome
      cases hsome
  | some d =>
      obtain ⟨n, -, hd⟩ := List.exists_of_findSome?_eq_some hfound
      exact holds_of_atLength? hd

end RoundingInterval
end ProjectLint
