import Mathlib.Algebra.Order.Field.Power
import Mathlib.Algebra.Order.Field.Rat
import Mathlib.Tactic.FieldSimp
import Mathlib.Tactic.Linarith
import Mathlib.Tactic.NormNum
import Mathlib.Tactic.Positivity
import Mathlib.Tactic.Ring
import ProjectLint.Number.Binary64

/-!
Rounding to 64-bit floating-point numbers, against the rational numbers. The mantissa of the nearest
number has 53 bits, or the exponent is the least one, so the unit of the last place is known from
the size of the quotient. Main statement: a quotient that lies between the midpoints to both
neighbours of a number is rounded to that number, and on a midpoint if the mantissa is even.
-/

namespace ProjectLint

/-- A whole number that a quotient is not farther than a half from, and if so even, is where the
quotient is rounded to. -/
theorem roundQuotient_eq {n d m : Nat} (hd : 0 < d) (hlow : 2 * (m * d) ≤ 2 * n + d)
    (hhigh : 2 * n ≤ 2 * (m * d) + d)
    (heven : 2 * (m * d) = 2 * n + d ∨ 2 * n = 2 * (m * d) + d → m % 2 = 0) :
    roundQuotient n d = m := by
  have hsplit := Nat.div_add_mod n d
  have hrest := Nat.mod_lt n hd
  rw [Nat.mul_comm] at hsplit
  have hside : m * d + d ≤ n / d * d ∨ m = n / d ∨ m = n / d + 1 ∨ n / d * d + 2 * d ≤ m * d := by
    rcases Nat.lt_or_ge m (n / d) with h | h
    · have := Nat.mul_le_mul_right d h
      rw [Nat.succ_mul] at this
      omega
    · rcases Nat.lt_or_ge (n / d + 1) m with h | h
      · have := Nat.mul_le_mul_right d h
        rw [Nat.succ_mul, Nat.succ_mul] at this
        omega
      · omega
  have hnext : (n / d + 1) * d = n / d * d + d := Nat.succ_mul _ _
  simp only [roundQuotient]
  rcases hside with h | rfl | rfl | h
  · omega
  · split
    · rfl
    · split
      · omega
      · have := heven (by omega)
        omega
  · rw [hnext] at hlow hhigh heven
    split
    · omega
    · split
      · rfl
      · have := heven (by omega)
        omega
  · omega

/-- A quotient and a unit of it are scaled by the same. -/
theorem scaleQuotient_spec (num : Nat) {den : Nat} (hden : 0 < den) (exponent : Int) :
    ∃ scale : ℚ, 0 < scale ∧
      ((scaleQuotient num den exponent).1 : ℚ) = (num : ℚ) / den * scale ∧
      ((scaleQuotient num den exponent).2 : ℚ) = 2 ^ exponent * scale := by
  have hdenPos : (0 : ℚ) < den := by exact_mod_cast hden
  cases exponent with
  | ofNat n =>
      refine ⟨den, hdenPos, ?_, ?_⟩
      · rw [div_mul_cancel₀ _ (ne_of_gt hdenPos)]
        rfl
      · simp [scaleQuotient, mul_comm]
  | negSucc n =>
      refine ⟨den * 2 ^ (n + 1), by positivity, ?_, ?_⟩
      · rw [← mul_assoc, div_mul_cancel₀ _ (ne_of_gt hdenPos)]
        simp [scaleQuotient]
      · rw [zpow_negSucc, mul_left_comm, inv_mul_cancel₀ (by positivity), mul_one]
        rfl

theorem scaleQuotient_pos (num : Nat) {den : Nat} (hden : 0 < den) (exponent : Int) :
    0 < (scaleQuotient num den exponent).2 := by
  cases exponent with
  | ofNat n => exact Nat.mul_pos hden (Nat.two_pow_pos n)
  | negSucc n => exact hden

theorem scaleQuotient_lt_iff (num : Nat) {den : Nat} (hden : 0 < den) (exponent : Int) (k : Nat) :
    (scaleQuotient num den exponent).1 < k * (scaleQuotient num den exponent).2 ↔
      (num : ℚ) / den < k * 2 ^ exponent := by
  obtain ⟨scale, hscale, hn, hd⟩ := scaleQuotient_spec num hden exponent
  rw [← Nat.cast_lt (α := ℚ), Nat.cast_mul, hn, hd, ← mul_assoc,
    mul_lt_mul_iff_of_pos_right hscale]

namespace Binary64

/-- The exponent with which a positive quotient has a mantissa of 53 bits. -/
def unitExponent (num den : Nat) : Int :=
  let guess : Int := (num.log2 : Int) - (den.log2 : Int) - 52
  let (n, d) := scaleQuotient num den guess
  if n < 2 ^ 52 * d then guess - 1 else guess

theorem ofQuotient_eq_round (negative : Bool) (num den : Nat) :
    ofQuotient negative num den =
      let exponent := max minExponent (unitExponent num den)
      let scaled := scaleQuotient num den exponent
      let mantissa := roundQuotient scaled.1 scaled.2
      if mantissa = 2 ^ 53 then
        if maxExponent < exponent + 1 then .infinite negative
        else .finite negative (2 ^ 52) (exponent + 1)
      else if maxExponent < exponent then .infinite negative
      else .finite negative mantissa exponent := by
  have hunfold : ofQuotient negative num den =
      let exponent := max minExponent (unitExponent num den)
      let scaled := scaleQuotient num den exponent
      let mantissa := roundQuotient scaled.1 scaled.2
      let carried := if mantissa = 2 ^ 53 then (2 ^ 52, exponent + 1) else (mantissa, exponent)
      if maxExponent < carried.2 then .infinite negative
      else .finite negative carried.1 carried.2 := rfl
  rw [hunfold]
  simp only
  split <;> rfl

theorem log2_bounds {n : Nat} (hn : 0 < n) :
    (2 : ℚ) ^ (n.log2 : ℤ) ≤ n ∧ (n : ℚ) < 2 ^ ((n.log2 : ℤ) + 1) := by
  constructor
  · rw [zpow_natCast]
    exact_mod_cast Nat.log2_self_le (Nat.pos_iff_ne_zero.1 hn)
  · have hlt : (n : ℚ) < 2 ^ (n.log2 + 1) := by
      exact_mod_cast Nat.lt_log2_self (n := n)
    exact_mod_cast hlt

theorem zpow_two_add (a b : ℤ) : (2 : ℚ) ^ (a + b) = 2 ^ a * 2 ^ b :=
  zpow_add₀ (by norm_num) a b

theorem zpow_two_pos (e : ℤ) : (0 : ℚ) < 2 ^ e := by
  positivity

theorem zpow_two_add_ofNat (a : ℤ) (n : Nat) : (2 : ℚ) ^ (a + n) = (2 ^ n : Nat) * 2 ^ a := by
  rw [zpow_two_add, zpow_natCast, mul_comm, Nat.cast_pow, Nat.cast_ofNat]

/-- How many bits two numbers have tells their quotient up to a factor of two. -/
theorem quotient_bounds_log2 {num den : Nat} (hnum : 0 < num) (hden : 0 < den) :
    (2 : ℚ) ^ ((num.log2 : ℤ) - den.log2 - 1) ≤ (num : ℚ) / den ∧
      (num : ℚ) / den < 2 ^ ((num.log2 : ℤ) - den.log2 + 1) := by
  obtain ⟨hnumLow, hnumHigh⟩ := log2_bounds hnum
  obtain ⟨hdenLow, hdenHigh⟩ := log2_bounds hden
  have hdenPos : (0 : ℚ) < den := by exact_mod_cast hden
  constructor
  · rw [le_div_iff₀ hdenPos]
    have hexp : (num.log2 : ℤ) = ((num.log2 : ℤ) - den.log2 - 1) + (den.log2 + 1) := by omega
    rw [hexp, zpow_two_add] at hnumLow
    have hpos := zpow_two_pos ((num.log2 : ℤ) - den.log2 - 1)
    nlinarith
  · rw [div_lt_iff₀ hdenPos]
    have hexp : (num.log2 : ℤ) + 1 = ((num.log2 : ℤ) - den.log2 + 1) + den.log2 := by omega
    rw [hexp, zpow_two_add] at hnumHigh
    have hpos := zpow_two_pos ((num.log2 : ℤ) - den.log2 + 1)
    nlinarith

theorem unitExponent_spec {num den : Nat} (hnum : 0 < num) (hden : 0 < den) :
    (2 : ℚ) ^ (unitExponent num den + 52) ≤ (num : ℚ) / den ∧
      (num : ℚ) / den < 2 ^ (unitExponent num den + 53) := by
  obtain ⟨hlow, hhigh⟩ := quotient_bounds_log2 hnum hden
  obtain ⟨guess, hguess⟩ : ∃ guess : ℤ, guess = (num.log2 : ℤ) - den.log2 - 52 := ⟨_, rfl⟩
  have hlowExp : (num.log2 : ℤ) - den.log2 - 1 = guess - 1 + 52 := by omega
  have hhighExp : (num.log2 : ℤ) - den.log2 + 1 = guess + 53 := by omega
  have hunit : unitExponent num den =
      if (scaleQuotient num den guess).1 < 2 ^ 52 * (scaleQuotient num den guess).2 then guess - 1
      else guess := by
    rw [hguess]
    rfl
  have htest := scaleQuotient_lt_iff num hden guess (2 ^ 52)
  rw [← zpow_two_add_ofNat] at htest
  rw [hlowExp] at hlow
  rw [hhighExp] at hhigh
  rw [hunit]
  split
  next hsmall =>
    have hexp : guess - 1 + 53 = guess + 52 := by omega
    rw [hexp]
    exact ⟨hlow, htest.1 hsmall⟩
  next hsmall => exact ⟨not_lt.1 fun h => hsmall (htest.2 h), hhigh⟩

/-- Only one exponent gives a quotient a mantissa of 53 bits. -/
theorem unitExponent_eq {num den : Nat} (hnum : 0 < num) (hden : 0 < den) {exponent : ℤ}
    (hlow : (2 : ℚ) ^ (exponent + 52) ≤ (num : ℚ) / den)
    (hhigh : (num : ℚ) / den < 2 ^ (exponent + 53)) : unitExponent num den = exponent := by
  obtain ⟨hunitLow, hunitHigh⟩ := unitExponent_spec hnum hden
  have h1 := (zpow_lt_zpow_iff_right₀ (by norm_num : (1 : ℚ) < 2)).1 (lt_of_le_of_lt hlow hunitHigh)
  have h2 := (zpow_lt_zpow_iff_right₀ (by norm_num : (1 : ℚ) < 2)).1 (lt_of_le_of_lt hunitLow hhigh)
  omega

theorem unitExponent_le {num den : Nat} (hnum : 0 < num) (hden : 0 < den) {exponent : ℤ}
    (hhigh : (num : ℚ) / den < 2 ^ (exponent + 53)) : unitExponent num den ≤ exponent := by
  obtain ⟨hunitLow, -⟩ := unitExponent_spec hnum hden
  have h := (zpow_lt_zpow_iff_right₀ (by norm_num : (1 : ℚ) < 2)).1 (lt_of_le_of_lt hunitLow hhigh)
  omega

/-- A whole number times a power of two that a quotient is not farther than half a unit from, and if
so even, is what the quotient is rounded to at that exponent. -/
theorem roundQuotient_scaleQuotient {num den m : Nat} (hden : 0 < den) {exponent : ℤ}
    (hlow : ((m : ℚ) - 1 / 2) * 2 ^ exponent ≤ (num : ℚ) / den)
    (hhigh : (num : ℚ) / den ≤ ((m : ℚ) + 1 / 2) * 2 ^ exponent)
    (hodd : m % 2 = 1 → ((m : ℚ) - 1 / 2) * 2 ^ exponent < (num : ℚ) / den ∧
      (num : ℚ) / den < ((m : ℚ) + 1 / 2) * 2 ^ exponent) :
    roundQuotient (scaleQuotient num den exponent).1 (scaleQuotient num den exponent).2 = m := by
  have hpos := scaleQuotient_pos num hden exponent
  obtain ⟨scale, hscale, hn, hd⟩ := scaleQuotient_spec num hden exponent
  generalize scaleQuotient num den exponent = scaled at hpos hn hd ⊢
  generalize (num : ℚ) / den = q at hlow hhigh hodd hn
  obtain ⟨n, d⟩ := scaled
  simp only at hpos hn hd ⊢
  have hfrom : 2 * (m * d) ≤ 2 * n + d := by
    have h := mul_le_mul_of_nonneg_right hlow (le_of_lt hscale)
    rw [← Nat.cast_le (α := ℚ)]
    push_cast
    rw [hn, hd]
    linarith
  have hupTo : 2 * n ≤ 2 * (m * d) + d := by
    have h := mul_le_mul_of_nonneg_right hhigh (le_of_lt hscale)
    rw [← Nat.cast_le (α := ℚ)]
    push_cast
    rw [hn, hd]
    linarith
  refine roundQuotient_eq hpos hfrom hupTo fun htie => ?_
  apply Classical.byContradiction
  intro hnot
  obtain ⟨hlt, hgt⟩ := hodd (by omega)
  have hfromStrict : 2 * (m * d) < 2 * n + d := by
    have h := mul_lt_mul_of_pos_right hlt hscale
    rw [← Nat.cast_lt (α := ℚ)]
    push_cast
    rw [hn, hd]
    linarith
  have hupToStrict : 2 * n < 2 * (m * d) + d := by
    have h := mul_lt_mul_of_pos_right hgt hscale
    rw [← Nat.cast_lt (α := ℚ)]
    push_cast
    rw [hn, hd]
    linarith
  omega

/-- Whether a mantissa and an exponent are those of a finite number: the mantissa has 53 bits, or
fewer at the least exponent. -/
structure Canonical (mantissa : Nat) (exponent : Int) : Prop where
  short : mantissa < 2 ^ 53
  least : minExponent ≤ exponent
  greatest : exponent ≤ maxExponent
  full : 2 ^ 52 ≤ mantissa ∨ exponent = minExponent

/-- How far down the numbers reach that are rounded to a number, in units of its last place. -/
def reachDown (mantissa : Nat) (exponent : Int) : ℚ :=
  if mantissa = 2 ^ 52 ∧ minExponent < exponent then 1 / 4 else 1 / 2

/-- Whether a quotient lies between the midpoints to the neighbours of a number, or on one of them
if the mantissa is even. -/
structure RoundsTo (mantissa : Nat) (exponent : Int) (q : ℚ) : Prop where
  low : ((mantissa : ℚ) - reachDown mantissa exponent) * 2 ^ exponent ≤ q
  high : q ≤ ((mantissa : ℚ) + 1 / 2) * 2 ^ exponent
  odd : mantissa % 2 = 1 →
    ((mantissa : ℚ) - reachDown mantissa exponent) * 2 ^ exponent < q ∧
      q < ((mantissa : ℚ) + 1 / 2) * 2 ^ exponent

theorem reachDown_le (mantissa : Nat) (exponent : Int) : reachDown mantissa exponent ≤ 1 / 2 := by
  rw [reachDown]
  split <;> norm_num

/-- Below a power of two the quotient is rounded up to it, with the unit of the numbers below. -/
theorem roundQuotient_below_power {num den : Nat} (hnum : 0 < num) (hden : 0 < den)
    {exponent : ℤ} (hround : RoundsTo (2 ^ 52) exponent ((num : ℚ) / den))
    (hleast : minExponent < exponent) (hbelow : (num : ℚ) / den < 2 ^ (exponent + 52)) :
    unitExponent num den = exponent - 1 ∧
      roundQuotient (scaleQuotient num den (exponent - 1)).1
        (scaleQuotient num den (exponent - 1)).2 = 2 ^ 53 := by
  have hlow := hround.low
  rw [reachDown, if_pos ⟨rfl, hleast⟩] at hlow
  have hunit := zpow_two_pos (exponent - 1)
  have hdouble : (2 : ℚ) ^ exponent = 2 ^ (exponent - 1) * 2 := by
    have h := zpow_two_add (exponent - 1) 1
    rw [Int.sub_add_cancel] at h
    simpa using h
  have hhalf : (2 : ℚ) ^ (exponent + 52) = 2 ^ (exponent - 1) * 2 ^ 53 := by
    have h := zpow_two_add (exponent - 1) 53
    rw [show exponent - 1 + 53 = exponent + 52 by omega] at h
    exact_mod_cast h
  rw [hdouble] at hlow
  rw [hhalf] at hbelow
  push_cast at hlow
  refine ⟨unitExponent_eq hnum hden ?_ ?_, roundQuotient_scaleQuotient hden ?_ ?_ ?_⟩
  · rw [zpow_two_add]
    norm_num at hlow ⊢
    linarith
  · rw [zpow_two_add]
    norm_num at hbelow ⊢
    linarith
  · push_cast
    linarith
  · push_cast
    linarith
  · intro hodd
    norm_num at hodd

/-- The exponent of the last place is that of the number, unless the quotient lies just below a
power of two. -/
theorem max_unitExponent {num den mantissa : Nat} (hnum : 0 < num) (hden : 0 < den)
    {exponent : ℤ} (hcanonical : Canonical mantissa exponent)
    (hround : RoundsTo mantissa exponent ((num : ℚ) / den))
    (habove : mantissa = 2 ^ 52 → minExponent < exponent → (2 : ℚ) ^ (exponent + 52) ≤ num / den) :
    max minExponent (unitExponent num den) = exponent := by
  have hunit := zpow_two_pos exponent
  have hshort : (mantissa : ℚ) + 1 ≤ 2 ^ 53 := by
    exact_mod_cast hcanonical.short
  have hhigh : (num : ℚ) / den < 2 ^ (exponent + 53) := by
    refine lt_of_le_of_lt hround.high ?_
    rw [zpow_two_add, mul_comm ((2 : ℚ) ^ exponent)]
    refine mul_lt_mul_of_pos_right ?_ hunit
    norm_num at hshort ⊢
    linarith
  rcases lt_or_eq_of_le hcanonical.least with hleast | hleast
  · have hfull : (2 : ℚ) ^ (exponent + 52) ≤ num / den := by
      rcases Nat.eq_or_lt_of_le (hcanonical.full.resolve_right (by omega)) with heq | hgt
      · exact habove heq.symm hleast
      · have hmantissa : (2 : ℚ) ^ 52 + 1 ≤ mantissa := by exact_mod_cast hgt
        have hreach := reachDown_le mantissa exponent
        refine le_trans ?_ hround.low
        rw [zpow_two_add, mul_comm ((2 : ℚ) ^ exponent)]
        refine mul_le_mul_of_nonneg_right ?_ (le_of_lt hunit)
        have hpower : (2 : ℚ) ^ (52 : ℤ) = 2 ^ 52 := by norm_num
        rw [hpower]
        linarith
    rw [unitExponent_eq hnum hden hfull hhigh]
    exact max_eq_right hcanonical.least
  · have hle := unitExponent_le hnum hden hhigh
    rw [← hleast] at hle ⊢
    exact max_eq_left hle

/-- A quotient between the midpoints to the neighbours of a number is rounded to that number. -/
theorem ofQuotient_eq {num den mantissa : Nat} (hnum : 0 < num) (hden : 0 < den) {exponent : ℤ}
    (hcanonical : Canonical mantissa exponent)
    (hround : RoundsTo mantissa exponent ((num : ℚ) / den)) (negative : Bool) :
    ofQuotient negative num den = .finite negative mantissa exponent := by
  rw [ofQuotient_eq_round]
  by_cases hpower : mantissa = 2 ^ 52 ∧ minExponent < exponent ∧
      (num : ℚ) / den < 2 ^ (exponent + 52)
  · obtain ⟨rfl, hleast, hbelow⟩ := hpower
    obtain ⟨hunit, hmantissa⟩ := roundQuotient_below_power hnum hden hround hleast hbelow
    have hmax : max minExponent (unitExponent num den) = exponent - 1 := by
      rw [hunit]
      omega
    have hgreatest := hcanonical.greatest
    simp only [hmax, hmantissa, if_true, Int.sub_add_cancel]
    rw [if_neg (by omega)]
  · have hmax := max_unitExponent hnum hden hcanonical hround fun hmantissa hleast =>
      not_lt.1 fun hbelow => hpower ⟨hmantissa, hleast, hbelow⟩
    have hunit := zpow_two_pos exponent
    have hreach := reachDown_le mantissa exponent
    have hlower : ((mantissa : ℚ) - 1 / 2) * 2 ^ exponent ≤
        ((mantissa : ℚ) - reachDown mantissa exponent) * 2 ^ exponent :=
      mul_le_mul_of_nonneg_right (by linarith) (le_of_lt hunit)
    have hmantissa : roundQuotient (scaleQuotient num den exponent).1
        (scaleQuotient num den exponent).2 = mantissa := by
      refine roundQuotient_scaleQuotient hden (le_trans hlower hround.low) hround.high ?_
      intro hodd
      exact ⟨lt_of_le_of_lt hlower (hround.odd hodd).1, (hround.odd hodd).2⟩
    have hshort := hcanonical.short
    have hgreatest := hcanonical.greatest
    simp only [hmax, hmantissa]
    rw [if_neg (by omega), if_neg (by omega)]

/-- Whether a floating-point number is one that something can be rounded to. -/
def IsCanonical : Binary64 → Prop
  | .nan | .infinite _ => True
  | .finite _ mantissa exponent => Canonical mantissa exponent

theorem roundQuotient_le {n d k : Nat} (hd : 0 < d) (h : n < k * d) : roundQuotient n d ≤ k := by
  have hfloor : n / d < k := (Nat.div_lt_iff_lt_mul hd).2 h
  simp only [roundQuotient]
  split
  · omega
  · split <;> omega

theorem le_roundQuotient {n d k : Nat} (hd : 0 < d) (h : k * d ≤ n) : k ≤ roundQuotient n d := by
  have hfloor : k ≤ n / d := (Nat.le_div_iff_mul_le hd).2 h
  simp only [roundQuotient]
  split
  · omega
  · split <;> omega

/-- At the exponent of its last place a quotient is rounded to 53 bits, or to the next power of two;
only at the least exponent to fewer bits. -/
theorem roundQuotient_bounds {num den : Nat} (hnum : 0 < num) (hden : 0 < den) {exponent : Int}
    (hexponent : exponent = max minExponent (unitExponent num den)) :
    roundQuotient (scaleQuotient num den exponent).1 (scaleQuotient num den exponent).2 ≤ 2 ^ 53 ∧
      (2 ^ 52 ≤ roundQuotient (scaleQuotient num den exponent).1
          (scaleQuotient num den exponent).2 ∨ exponent = minExponent) := by
  obtain ⟨hlow, hhigh⟩ := unitExponent_spec hnum hden
  have hpos := scaleQuotient_pos num hden exponent
  constructor
  · refine roundQuotient_le hpos ((scaleQuotient_lt_iff num hden exponent _).2 ?_)
    rw [← zpow_two_add_ofNat]
    exact lt_of_lt_of_le hhigh (zpow_le_zpow_right₀ (by norm_num) (by omega))
  · rcases max_choice minExponent (unitExponent num den) with hmax | hmax
    · exact Or.inr (hexponent.trans hmax)
    · refine Or.inl (le_roundQuotient hpos ?_)
      rw [← not_lt, scaleQuotient_lt_iff num hden, ← zpow_two_add_ofNat, hexponent, hmax]
      exact not_lt.2 hlow

theorem isCanonical_ofQuotient (negative : Bool) {num den : Nat} (hnum : 0 < num)
    (hden : 0 < den) : (ofQuotient negative num den).IsCanonical := by
  rw [ofQuotient_eq_round]
  obtain ⟨exponent, hexponent⟩ : ∃ exponent, exponent = max minExponent (unitExponent num den) :=
    ⟨_, rfl⟩
  obtain ⟨hle, hfull⟩ := roundQuotient_bounds hnum hden hexponent
  have hleast : minExponent ≤ exponent := by
    rw [hexponent]
    exact le_max_left _ _
  simp only [← hexponent]
  generalize roundQuotient _ _ = mantissa at hle hfull ⊢
  by_cases hcarry : mantissa = 2 ^ 53
  · rw [if_pos hcarry]
    split
    · trivial
    · exact ⟨by decide, by omega, by omega, Or.inl (Nat.le_refl _)⟩
  · rw [if_neg hcarry]
    split
    · trivial
    · exact ⟨by omega, hleast, by omega, hfull⟩

theorem isCanonical_ofDecimal (negative : Bool) (digits count : Nat) (exponent : Int) :
    (ofDecimal negative digits count exponent).IsCanonical := by
  have hzero : Canonical 0 minExponent := ⟨by decide, by decide, by decide, Or.inr rfl⟩
  rw [ofDecimal.eq_def]
  by_cases hdigits : digits = 0
  · rw [if_pos hdigits]
    exact hzero
  · rw [if_neg hdigits]
    split
    · trivial
    · split
      · exact hzero
      · have hpos := Nat.pos_of_ne_zero hdigits
        cases exponent with
        | ofNat n =>
            exact isCanonical_ofQuotient negative (Nat.mul_pos hpos (Nat.pow_pos (by decide)))
              (by decide)
        | negSucc n => exact isCanonical_ofQuotient negative hpos (Nat.pow_pos (by decide))

end Binary64
end ProjectLint
