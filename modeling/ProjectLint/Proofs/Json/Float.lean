import Mathlib.Data.List.TakeWhile
import ProjectLint.Json.Printer
import ProjectLint.Proofs.Json.Numeral
import ProjectLint.Proofs.Number.Shortest

/-!
Floating-point numbers in a document. In every layout the digits that are written stand for the
shortest decimal of the number, so the number itself is read again. Main statement: a canonical
number is read back from its text.
-/

namespace ProjectLint

theorem dropFinalZeros_append (t : Text) :
    ∃ n, t = dropFinalZeros t ++ List.replicate n (.scalar '0') := by
  have hzeros : ∀ c ∈ t.reverse.takeWhile (· == .scalar '0'), c = .scalar '0' := by
    intro c hc
    simpa using List.mem_takeWhile_imp hc
  refine ⟨(t.reverse.takeWhile (· == .scalar '0')).length, ?_⟩
  have hsplit : t.reverse = t.reverse.takeWhile (· == .scalar '0') ++
      t.reverse.dropWhile (· == .scalar '0') := List.takeWhile_append_dropWhile.symm
  have hback := congrArg List.reverse hsplit
  rw [List.reverse_reverse, List.reverse_append, List.eq_replicate_of_mem hzeros,
    List.reverse_replicate] at hback
  exact hback

/-- The digits of a positive decimal: they start with no zero, and zeros may follow. -/
theorem digits_of_pos {n : Nat} (hn : 0 < n) :
    ∃ c digits zeros, dropFinalZeros (decimal n) = c :: digits ∧ c ≠ .scalar '0' ∧
      IsDigits (c :: digits) ∧ (decimal n).length = digits.length + 1 + zeros ∧
        n = readDecimal (c :: digits) * 10 ^ zeros := by
  obtain ⟨zeros, hall⟩ := dropFinalZeros_append (decimal n)
  have hhead := head?_decimal hn
  have hdigits := isDigits_decimal n
  have hread := readDecimal_decimal n
  have hne := decimal_ne_nil n
  cases hkept : dropFinalZeros (decimal n) with
  | nil =>
      rw [hkept, List.nil_append] at hall
      cases zeros with
      | zero => exact absurd hall hne
      | succ zeros =>
          rw [hall] at hhead
          exact absurd rfl hhead
  | cons c digits =>
      rw [hkept] at hall
      rw [hall] at hhead hdigits hread
      refine ⟨c, digits, zeros, rfl, fun hc => hhead (by rw [hc]; rfl),
        (isDigits_append.1 hdigits).1, ?_, ?_⟩
      · rw [hall, List.length_append, List.length_replicate, List.length_cons]
      · rw [readDecimal_append, readDecimal_replicate_zero, List.length_replicate] at hread
        omega

theorem dropWhile_zero_append (n : Nat) {c : CodePoint} (hc : c ≠ .scalar '0') (t : Text) :
    (List.replicate n (CodePoint.scalar '0') ++ c :: t).dropWhile (· == .scalar '0') = c :: t := by
  induction n with
  | zero => simp [hc]
  | succ n ih => simp [List.replicate_succ, ih]

namespace Json.Numeral

/-- Whether the digits of a number stand for a decimal: they start with no zero, and there is a
fraction or an exponent. -/
structure Spells (n : Numeral) (q : ℚ) : Prop where
  valid : n.Valid
  float : n.fraction.isNone = true → n.exponent.isNone = false
  head : ∃ c digits, n.digits = c :: digits ∧ c ≠ .scalar '0' ∧ IsDigits (c :: digits)
  value : (readDecimal n.digits : ℚ) * 10 ^ n.scale = q

section

variable {c : CodePoint} {digits : Text} (hc : c ≠ .scalar '0') (hdigits : IsDigits (c :: digits))
  {scientific : Int}

include hc hdigits in
/-- A number below one: zeros stand between the point and the digits. -/
theorem spells_small (hscientific : scientific < 0) :
    Spells ⟨[.scalar '0'],
        some (List.replicate (scientific.natAbs - 1) (.scalar '0') ++ c :: digits), none⟩
      (readDecimal (c :: digits) * 10 ^ (scientific - digits.length)) := by
  have hkept : Numeral.digits ⟨[.scalar '0'],
      some (List.replicate (scientific.natAbs - 1) (.scalar '0') ++ c :: digits), none⟩ =
        c :: digits :=
    dropWhile_zero_append (scientific.natAbs - 1 + 1) hc digits
  refine ⟨⟨Or.inl rfl, ?_, by simp⟩, by simp, ⟨c, digits, hkept, hc, hdigits⟩, ?_⟩
  · rintro fraction ⟨⟩
    exact ⟨isDigits_append.2 ⟨isDigits_replicate_zero _, hdigits⟩, by simp⟩
  · rw [hkept]
    congr 2
    simp only [scale, power, Option.getD_none, Option.getD_some, List.length_append,
      List.length_replicate, List.length_cons]
    omega

include hc in
/-- A point somewhere among the digits of a number, after the first of them. -/
theorem spells_point (front fraction : Text) (hall : IsDigits (c :: front ++ fraction))
    (hne : fraction ≠ []) :
    Spells ⟨c :: front, some fraction, none⟩
      (readDecimal (c :: front ++ fraction) * 10 ^ (-(fraction.length : Int))) := by
  obtain ⟨hfront, hfraction⟩ := isDigits_append.1 hall
  have hkept : Numeral.digits ⟨c :: front, some fraction, none⟩ = c :: front ++ fraction :=
    dropWhile_zero_append 0 hc (front ++ fraction)
  refine ⟨⟨Or.inr ⟨c, front, rfl, hc, hfront⟩, ?_, by simp⟩, by simp,
    ⟨c, front ++ fraction, hkept, hc, hall⟩, ?_⟩
  · rintro other ⟨⟩
    exact ⟨hfraction, hne⟩
  · rw [hkept]
    congr 2
    simp [scale, power]

include hc hdigits in
/-- A number from one on in positional notation. -/
theorem spells_positional (hscientific : 0 ≤ scientific) {whole : Nat}
    (hwhole : whole = scientific.toNat + 1) :
    Spells ⟨(c :: digits).take whole ++
          List.replicate (whole - (c :: digits).length) (.scalar '0'),
        some (if ((c :: digits).drop whole).isEmpty then [.scalar '0']
          else (c :: digits).drop whole), none⟩
      (readDecimal (c :: digits) * 10 ^ (scientific - digits.length)) := by
  by_cases hlong : whole < (c :: digits).length
  · -- The point stands among the digits.
    have hzeros : whole - (c :: digits).length = 0 := by omega
    have htake : (c :: digits).take whole = c :: digits.take scientific.toNat := by
      rw [hwhole, List.take_succ_cons]
    have hall : c :: digits.take scientific.toNat ++ (c :: digits).drop whole = c :: digits := by
      rw [← htake, List.take_append_drop]
    have hpoint := spells_point hc (digits.take scientific.toNat) ((c :: digits).drop whole)
      (by rwa [hall]) (by simpa using hlong)
    have hpower : -(((c :: digits).drop whole).length : Int) = scientific - digits.length := by
      simp only [List.length_drop, List.length_cons] at hlong ⊢
      omega
    rw [hall, hpower] at hpoint
    rwa [if_neg (by simpa using hlong), hzeros, List.replicate_zero, List.append_nil, htake]
  · -- The point comes after the digits and zeros, with one more zero behind it.
    have hdrop : (c :: digits).drop whole = [] := by
      simpa using hlong
    have htake : (c :: digits).take whole = c :: digits := List.take_of_length_le (by omega)
    have hall : c :: (digits ++ List.replicate (whole - (c :: digits).length) (.scalar '0')) ++
        [.scalar '0'] = (c :: digits) ++ List.replicate (whole - digits.length) (.scalar '0') := by
      rw [List.cons_append, List.append_assoc, ← List.replicate_succ', List.cons_append]
      congr 3
      simp only [List.length_cons] at hlong ⊢
      omega
    have hpoint := spells_point hc
      (digits ++ List.replicate (whole - (c :: digits).length) (.scalar '0')) [.scalar '0']
      (by rw [hall]; exact isDigits_append.2 ⟨hdigits, isDigits_replicate_zero _⟩) (by simp)
    have hvalue : (readDecimal ((c :: digits) ++
        List.replicate (whole - digits.length) (.scalar '0')) : ℚ) *
          10 ^ (-(([.scalar '0'] : Text).length : Int)) =
            readDecimal (c :: digits) * 10 ^ (scientific - digits.length) := by
      rw [readDecimal_append, readDecimal_replicate_zero, List.length_replicate]
      push_cast
      rw [add_zero, mul_assoc, ← zpow_natCast, ← zpow_ten_add]
      congr 2
      simp only [List.length_cons, List.length_nil] at hlong ⊢
      omega
    rw [hall, hvalue] at hpoint
    rwa [hdrop, htake, List.cons_append]

include hc hdigits in
/-- A number with an exponent. -/
theorem spells_scientific (padding : Nat) :
    Spells ⟨(c :: digits).take 1,
        if (c :: digits).length ≤ 1 then none else some ((c :: digits).drop 1),
        some (decide (scientific < 0),
          List.replicate padding (.scalar '0') ++ decimal scientific.natAbs)⟩
      (readDecimal (c :: digits) * 10 ^ (scientific - digits.length)) := by
  have hfraction : (if (c :: digits).length ≤ 1 then none else some ((c :: digits).drop 1)) =
      if digits = [] then none else some digits := by
    cases digits <;> simp
  have hgetD : (if digits = [] then none else some digits).getD [] = digits := by
    split
    · rename_i hnil
      rw [hnil]
      rfl
    · rfl
  rw [hfraction]
  have hkept : Numeral.digits ⟨(c :: digits).take 1, if digits = [] then none else some digits,
      some (decide (scientific < 0),
        List.replicate padding (.scalar '0') ++ decimal scientific.natAbs)⟩ = c :: digits := by
    simp only [Numeral.digits, hgetD]
    exact dropWhile_zero_append 0 hc digits
  have hpower : power (some (decide (scientific < 0),
      List.replicate padding (.scalar '0') ++ decimal scientific.natAbs)) = some scientific := by
    rw [power, readDecimal_append, readDecimal_replicate_zero, Nat.zero_mul, Nat.zero_add,
      readDecimal_decimal]
    congr 1
    by_cases hneg : scientific < 0
    · rw [if_pos (by simpa using hneg)]
      omega
    · rw [if_neg (by simpa using hneg)]
      omega
  refine ⟨⟨Or.inr ⟨c, [], rfl, hc, fun d hd => hdigits d ?_⟩, ?_, ?_⟩, by simp,
    ⟨c, digits, hkept, hc, hdigits⟩, ?_⟩
  · rw [List.mem_singleton.1 hd]
    simp
  · intro fraction hsome
    simp only [Option.ite_none_left_eq_some, Option.some.injEq] at hsome
    obtain ⟨hne, rfl⟩ := hsome
    exact ⟨fun d hd => hdigits d (List.mem_cons_of_mem _ hd), hne⟩
  · rintro size ⟨⟩
    refine ⟨isDigits_append.2 ⟨isDigits_replicate_zero _, isDigits_decimal _⟩, ?_⟩
    simp [decimal_ne_nil]
  · rw [hkept]
    congr 2
    simp only [scale, hpower, hgetD, Option.getD_some]

end

/-- What the standard layout writes for a positive decimal. -/
theorem exists_spells_write {d : ShortDecimal} (hd : 0 < d.digits) :
    ∃ n : Numeral, n.Spells (d.digits * 10 ^ d.exponent) ∧
      DecimalLayout.standard.write d = n.text := by
  obtain ⟨c, digits, zeros, hkept, hc, hdigits, hlength, hvalue⟩ := digits_of_pos hd
  have hscientific : ∃ scientific : Int,
      scientific = ((decimal d.digits).length : Int) - 1 + d.exponent := ⟨_, rfl⟩
  obtain ⟨scientific, hscientific⟩ := hscientific
  have hsame : (d.digits : ℚ) * 10 ^ d.exponent =
      readDecimal (c :: digits) * 10 ^ (scientific - digits.length) := by
    rw [hvalue]
    push_cast
    rw [mul_assoc, ← zpow_natCast, ← zpow_ten_add]
    congr 2
    omega
  rw [hsame]
  simp only [DecimalLayout.write, hkept, ← hscientific]
  by_cases hpositional : (DecimalLayout.standard.least ≤ scientific &&
      scientific < DecimalLayout.standard.most) = true
  · rw [if_pos (by simpa using hpositional)]
    by_cases hsmall : scientific < 0
    · refine ⟨_, spells_small hc hdigits hsmall, ?_⟩
      rw [if_pos hsmall]
      simp [text, fractionText, exponentText, Text.ofString]
    · refine ⟨_, spells_positional hc hdigits (Int.not_lt.1 hsmall) rfl, ?_⟩
      rw [if_neg hsmall]
      simp [text, fractionText, exponentText]
  · rw [if_neg (by simpa using hpositional)]
    refine ⟨_, spells_scientific hc hdigits
      (DecimalLayout.standard.exponentDigits - (decimal scientific.natAbs).length), ?_⟩
    by_cases hneg : scientific < 0
    · by_cases hlong : (c :: digits).length ≤ 1
      · simp only [if_pos hneg, if_pos hlong, text, fractionText, exponentText, decide_eq_true hneg]
        simp
      · simp only [if_pos hneg, if_neg hlong, text, fractionText, exponentText, decide_eq_true hneg]
        simp
    · by_cases hlong : (c :: digits).length ≤ 1
      · simp only [if_neg hneg, if_pos hlong, text, fractionText, exponentText,
          decide_eq_false hneg]
        simp
      · simp only [if_neg hneg, if_neg hlong, text, fractionText, exponentText,
          decide_eq_false hneg]
        simp

end Json.Numeral
namespace Binary64

theorem RoundsTo.bounds {mantissa : Nat} {exponent : ℤ} (hmantissa : 0 < mantissa)
    (hcanonical : Canonical mantissa exponent) {q : ℚ} (h : RoundsTo mantissa exponent q) :
    (10 : ℚ) ^ (-331 : ℤ) < q ∧ q < 10 ^ (310 : ℤ) := by
  have hunit := zpow_two_pos exponent
  constructor
  · have hreach := reachDown_le mantissa exponent
    have hone : (1 : ℚ) ≤ mantissa := by exact_mod_cast hmantissa
    have hleast : (2 : ℚ) ^ (-1074 : ℤ) ≤ 2 ^ exponent :=
      zpow_le_zpow_right₀ (by norm_num) hcanonical.least
    have hlow : (1 / 2 : ℚ) * 2 ^ exponent ≤ q :=
      le_trans (mul_le_mul_of_nonneg_right (by linarith) (le_of_lt hunit)) h.low
    have hpowers : 2 ^ 1075 < 10 ^ 331 := by decide +kernel
    have hsmall : (10 : ℚ) ^ (-331 : ℤ) < 2 ^ (-1075 : ℤ) := by
      rw [zpow_neg, zpow_neg, zpow_ofNat, zpow_ofNat]
      refine inv_strictAnti₀ (by positivity) ?_
      exact_mod_cast hpowers
    have hhalf : (2 : ℚ) ^ (-1074 : ℤ) = 2 ^ (-1075 : ℤ) * 2 := by
      have h := zpow_two_add (-1075) 1
      rw [zpow_one] at h
      exact h
    rw [hhalf] at hleast
    refine lt_of_lt_of_le hsmall (le_trans ?_ hlow)
    linarith
  · have hshort : (mantissa : ℚ) + 1 ≤ 2 ^ 53 := by exact_mod_cast hcanonical.short
    have hgreatest : (2 : ℚ) ^ exponent ≤ 2 ^ (971 : ℤ) :=
      zpow_le_zpow_right₀ (by norm_num) hcanonical.greatest
    have hhigh : q ≤ 2 ^ 53 * 2 ^ exponent :=
      le_trans h.high (mul_le_mul_of_nonneg_right (by linarith) (le_of_lt hunit))
    have hpowers : 2 ^ 53 * 2 ^ 971 < 10 ^ 310 := by decide +kernel
    refine lt_of_le_of_lt (le_trans hhigh (mul_le_mul_of_nonneg_left hgreatest (by norm_num))) ?_
    rw [zpow_ofNat, zpow_ofNat]
    exact_mod_cast hpowers

/-- A decimal that is rounded to a number is read as that number. -/
theorem ofDecimal_eq {c : CodePoint} {digits : Text} (hc : c ≠ .scalar '0')
    (hdigits : IsDigits (c :: digits)) {mantissa : Nat} (hmantissa : 0 < mantissa) {exponent : ℤ}
    (hcanonical : Canonical mantissa exponent) {scale : ℤ}
    (hround : RoundsTo mantissa exponent (readDecimal (c :: digits) * 10 ^ scale))
    (negative : Bool) :
    ofDecimal negative (readDecimal (c :: digits)) (c :: digits).length scale =
      .finite negative mantissa exponent := by
  obtain ⟨hsmall, hlarge⟩ := hround.bounds hmantissa hcanonical
  have hlow := pow_le_readDecimal (t := digits) (hdigits c (by simp)) hc
  have hhigh := readDecimal_lt hdigits
  generalize readDecimal (c :: digits) = read at *
  have hten := zpow_ten_pos scale
  have hpos : 0 < read := Nat.lt_of_lt_of_le (Nat.pow_pos (by decide)) hlow
  have hfrom : (10 : ℚ) ^ ((digits.length : ℤ) + scale) ≤ read * 10 ^ scale := by
    rw [zpow_ten_add, zpow_natCast]
    exact mul_le_mul_of_nonneg_right (by exact_mod_cast hlow) (le_of_lt hten)
  have hupTo : (read : ℚ) * 10 ^ scale < 10 ^ (((c :: digits).length : ℤ) + scale) := by
    rw [zpow_ten_add, zpow_natCast]
    exact mul_lt_mul_of_pos_right (by exact_mod_cast hhigh) hten
  have hgreatest := (zpow_lt_zpow_iff_right₀ (by norm_num : (1 : ℚ) < 10)).1
    (lt_of_le_of_lt hfrom hlarge)
  have hleast := (zpow_lt_zpow_iff_right₀ (by norm_num : (1 : ℚ) < 10)).1 (lt_trans hsmall hupTo)
  have hlength : ((c :: digits).length : ℤ) = digits.length + 1 := by simp
  rw [ofDecimal.eq_def, if_neg (by omega), if_neg (by omega), if_neg (by omega)]
  cases scale with
  | ofNat n =>
      refine ofQuotient_eq (Nat.mul_pos hpos (Nat.pow_pos (by decide))) (by decide) hcanonical ?_ _
      simpa using hround
  | negSucc n =>
      refine ofQuotient_eq hpos (Nat.pow_pos (by decide)) hcanonical ?_ _
      rw [zpow_negSucc] at hround
      push_cast
      rw [div_eq_mul_inv]
      exact hround

end Binary64

namespace Json

theorem Numeral.value_of_float {n : Numeral}
    (h : n.fraction.isNone = true → n.exponent.isNone = false) (negative : Bool) :
    n.value negative = .float (n.float negative) := by
  rw [value, if_neg]
  intro hnone
  rw [Bool.and_eq_true] at hnone
  rw [h hnone.1] at hnone
  cases hnone.2

/-- A finite number is written as a numeral that is read as this number. -/
theorem exists_numeral_finite (negative : Bool) {mantissa : Nat} {exponent : Int}
    (h : Binary64.Canonical mantissa exponent) :
    ∃ n : Numeral, n.Valid ∧ (n.fraction.isNone = true → n.exponent.isNone = false) ∧
      (Binary64.finite negative mantissa exponent).write specialWords =
        signText negative ++ n.text ∧
      n.float negative = .finite negative mantissa exponent := by
  have hwrite : ∀ size : Text,
      (if negative then CodePoint.scalar '-' :: size else size) = signText negative ++ size := by
    intro size
    cases negative <;> rfl
  rcases Nat.eq_zero_or_pos mantissa with rfl | hmantissa
  · have hexponent : exponent = Binary64.minExponent := h.full.resolve_left (by decide)
    subst hexponent
    refine ⟨⟨[.scalar '0'], some [.scalar '0'], none⟩, ⟨Or.inl rfl, ?_, by simp⟩, by simp, ?_, rfl⟩
    · rintro digits ⟨⟩
      exact ⟨isDigits_replicate_zero 1, by simp⟩
    · exact hwrite _
  · have hround := RoundingInterval.shortest_spec hmantissa h.short exponent
    obtain ⟨hsmall, -⟩ := hround.bounds hmantissa h
    have hdigits : 0 < (RoundingInterval.of mantissa exponent).shortest.digits := by
      refine Nat.pos_of_ne_zero fun hzero => ?_
      rw [hzero, Nat.cast_zero, zero_mul] at hsmall
      exact absurd (zpow_ten_pos (-331)) (not_lt.2 (le_of_lt hsmall))
    obtain ⟨n, hspells, htext⟩ := Numeral.exists_spells_write hdigits
    obtain ⟨c, digits, hkept, hc, hall⟩ := hspells.head
    refine ⟨n, hspells.valid, hspells.float, ?_, ?_⟩
    · rw [← htext, ← hwrite]
      simp only [Binary64.write, if_neg (Nat.pos_iff_ne_zero.1 hmantissa)]
    · have hvalue := hspells.value
      rw [← hvalue, hkept] at hround
      rw [Numeral.float, hkept]
      exact Binary64.ofDecimal_eq hc hall hmantissa h hround negative

end Json
end ProjectLint
