import Mathlib.Algebra.Group.Nat.Defs
import ProjectLint.Number.Decimal

/-!
Decimal digits. Main statements: the digits of a number spell it, they do not start with a zero
unless they are a lone zero, and digits that do not start with a zero spell a number of their own
length.
-/

namespace ProjectLint

theorem lt_pow_length_toDigits (n : Nat) : n < 10 ^ (Nat.toDigits 10 n).length :=
  (Nat.length_toDigits_le_iff (by decide) Nat.length_toDigits_pos).1 (Nat.le_refl _)

theorem pow_length_toDigits_le {n : Nat} (hn : 0 < n) :
    10 ^ ((Nat.toDigits 10 n).length - 1) ≤ n := by
  rcases Nat.eq_zero_or_pos ((Nat.toDigits 10 n).length - 1) with h | h
  · rw [h]
    exact hn
  · refine Nat.not_lt.1 fun hlt => ?_
    have := (Nat.length_toDigits_le_iff (by decide) h).2 hlt
    omega

/-- Whether a text is made of ASCII digits. -/
def IsDigits (t : Text) : Prop :=
  ∀ c ∈ t, c.isAsciiDigit = true

theorem isDigits_append {t u : Text} : IsDigits (t ++ u) ↔ IsDigits t ∧ IsDigits u := by
  simp only [IsDigits, List.mem_append, or_imp, forall_and]

theorem isDigits_replicate_zero (n : Nat) : IsDigits (List.replicate n (.scalar '0')) := by
  intro c hc
  rw [(List.mem_replicate.1 hc).2]
  rfl

theorem readDecimal_append (t u : Text) :
    readDecimal (t ++ u) = readDecimal t * 10 ^ u.length + readDecimal u := by
  have hfold : ∀ (start : Nat) (u : Text),
      u.foldl (fun n c => n * 10 + (c.toNat - 48)) start =
        start * 10 ^ u.length + readDecimal u := by
    intro start u
    induction u generalizing start with
    | nil => simp [readDecimal]
    | cons c u ih =>
        simp only [readDecimal, List.foldl_cons, List.length_cons, Nat.pow_succ] at ih ⊢
        rw [ih, ih (0 * 10 + _), Nat.add_mul, Nat.zero_mul, Nat.zero_add, Nat.mul_assoc,
          Nat.mul_comm 10, Nat.add_assoc]
  rw [readDecimal, List.foldl_append]
  exact hfold _ u

theorem readDecimal_singleton (c : CodePoint) : readDecimal [c] = c.toNat - 48 := by
  simp [readDecimal]

theorem readDecimal_cons (c : CodePoint) (t : Text) :
    readDecimal (c :: t) = (c.toNat - 48) * 10 ^ t.length + readDecimal t := by
  have h := readDecimal_append [c] t
  rwa [readDecimal_singleton] at h

theorem readDecimal_replicate_zero (n : Nat) :
    readDecimal (List.replicate n (.scalar '0')) = 0 := by
  induction n with
  | zero => rfl
  | succ n ih =>
      rw [List.replicate_succ, readDecimal_cons, ih]
      have hzero : (CodePoint.scalar '0').toNat - 48 = 0 := rfl
      rw [hzero, Nat.zero_mul]

theorem digit_bounds {c : CodePoint} (h : c.isAsciiDigit = true) : 48 ≤ c.toNat ∧ c.toNat ≤ 57 := by
  simpa [CodePoint.isAsciiDigit] using h

theorem readDecimal_lt {t : Text} (h : IsDigits t) : readDecimal t < 10 ^ t.length := by
  induction t with
  | nil => exact Nat.one_pos
  | cons c t ih =>
      have hrest := ih fun d hd => h d (List.mem_cons_of_mem _ hd)
      obtain ⟨-, hc⟩ := digit_bounds (h c (by simp))
      rw [readDecimal_cons, List.length_cons, Nat.pow_succ, Nat.mul_comm (10 ^ t.length)]
      have : (c.toNat - 48) * 10 ^ t.length ≤ 9 * 10 ^ t.length :=
        Nat.mul_le_mul_right _ (by omega)
      omega

/-- Digits that do not start with a zero spell a number of their own length. -/
theorem pow_le_readDecimal {c : CodePoint} {t : Text} (hc : c.isAsciiDigit = true)
    (hzero : c ≠ .scalar '0') : 10 ^ t.length ≤ readDecimal (c :: t) := by
  obtain ⟨hlow, -⟩ := digit_bounds hc
  have hne : c.toNat ≠ 48 := by
    intro h
    have hsame : c.toNat = (CodePoint.scalar '0').toNat := h
    exact hzero (CodePoint.toNat_inj hsame)
  rw [readDecimal_cons]
  have : 1 * 10 ^ t.length ≤ (c.toNat - 48) * 10 ^ t.length := Nat.mul_le_mul_right _ (by omega)
  omega

theorem isDigits_decimal (n : Nat) : IsDigits (decimal n) := by
  intro c hc
  obtain ⟨d, hd, rfl⟩ := List.mem_map.1 hc
  have hdigit := Nat.isDigit_of_mem_toDigits (by decide : 0 < 10) (by decide : 10 ≤ 10) hd
  simp only [Char.isDigit, Bool.and_eq_true, decide_eq_true_eq] at hdigit
  exact decide_eq_true ⟨UInt32.le_iff_toNat_le.1 hdigit.1, UInt32.le_iff_toNat_le.1 hdigit.2⟩

theorem length_decimal (n : Nat) : (decimal n).length = (Nat.toDigits 10 n).length := by
  rw [decimal, List.length_map]

theorem readDecimal_decimal (n : Nat) : readDecimal (decimal n) = n := by
  have hfold : ∀ (chars : List Char) (start : Nat),
      (chars.map CodePoint.scalar).foldl (fun n c => n * 10 + (c.toNat - 48)) start =
        Nat.ofDigitChars 10 chars start := by
    intro chars
    induction chars with
    | nil => intro start; rfl
    | cons c chars ih =>
        intro start
        rw [List.map_cons, List.foldl_cons, ih, Nat.ofDigitChars_cons, Nat.mul_comm]
        rfl
  rw [readDecimal, decimal, hfold, Nat.ofDigitChars_ten_toDigits]

theorem decimal_ne_nil (n : Nat) : decimal n ≠ [] := by
  simp [decimal]

/-- The digits of a positive number do not start with a zero. -/
theorem head?_decimal {n : Nat} (hn : 0 < n) : (decimal n).head? ≠ some (.scalar '0') := by
  intro hhead
  have hlow := pow_length_toDigits_le hn
  rw [← length_decimal] at hlow
  have hdigits := isDigits_decimal n
  have hread := readDecimal_decimal n
  cases hd : decimal n with
  | nil => exact decimal_ne_nil n hd
  | cons c t =>
      rw [hd] at hhead hlow hdigits hread
      cases hhead
      have hlt := readDecimal_lt fun d hd => hdigits d (List.mem_cons_of_mem _ hd)
      have hzero : (CodePoint.scalar '0').toNat - 48 = 0 := rfl
      rw [readDecimal_cons, hzero, Nat.zero_mul, Nat.zero_add] at hread
      rw [List.length_cons, Nat.add_sub_cancel] at hlow
      omega

/-- Digits that do not start with a zero are those of the number that they spell. -/
theorem length_decimal_readDecimal_le {t : Text} (h : IsDigits t) (hne : t ≠ []) :
    (decimal (readDecimal t)).length ≤ t.length := by
  rw [length_decimal, Nat.length_toDigits_le_iff (by decide) (List.length_pos_iff.2 hne)]
  exact readDecimal_lt h

end ProjectLint
