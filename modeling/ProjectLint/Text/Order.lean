import ProjectLint.Text.Basic

/-!
The order of texts by the numbers of their code points. A text comes before those that it is the
start of. Main statements: this is a strict order, and of two different texts one comes first.
-/

namespace ProjectLint.Text

/-- Whether one text comes before another by code points. -/
def before : Text → Text → Bool
  | [], [] => false
  | [], _ :: _ => true
  | _ :: _, [] => false
  | a :: s, b :: t => a.toNat < b.toNat || (a == b && before s t)

theorem before_irrefl (t : Text) : before t t = false := by
  induction t with
  | nil => rfl
  | cons c t ih => simp [before, ih]

theorem before_trans {s t u : Text} (h : before s t = true) (k : before t u = true) :
    before s u = true := by
  induction s generalizing t u with
  | nil =>
      cases t with
      | nil => simp [before] at h
      | cons b t => cases u with
        | nil => simp [before] at k
        | cons c u => rfl
  | cons a s ih =>
      cases t with
      | nil => simp [before] at h
      | cons b t =>
          cases u with
          | nil => simp [before] at k
          | cons c u =>
              simp only [before, Bool.or_eq_true, decide_eq_true_eq, Bool.and_eq_true,
                beq_iff_eq] at h k ⊢
              rcases h with h | ⟨rfl, h⟩
              · rcases k with k | ⟨rfl, k⟩
                · exact Or.inl (Nat.lt_trans h k)
                · exact Or.inl h
              · rcases k with k | ⟨rfl, k⟩
                · exact Or.inl k
                · exact Or.inr ⟨rfl, ih h k⟩

theorem before_or_before {s t : Text} (h : s ≠ t) : before s t = true ∨ before t s = true := by
  induction s generalizing t with
  | nil =>
      cases t with
      | nil => exact absurd rfl h
      | cons b t => exact Or.inl rfl
  | cons a s ih =>
      cases t with
      | nil => exact Or.inr rfl
      | cons b t =>
          simp only [before, Bool.or_eq_true, decide_eq_true_eq, Bool.and_eq_true, beq_iff_eq]
          rcases Nat.lt_trichotomy a.toNat b.toNat with hab | hab | hab
          · exact Or.inl (Or.inl hab)
          · obtain rfl := CodePoint.toNat_inj hab
            rcases ih (t := t) (fun e => h (by rw [e])) with k | k
            · exact Or.inl (Or.inr ⟨rfl, k⟩)
            · exact Or.inr (Or.inr ⟨rfl, k⟩)
          · exact Or.inr (Or.inl hab)

end ProjectLint.Text
