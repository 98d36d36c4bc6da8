import Mathlib.Data.List.Forall2
import ProjectLint.Text.Lowercase

/-!
Which texts a word of small ASCII letters is the lower case of. Outside ASCII only the Kelvin sign
and a capital I with a dot come to an ASCII letter, the first one to a `k` and the other one with a
second code point after it. Main statements: a text without sigmas comes to lower case one code
point at a time, and a word without a `k` is the lower case of the texts that have each of its
letters or the capital of it, in their order, and of no others.
-/

namespace ProjectLint

namespace CodePoint

/-- Whether a code point is a small ASCII letter. -/
def IsSmallLetter (c : CodePoint) : Prop :=
  97 ≤ c.toNat ∧ c.toNat ≤ 122

instance (c : CodePoint) : Decidable c.IsSmallLetter :=
  inferInstanceAs (Decidable (_ ∧ _))

/-- Whether a code point is a small ASCII letter other than `k`. -/
def IsPlainLetter (c : CodePoint) : Prop :=
  97 ≤ c.toNat ∧ c.toNat ≤ 122 ∧ c.toNat ≠ 107

instance (c : CodePoint) : Decidable c.IsPlainLetter :=
  inferInstanceAs (Decidable (_ ∧ _))

/-- The capital of a small ASCII letter. -/
def capital (c : CodePoint) : CodePoint :=
  ofNat (c.toNat - 32)

variable {c d : CodePoint}

theorem IsPlainLetter.isSmallLetter (h : d.IsPlainLetter) : d.IsSmallLetter :=
  ⟨h.1, h.2.1⟩

theorem toNat_capital (h : d.IsSmallLetter) : d.capital.toNat = d.toNat - 32 := by
  have hhigh := h.2
  rw [capital, toNat_ofNat, if_pos (by omega)]

/-- A run of the table is that of the ASCII capitals, or that of the Kelvin sign, or comes to code
points after the small ASCII letters. -/
theorem target_cases : ∀ run ∈ lowercaseRuns,
    (run.first = 0x41 ∧ run.last = 0x5A ∧ run.target = 0x61) ∨
      (run.first = run.last ∧ run.target = 0x6B) ∨ 0x7B ≤ run.target := by
  decide +kernel

/-- A run of the table is that of the ASCII capitals, or comes after the small ASCII letters. -/
theorem capitals_or_lt_first : ∀ run ∈ lowercaseRuns,
    (run.first = 0x41 ∧ run.last = 0x5A) ∨ 0x7A < run.first := by
  decide +kernel

/-- Whether a code point is a letter or the capital of it. -/
def IsCaseOf (c d : CodePoint) : Prop :=
  c = d ∨ c = d.capital

/-- Up to the small ASCII letters, only the capitals have another lower case. -/
theorem lowercase_eq_self (hcapital : c.toNat < 0x41 ∨ 0x5A < c.toNat) (hlast : c.toNat ≤ 0x7A) :
    c.lowercase = [c] := by
  have hnone : lowercaseRuns.find? (fun run => run.first ≤ c.toNat && c.toNat ≤ run.last &&
      (c.toNat - run.first) % run.step == 0) = none := by
    refine List.find?_eq_none.2 fun run hrun => ?_
    have hcover := capitals_or_lt_first run hrun
    simp only [Bool.and_eq_true, decide_eq_true_eq]
    omega
  simp only [lowercase, hnone]
  rw [if_neg (by omega)]

theorem lowercase_of_isCaseOf (h : d.IsSmallLetter) (hc : IsCaseOf c d) : c.lowercase = [d] := by
  obtain ⟨hlow, hhigh⟩ := id h
  rcases hc with rfl | rfl
  · exact lowercase_eq_self (Or.inr (by omega)) hhigh
  · have hn := toNat_capital h
    have hletter : ofNat (0x61 + (d.capital.toNat - 0x41)) = d := by
      have hsum : 0x61 + (d.capital.toNat - 0x41) = d.toNat := by omega
      rw [hsum, ofNat_toNat]
    simp only [lowercase]
    rw [if_neg (by omega), lowercaseRuns, List.find?_cons_of_pos]
    · exact congrArg (fun c => [c]) hletter
    · simp only [Nat.mod_one, Bool.and_eq_true, decide_eq_true_eq]
      exact ⟨by omega, by decide⟩

/-- A code point that has a letter alone for its lower case is the letter or the capital of it. -/
theorem lowercase_eq_letter_iff (h : d.IsPlainLetter) : c.lowercase = [d] ↔ IsCaseOf c d := by
  refine ⟨fun hc => ?_, lowercase_of_isCaseOf h.isSmallLetter⟩
  obtain ⟨hlow, hhigh, hk⟩ := id h
  simp only [lowercase] at hc
  split at hc
  · cases hc
  · split at hc
    · rename_i run hrun
      have hmem := List.mem_of_find?_eq_some hrun
      have hcover := List.find?_some hrun
      simp only [Bool.and_eq_true, decide_eq_true_eq] at hcover
      have hd := congrArg toNat (List.singleton_inj.1 hc)
      rw [toNat_ofNat] at hd
      refine Or.inr (toNat_inj ?_)
      rw [toNat_capital h.isSmallLetter]
      have hrun := target_cases run hmem
      split at hd <;> omega
    · exact Or.inl (List.singleton_inj.1 hc)

/-- The lower case of a code point is one code point, or has a dot for combination in it. -/
theorem lowercase_cases (c : CodePoint) :
    (∃ d, c.lowercase = [d]) ∨ ofNat 0x307 ∈ c.lowercase := by
  simp only [lowercase]
  split
  · exact Or.inr (by simp)
  · split
    · exact Or.inl ⟨_, rfl⟩
    · exact Or.inl ⟨_, rfl⟩

end CodePoint

namespace Text

open CodePoint

/-- Without sigmas, whose forms depend on what stands around them, a text comes to lower case one
code point at a time. -/
theorem lowercaseAfter_of_forall₂ {t small : Text}
    (h : List.Forall₂ (fun c d => c.toNat ≠ 0x3A3 ∧ c.lowercase = [d]) t small) (before : Text) :
    lowercaseAfter before t = small := by
  induction h generalizing before with
  | nil => rfl
  | cons hc _ ih =>
      rw [lowercaseAfter, if_neg hc.1, hc.2, ih]
      rfl

/-- A text comes to lower case piece by piece. The forms of sigma change no letter. -/
theorem exists_lowercaseAfter_cons (before : Text) (c : CodePoint) (rest : Text) :
    ∃ piece, lowercaseAfter before (c :: rest) = piece ++ lowercaseAfter (c :: before) rest ∧
      ((∃ d, piece = [d]) ∨ ofNat 0x307 ∈ piece) ∧
        ∀ d : CodePoint, d.IsPlainLetter → (piece = [d] ↔ IsCaseOf c d) := by
  rw [lowercaseAfter]
  split
  · rename_i hsigma
    -- Neither form of sigma is a letter, and sigma is no capital of one.
    have hnever : ∀ form : CodePoint, 122 < form.toNat → ∀ d : CodePoint, d.IsPlainLetter →
        ([form] = [d] ↔ IsCaseOf c d) := by
      intro form hform d hd
      have hcapital := toNat_capital hd.isSmallLetter
      obtain ⟨hlow, hhigh, -⟩ := hd
      constructor
      · intro heq
        rw [List.singleton_inj.1 heq] at hform
        omega
      · rintro (rfl | rfl) <;> omega
    split
    · exact ⟨_, rfl, Or.inl ⟨_, rfl⟩, hnever _ (by decide)⟩
    · exact ⟨_, rfl, Or.inl ⟨_, rfl⟩, hnever _ (by decide)⟩
  · exact ⟨_, rfl, lowercase_cases c, fun d hd => lowercase_eq_letter_iff hd⟩

/-- A word of plain letters is the lower case of those texts that consist of its letters or capitals
of them. -/
theorem lowercaseAfter_eq_iff {t word : Text} (hword : ∀ d ∈ word, d.IsPlainLetter)
    (before : Text) : lowercaseAfter before t = word ↔ List.Forall₂ IsCaseOf t word := by
  induction t generalizing before word with
  | nil => rw [lowercaseAfter, List.forall₂_nil_left_iff, eq_comm]
  | cons c rest ih =>
      obtain ⟨piece, hpiece, hone | hdot, hcase⟩ := exists_lowercaseAfter_cons before c rest
      · obtain ⟨x, rfl⟩ := hone
        rw [hpiece]
        cases word with
        | nil => simp
        | cons d word =>
            obtain ⟨hd, hrest⟩ := List.forall_mem_cons.1 hword
            rw [List.forall₂_cons, ← ih hrest (c :: before), ← hcase d hd]
            simp
      · have hplain : ¬(ofNat 0x307).IsPlainLetter := by decide
        constructor
        · intro heq
          rw [hpiece] at heq
          exact absurd (hword _ (heq ▸ List.mem_append_left _ hdot)) hplain
        · intro hforms
          obtain ⟨d, others, hd, -, rfl⟩ := List.forall₂_cons_left_iff.1 hforms
          have hletter := hword d (by simp)
          rw [(hcase d hletter).2 hd, List.mem_singleton] at hdot
          exact absurd (hdot ▸ hletter) hplain

theorem lowercase_eq_iff {t word : Text} (hword : ∀ d ∈ word, d.IsPlainLetter) :
    t.lowercase = word ↔ List.Forall₂ IsCaseOf t word :=
  lowercaseAfter_eq_iff hword []

end Text
end ProjectLint
