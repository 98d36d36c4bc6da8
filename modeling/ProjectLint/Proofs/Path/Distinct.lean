import ProjectLint.Path.Distinct

/-!
First occurrences in lists that are put together from others. Main statements: they are those of the
first list and then the new ones of the second, and in a list that is gathered from what each path
leads to, a path that leads nowhere new and a path that comes again can be left out.
-/

namespace ProjectLint.Path

theorem firstOccurrences_filter (keep : Path → Bool) (paths : List Path) :
    firstOccurrences (paths.filter keep) = (firstOccurrences paths).filter keep := by
  induction paths with
  | nil => rfl
  | cons p paths ih =>
      cases hp : keep p with
      | true =>
          rw [List.filter_cons_of_pos hp, firstOccurrences_cons, firstOccurrences_cons, ih,
            List.filter_cons_of_pos hp, List.filter_filter, List.filter_filter]
          simp only [Bool.and_comm]
      | false =>
          have hne : ∀ q ∈ (firstOccurrences paths).filter keep, q ≠ p := by
            rintro q hq rfl
            rw [(List.mem_filter.1 hq).2] at hp
            cases hp
          rw [List.filter_cons_of_neg (by simp [hp]), firstOccurrences_cons, ih,
            List.filter_cons_of_neg (by simp [hp]), List.filter_filter]
          refine (List.filter_congr fun q hq => ?_)
          by_cases hkeep : keep q = true
          · simp [hkeep, hne q (List.mem_filter.2 ⟨hq, hkeep⟩)]
          · simp [hkeep]

/-- First occurrences stand in the order of their places in the list. -/
theorem pairwise_firstOccurrences (paths : List Path) :
    (firstOccurrences paths).Pairwise fun p q => paths.idxOf p < paths.idxOf q := by
  induction paths with
  | nil => exact .nil
  | cons first paths ih =>
      have hlater : ∀ q ∈ (firstOccurrences paths).filter (· ≠ first),
          (first :: paths).idxOf q = paths.idxOf q + 1 := by
        intro q hq
        have hne : q ≠ first := by simpa using (List.mem_filter.1 hq).2
        rw [List.idxOf_cons, beq_false_of_ne (Ne.symm hne), cond_false]
      rw [firstOccurrences_cons, List.pairwise_cons]
      constructor
      · intro q hq
        rw [hlater q hq, List.idxOf_cons_self]
        exact Nat.succ_pos _
      · refine (ih.filter _).imp_of_mem fun hp hq hlt => ?_
        rw [hlater _ hp, hlater _ hq]
        exact Nat.succ_lt_succ hlt

/-- The first occurrences in two lists are those in the first one and then those in the second one
that are new. -/
theorem firstOccurrences_append (paths others : List Path) :
    firstOccurrences (paths ++ others) =
      firstOccurrences paths ++ (firstOccurrences others).filter (· ∉ paths) := by
  induction paths with
  | nil => exact (List.filter_eq_self.2 fun p _ => by simp).symm
  | cons p paths ih =>
      rw [List.cons_append, firstOccurrences_cons, firstOccurrences_cons, ih, List.filter_append,
        List.filter_filter, List.cons_append]
      simp only [List.mem_cons, not_or, Bool.decide_and]

theorem firstOccurrences_append_of_subset {paths others : List Path}
    (h : ∀ p ∈ others, p ∈ paths) :
    firstOccurrences (paths ++ others) = firstOccurrences paths := by
  have hnone : (firstOccurrences others).filter (· ∉ paths) = [] := by
    refine List.filter_eq_nil_iff.2 fun p hp => ?_
    simpa using h p (mem_firstOccurrences.1 hp)
  rw [firstOccurrences_append, hnone, List.append_nil]

/-- Whatever paths lead to can be exchanged for what has the same first occurrences. -/
theorem firstOccurrences_flatMap_congr {leads others : Path → List Path} {paths : List Path}
    (h : ∀ p ∈ paths, firstOccurrences (leads p) = firstOccurrences (others p)) :
    firstOccurrences (paths.flatMap leads) = firstOccurrences (paths.flatMap others) := by
  induction paths with
  | nil => rfl
  | cons p paths ih =>
      obtain ⟨hp, hrest⟩ := List.forall_mem_cons.1 h
      have hmem : ∀ q, q ∈ leads p ↔ q ∈ others p := fun q => by
        rw [← mem_firstOccurrences, hp, mem_firstOccurrences]
      rw [List.flatMap_cons, List.flatMap_cons, firstOccurrences_append, firstOccurrences_append,
        hp, ih hrest]
      simp only [hmem]

/-- A path that comes again leads to nothing that it has not led to before. -/
theorem firstOccurrences_flatMap (leads : Path → List Path) (paths : List Path) :
    firstOccurrences ((firstOccurrences paths).flatMap leads) =
      firstOccurrences (paths.flatMap leads) := by
  induction paths with
  | nil => rfl
  | cons p paths ih =>
      have hwithout : ∀ others : List Path,
          ((others.filter (· ≠ p)).flatMap leads).filter (· ∉ leads p) =
            (others.flatMap leads).filter (· ∉ leads p) := by
        intro others
        induction others with
        | nil => rfl
        | cons q others ih =>
            by_cases hq : q = p
            · subst hq
              have hnone : (leads q).filter (· ∉ leads q) = [] :=
                List.filter_eq_nil_iff.2 fun r hr => by simpa using hr
              rw [List.filter_cons_of_neg (by simp), List.flatMap_cons, List.filter_append, hnone,
                ih, List.nil_append]
            · rw [List.filter_cons_of_pos (by simpa using hq), List.flatMap_cons,
                List.flatMap_cons, List.filter_append, List.filter_append, ih]
      rw [firstOccurrences_cons, List.flatMap_cons, List.flatMap_cons, firstOccurrences_append,
        firstOccurrences_append, ← ih, ← firstOccurrences_filter, hwithout,
        firstOccurrences_filter]

end ProjectLint.Path
