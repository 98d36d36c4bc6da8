import ProjectLint.Ignore.Rule

/-!
What elements take from the start of a text, as a relation between the part that they take and the
rest that they leave. Only the two ends of a name look at the rest. Main statements: elements match
the start of a text exactly if they take some part of it, a sequence takes what its two halves take
one after the other, and a line of literal code points takes itself.
-/

namespace ProjectLint

namespace Text

theorem mem_afterOne {test : CodePoint → Bool} {t rest : Text} :
    rest ∈ t.afterOne test ↔ ∃ c, test c = true ∧ t = c :: rest := by
  cases t with
  | nil => simp [afterOne]
  | cons c tail =>
      simp only [afterOne]
      by_cases h : test c = true
      · simp only [h, if_true, List.mem_singleton, List.cons.injEq]
        constructor
        · rintro rfl
          exact ⟨c, h, rfl, rfl⟩
        · rintro ⟨_, -, -, rfl⟩
          rfl
      · simp only [h, if_false, Bool.false_eq_true, List.not_mem_nil, List.cons.injEq, false_iff]
        rintro ⟨_, hd, rfl, -⟩
        exact h hd

theorem mem_afterMany {test : CodePoint → Bool} {t rest : Text} :
    rest ∈ t.afterMany test ↔ ∃ u, (∀ c ∈ u, test c = true) ∧ t = u ++ rest := by
  induction t with
  | nil =>
      simp only [afterMany, List.mem_singleton]
      constructor
      · rintro rfl
        exact ⟨[], by simp, rfl⟩
      · rintro ⟨u, -, h⟩
        exact (List.append_eq_nil_iff.1 h.symm).2
  | cons c tail ih =>
      simp only [afterMany, List.mem_cons]
      constructor
      · rintro (rfl | hrest)
        · exact ⟨[], by simp, rfl⟩
        · by_cases hc : test c = true
          · rw [if_pos hc, ih] at hrest
            obtain ⟨u, hu, rfl⟩ := hrest
            exact ⟨c :: u, by simpa using ⟨hc, hu⟩, rfl⟩
          · simp [if_neg hc] at hrest
      · rintro ⟨u, hu, h⟩
        cases u with
        | nil => exact Or.inl h.symm
        | cons d u =>
            obtain ⟨rfl, rfl⟩ := List.cons.inj h
            refine Or.inr ?_
            rw [if_pos (hu c (by simp)), ih]
            exact ⟨u, fun e he => hu e (by simp [he]), rfl⟩

end Text

namespace Element

/-- What an element can take of a text that has some rest after it. -/
def Takes : Element → (taken rest : Text) → Prop
  | single test, taken, _ => ∃ c, test.accepts c = true ∧ taken = [c]
  | run, taken, _ => ∀ c ∈ taken, isSlash c = false
  | name, taken, _ => taken ≠ [] ∧ ∀ c ∈ taken, isSlash c = false
  | slash, taken, _ => taken = [.scalar '/']
  | leadingFolders, taken, _ =>
      taken = [] ∨ ∃ folders, folders ≠ [] ∧ (∀ c ∈ folders, onLine c = true) ∧
        taken = folders ++ [.scalar '/']
  | innerFolders, taken, _ =>
      taken = [] ∨ ∃ folders, folders ≠ [] ∧ (∀ c ∈ folders, onLine c = true) ∧
        taken = .scalar '/' :: folders
  | nameEnd, taken, rest => taken = [] ∧ atEnd rest = true ∨ taken = [.scalar '/']
  | lastNameEnd, taken, rest => (taken = [] ∨ taken = [.scalar '/']) ∧ atEnd rest = true

theorem isSlash_eq_true {c : CodePoint} : isSlash c = true ↔ c = .scalar '/' := by
  simp [isSlash]

theorem notSlash_accepts (c : CodePoint) : Single.notSlash.accepts c = !isSlash c :=
  rfl

theorem mem_afterOne_isSlash {t rest : Text} :
    rest ∈ t.afterOne isSlash ↔ t = .scalar '/' :: rest := by
  simp [Text.mem_afterOne, isSlash_eq_true]

/-- One code point or more that pass a test. -/
theorem mem_afterOne_afterMany {test : CodePoint → Bool} {t rest : Text} :
    rest ∈ (t.afterOne test).flatMap (Text.afterMany test) ↔
      ∃ u, u ≠ [] ∧ (∀ c ∈ u, test c = true) ∧ t = u ++ rest := by
  simp only [List.mem_flatMap, Text.mem_afterOne, Text.mem_afterMany]
  constructor
  · rintro ⟨_, ⟨c, hc, rfl⟩, u, hu, rfl⟩
    exact ⟨c :: u, by simp, by simpa using ⟨hc, hu⟩, rfl⟩
  · rintro ⟨u, hne, hu, rfl⟩
    cases u with
    | nil => exact absurd rfl hne
    | cons c u =>
        exact ⟨u ++ rest, ⟨c, hu c (by simp), rfl⟩, u, fun d hd => hu d (by simp [hd]), rfl⟩

theorem mem_rests {e : Element} {t rest : Text} :
    rest ∈ e.rests t ↔ ∃ taken, t = taken ++ rest ∧ e.Takes taken rest := by
  cases e with
  | single test =>
      simp only [rests, Text.mem_afterOne, Takes]
      constructor
      · rintro ⟨c, hc, rfl⟩
        exact ⟨[c], rfl, c, hc, rfl⟩
      · rintro ⟨_, rfl, c, hc, rfl⟩
        exact ⟨c, hc, rfl⟩
  | run =>
      simp only [rests, Text.mem_afterMany, Takes, notSlash_accepts, Bool.not_eq_true']
      constructor
      · rintro ⟨u, hu, h⟩
        exact ⟨u, h, hu⟩
      · rintro ⟨u, h, hu⟩
        exact ⟨u, hu, h⟩
  | name =>
      simp only [rests, mem_afterOne_afterMany, Takes, notSlash_accepts, Bool.not_eq_true']
      constructor
      · rintro ⟨u, hne, hu, h⟩
        exact ⟨u, h, hne, hu⟩
      · rintro ⟨u, h, hne, hu⟩
        exact ⟨u, hne, hu, h⟩
  | slash =>
      simp only [rests, mem_afterOne_isSlash, Takes]
      constructor
      · intro h
        exact ⟨_, h, rfl⟩
      · rintro ⟨_, h, htaken⟩
        rw [h, htaken]
        rfl
  | leadingFolders =>
      simp only [rests, List.mem_cons, List.mem_flatMap (f := Text.afterOne isSlash),
        mem_afterOne_afterMany, mem_afterOne_isSlash, Takes]
      constructor
      · rintro (rfl | ⟨_, ⟨folders, hne, hfolders, rfl⟩, rfl⟩)
        · exact ⟨[], rfl, Or.inl rfl⟩
        · exact ⟨folders ++ [.scalar '/'], by simp, Or.inr ⟨folders, hne, hfolders, rfl⟩⟩
      · rintro ⟨_, rfl, rfl | ⟨folders, hne, hfolders, rfl⟩⟩
        · exact Or.inl rfl
        · exact Or.inr ⟨_, ⟨folders, hne, hfolders, by simp⟩, rfl⟩
  | innerFolders =>
      simp only [rests, List.mem_cons, List.flatMap_assoc]
      rw [List.mem_flatMap]
      simp only [mem_afterOne_afterMany, mem_afterOne_isSlash, Takes]
      constructor
      · rintro (rfl | ⟨_, rfl, folders, hne, hfolders, rfl⟩)
        · exact ⟨[], rfl, Or.inl rfl⟩
        · exact ⟨.scalar '/' :: folders, rfl, Or.inr ⟨folders, hne, hfolders, rfl⟩⟩
      · rintro ⟨_, rfl, rfl | ⟨folders, hne, hfolders, rfl⟩⟩
        · exact Or.inl rfl
        · exact Or.inr ⟨_, rfl, folders, hne, hfolders, rfl⟩
  | nameEnd =>
      simp only [rests, List.mem_append, mem_afterOne_isSlash, Takes]
      constructor
      · rintro (h | rfl)
        · by_cases hend : atEnd t = true
          · simp only [hend, if_true, List.mem_singleton] at h
            subst h
            exact ⟨[], rfl, Or.inl ⟨rfl, hend⟩⟩
          · simp [hend] at h
        · exact ⟨[.scalar '/'], rfl, Or.inr rfl⟩
      · rintro ⟨_, rfl, ⟨rfl, hend⟩ | rfl⟩
        · exact Or.inl (by simp [hend])
        · exact Or.inr rfl
  | lastNameEnd =>
      simp only [rests, List.mem_filter, List.mem_cons, mem_afterOne_isSlash, Takes]
      constructor
      · rintro ⟨rfl | rfl, hend⟩
        · exact ⟨[], rfl, Or.inl rfl, hend⟩
        · exact ⟨[.scalar '/'], rfl, Or.inr rfl, hend⟩
      · rintro ⟨_, rfl, rfl | rfl, hend⟩
        · exact ⟨Or.inl rfl, hend⟩
        · exact ⟨Or.inr rfl, hend⟩

/-- What a sequence of elements can take of a text that has some rest after it. -/
inductive Reads : List Element → (taken rest : Text) → Prop where
  | done (rest : Text) : Reads [] [] rest
  | next {e : Element} {es : List Element} {first later rest : Text} :
      e.Takes first (later ++ rest) → Reads es later rest → Reads (e :: es) (first ++ later) rest

theorem reads_nil {taken rest : Text} : Reads [] taken rest ↔ taken = [] := by
  constructor
  · intro h
    cases h
    rfl
  · rintro rfl
    exact .done rest

theorem reads_cons {e : Element} {es : List Element} {taken rest : Text} :
    Reads (e :: es) taken rest ↔
      ∃ first later, taken = first ++ later ∧ e.Takes first (later ++ rest) ∧
        Reads es later rest := by
  constructor
  · intro h
    cases h with
    | next htakes hlater => exact ⟨_, _, rfl, htakes, hlater⟩
  · rintro ⟨first, later, rfl, htakes, hlater⟩
    exact .next htakes hlater

theorem reads_append {es others : List Element} {taken rest : Text} :
    Reads (es ++ others) taken rest ↔
      ∃ first later, taken = first ++ later ∧ Reads es first (later ++ rest) ∧
        Reads others later rest := by
  induction es generalizing taken with
  | nil =>
      simp only [List.nil_append, reads_nil]
      constructor
      · intro h
        exact ⟨[], taken, rfl, rfl, h⟩
      · rintro ⟨_, later, rfl, rfl, h⟩
        exact h
  | cons e es ih =>
      simp only [List.cons_append, reads_cons, ih]
      constructor
      · rintro ⟨first, _, rfl, htakes, middle, later, rfl, hmiddle, hlater⟩
        rw [List.append_assoc] at htakes
        exact ⟨first ++ middle, later, by simp, ⟨first, middle, rfl, htakes, hmiddle⟩, hlater⟩
      · rintro ⟨_, later, rfl, ⟨first, middle, rfl, htakes, hmiddle⟩, hlater⟩
        rw [← List.append_assoc] at htakes
        exact ⟨first, middle ++ later, by simp, htakes, middle, later, rfl, hmiddle, hlater⟩

theorem sequenceMatches_eq_true {es : List Element} {t : Text} :
    sequenceMatches es t = true ↔ ∃ taken rest, t = taken ++ rest ∧ Reads es taken rest := by
  induction es generalizing t with
  | nil =>
      simp only [sequenceMatches_nil, true_iff]
      exact ⟨[], t, rfl, .done t⟩
  | cons e es ih =>
      rw [sequenceMatches_cons, List.any_eq_true]
      simp only [mem_rests, ih]
      constructor
      · rintro ⟨_, ⟨first, rfl, htakes⟩, later, rest, rfl, hlater⟩
        exact ⟨first ++ later, rest, by simp, .next htakes hlater⟩
      · rintro ⟨_, rest, rfl, h⟩
        obtain ⟨first, later, rfl, htakes, hlater⟩ := reads_cons.1 h
        exact ⟨later ++ rest, ⟨first, by simp, htakes⟩, later, rest, rfl, hlater⟩

/-- The elements that stand for code points themselves. -/
def literal (word : Text) : List Element :=
  word.map fun c => .single (.exactly c)

theorem reads_literal {word taken rest : Text} :
    Reads (literal word) taken rest ↔ taken = word := by
  induction word generalizing taken with
  | nil => exact reads_nil
  | cons c word ih =>
      simp only [literal, List.map_cons] at ih ⊢
      simp only [reads_cons, Takes, Single.accepts, beq_iff_eq, ih]
      constructor
      · rintro ⟨_, _, rfl, ⟨_, rfl, rfl⟩, rfl⟩
        rfl
      · rintro rfl
        exact ⟨[c], word, rfl, ⟨c, rfl, rfl⟩, rfl⟩

end Element

namespace Rule

/-- Without a negated line, a path is ignored exactly if some rule looks for it. -/
theorem decides_of_positive {rules : List Rule} (h : ∀ rule ∈ rules, rule.negated = false)
    (path : Text) :
    decides rules path = rules.any fun rule => rule.target.selects (subject path) := by
  rw [decides]
  cases hlast : (rules.filter fun rule => rule.target.selects (subject path)).getLast? with
  | none =>
      rw [List.getLast?_eq_none_iff, List.filter_eq_nil_iff] at hlast
      exact (List.any_eq_false.2 hlast).symm
  | some rule =>
      obtain ⟨hmem, hselects⟩ := List.mem_filter.1 (List.mem_of_getLast? hlast)
      simp only [h rule hmem, Bool.not_false]
      exact (List.any_eq_true.2 ⟨rule, hmem, hselects⟩).symm

end Rule
end ProjectLint
