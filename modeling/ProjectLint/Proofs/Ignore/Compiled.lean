import ProjectLint.Proofs.Ignore.Folder

/-!
Sources whose lines can all be read. Main statements: such a source always answers, about paths and
about directories, and what it answers can be told from its lines one by one; a set of them always
answers, and does so by one of them.
-/

namespace ProjectLint

/-- The rules of patterns are the rules of each of them. -/
theorem Rule.mem_of_ofPatterns {patterns : List Pattern} {rules : List Rule}
    (h : ofPatterns patterns = .ok rules) {rule : Rule} :
    rule ∈ rules ↔ ∃ pattern ∈ patterns, ofPattern pattern = .ok (some rule) := by
  induction patterns generalizing rules with
  | nil =>
      cases h
      simp
  | cons pattern patterns ih =>
      rw [ofPatterns] at h
      cases hpattern : ofPattern pattern with
      | error failure => simp [hpattern] at h
      | ok found =>
          simp only [hpattern] at h
          cases hothers : ofPatterns patterns with
          | error failure => simp [hothers] at h
          | ok others =>
              simp only [hothers, Except.ok.injEq] at h
              subst h
              simp only [List.mem_append, Option.mem_toList, ih hothers, List.mem_cons,
                exists_eq_or_imp, hpattern, Except.ok.injEq]

theorem Rule.exists_ofPatterns {patterns : List Pattern}
    (h : ∀ pattern ∈ patterns, ∃ rule, ofPattern pattern = .ok rule) :
    ∃ rules, ofPatterns patterns = .ok rules := by
  induction patterns with
  | nil => exact ⟨[], rfl⟩
  | cons pattern patterns ih =>
      obtain ⟨rule, hrule⟩ := h pattern (by simp)
      obtain ⟨rules, hrules⟩ := ih fun other hmem => h other (List.mem_cons_of_mem _ hmem)
      exact ⟨rule.toList ++ rules, by simp only [ofPatterns, hrule, hrules]⟩

namespace Source

/-- Whether all patterns of a source are lines that can be read. -/
def Compiles (source : Source) : Prop :=
  ∀ pattern ∈ source.patterns, ∃ line rule, pattern = .text line ∧ Rule.ofLine line = .ok rule

/-- Whether a source has a negated line. -/
def Negates (source : Source) : Prop :=
  ∃ line, .text line ∈ source.patterns ∧ line.head? = some (.scalar '!')

theorem anyNegated_of_texts {patterns : List Pattern}
    (h : ∀ pattern ∈ patterns, ∃ line, pattern = .text line) :
    ∃ answer, anyNegated patterns = .ok answer ∧
      (answer = true ↔ ∃ line, .text line ∈ patterns ∧ line.head? = some (.scalar '!')) := by
  induction patterns with
  | nil => exact ⟨false, rfl, by simp⟩
  | cons pattern patterns ih =>
      obtain ⟨line, rfl⟩ := h pattern (by simp)
      obtain ⟨answer, hanswer, hiff⟩ := ih fun other hmem => h other (List.mem_cons_of_mem _ hmem)
      by_cases hline : line.head? = some (.scalar '!')
      · exact ⟨true, by rw [anyNegated, if_pos hline], by simp [hline]⟩
      · refine ⟨answer, by rw [anyNegated, if_neg hline, hanswer], ?_⟩
        simp [hiff, or_and_right, exists_or, hline]

variable {source : Source} (hsource : source.Compiles)

include hsource in
theorem anyNegated_of_compiles :
    ∃ answer, anyNegated source.patterns = .ok answer ∧ (answer = true ↔ source.Negates) := by
  refine anyNegated_of_texts fun pattern hpattern => ?_
  obtain ⟨line, -, rfl, -⟩ := hsource pattern hpattern
  exact ⟨line, rfl⟩

include hsource in
theorem exists_rules : ∃ rules, source.rules = .ok rules := by
  refine Rule.exists_ofPatterns fun pattern hpattern => ?_
  obtain ⟨line, rule, rfl, hrule⟩ := hsource pattern hpattern
  exact ⟨rule, hrule⟩

/-- A pattern for directories can be read if the pattern can and is not negated. -/
theorem exists_ofPattern_folderPattern {line : Text} {rule : Option Rule}
    (hrule : Rule.ofLine line = .ok rule) (hnegated : line.head? ≠ some (.scalar '!')) :
    ∃ other, Rule.ofPattern (folderPattern (.text line)) = .ok other := by
  rcases folderPattern_text line with hsame | ⟨start, rfl, hfolder⟩
  · exact ⟨rule, by rw [hsame]; exact hrule⟩
  · rw [hfolder]
    exact Rule.exists_ofLine_folder hnegated hrule

include hsource in
/-- A source with a negated line has no rules for directories, another one has those of its
patterns for directories. -/
theorem exists_folderRules :
    ∃ rules, source.folderRules = .ok rules ∧
      ∀ rule, rule ∈ rules ↔ ¬source.Negates ∧ ∃ line, .text line ∈ source.patterns ∧
        Rule.ofPattern (folderPattern (.text line)) = .ok (some rule) := by
  obtain ⟨answer, hanswer, hiff⟩ := anyNegated_of_compiles hsource
  cases answer with
  | true =>
      refine ⟨[], ?_, ?_⟩
      · simp only [folderRules, folderPatterns, hanswer]
        rfl
      · simp [hiff.1 rfl]
  | false =>
      have hnone : ¬source.Negates := fun h => by simpa using hiff.2 h
      have hall : ∀ pattern ∈ source.patterns.map folderPattern,
          ∃ rule, Rule.ofPattern pattern = .ok rule := by
        intro pattern hpattern
        obtain ⟨inner, hinner, rfl⟩ := List.mem_map.1 hpattern
        obtain ⟨line, rule, rfl, hrule⟩ := hsource inner hinner
        exact exists_ofPattern_folderPattern hrule fun hhead => hnone ⟨line, hinner, hhead⟩
      obtain ⟨rules, hrules⟩ := Rule.exists_ofPatterns hall
      refine ⟨rules, by simp only [folderRules, folderPatterns, hanswer, hrules], fun rule => ?_⟩
      rw [Rule.mem_of_ofPatterns hrules]
      constructor
      · rintro ⟨pattern, hpattern, hrule⟩
        obtain ⟨inner, hinner, rfl⟩ := List.mem_map.1 hpattern
        obtain ⟨line, -, rfl, -⟩ := hsource inner hinner
        exact ⟨hnone, line, hinner, hrule⟩
      · rintro ⟨-, line, hline, hrule⟩
        exact ⟨_, List.mem_map.2 ⟨_, hline, rfl⟩, hrule⟩

include hsource in
theorem exists_ignores (viewpoint : Viewpoint) (path : Path) :
    ∃ answer, source.ignores viewpoint path = .ok answer := by
  obtain ⟨rules, hrules⟩ := exists_rules hsource
  rw [ignores]
  cases source.view? viewpoint path with
  | none => exact ⟨_, rfl⟩
  | some seen =>
      simp only [hrules]
      exact ⟨_, rfl⟩

include hsource in
theorem exists_ignoresFolder (viewpoint : Viewpoint) (path : Path) :
    ∃ answer, source.ignoresFolder viewpoint path = .ok answer := by
  obtain ⟨rules, hrules, -⟩ := exists_folderRules hsource
  rw [ignoresFolder]
  cases source.view? viewpoint path with
  | none => exact ⟨_, rfl⟩
  | some seen =>
      by_cases hself : seen = selfPart
      · simp only [if_pos hself]
        exact ⟨_, rfl⟩
      · simp only [if_neg hself, hrules]
        exact ⟨_, rfl⟩

end Source

namespace IgnoreSet

/-- A test that always has an answer holds of any source exactly if it holds of one. -/
theorem anySource_of_answers {test : Source → Except Failure Bool} {sources : List Source}
    (h : ∀ source ∈ sources, ∃ answer, test source = .ok answer) :
    ∃ answer, anySource test sources = .ok answer ∧
      (answer = true ↔ ∃ source ∈ sources, test source = .ok true) := by
  induction sources with
  | nil => exact ⟨false, rfl, by simp⟩
  | cons source sources ih =>
      obtain ⟨first, hfirst⟩ := h source (by simp)
      obtain ⟨answer, hanswer, hiff⟩ := ih fun other hmem => h other (List.mem_cons_of_mem _ hmem)
      cases first with
      | true => exact ⟨true, by simp only [anySource, hfirst], by simp [hfirst]⟩
      | false =>
          refine ⟨answer, by simp only [anySource, hfirst, hanswer], ?_⟩
          simp [hiff, hfirst]

theorem anySource_eq_false {test : Source → Except Failure Bool} {sources : List Source} :
    anySource test sources = .ok false ↔ ∀ source ∈ sources, test source = .ok false := by
  induction sources with
  | nil => simp [anySource]
  | cons source sources ih =>
      rw [anySource, List.forall_mem_cons]
      cases test source with
      | error failure => simp
      | ok first => cases first <;> simp [ih]

theorem anySource_perm {test : Source → Except Failure Bool} {sources others : List Source}
    (h : ∀ source ∈ sources, ∃ answer, test source = .ok answer) (hperm : sources.Perm others) :
    anySource test others = anySource test sources := by
  obtain ⟨answer, hanswer, hiff⟩ := anySource_of_answers h
  have hothers : ∀ source ∈ others, ∃ answer, test source = .ok answer :=
    fun source hmem => h source (hperm.mem_iff.2 hmem)
  obtain ⟨other, hother, hotherIff⟩ := anySource_of_answers hothers
  have hsame : other = true ↔ answer = true := by
    rw [hotherIff, hiff]
    simp only [hperm.mem_iff]
  rw [hanswer, hother, Bool.eq_iff_iff.2 hsame]

/-- Whether all patterns that count while globs are expanded are lines that can be read. -/
def Compiles (set : IgnoreSet) : Prop :=
  ∀ source ∈ set, source.whileGlobbing = true → source.Compiles

variable {set : IgnoreSet} (hset : set.Compiles) (viewpoint : Viewpoint) (path : Path)

include hset in
theorem ignoresWhileGlobbing_of_compiles :
    ∃ answer, set.ignoresWhileGlobbing viewpoint path = .ok answer ∧
      (answer = true ↔ ∃ source ∈ set, source.whileGlobbing = true ∧
        source.ignores viewpoint path = .ok true) := by
  have hanswers : ∀ source ∈ set.filter (·.whileGlobbing),
      ∃ answer, source.ignores viewpoint path = .ok answer := by
    intro source hmem
    obtain ⟨hsource, hglobbing⟩ := List.mem_filter.1 hmem
    exact Source.exists_ignores (hset source hsource hglobbing) viewpoint path
  obtain ⟨answer, hanswer, hiff⟩ := anySource_of_answers hanswers
  refine ⟨answer, hanswer, hiff.trans ?_⟩
  simp only [List.mem_filter, and_assoc]

include hset in
theorem prunes_of_compiles :
    ∃ answer, set.prunes viewpoint path = .ok answer ∧
      (answer = true ↔ ∃ source ∈ set, source.whileGlobbing = true ∧
        source.ignoresFolder viewpoint path = .ok true) := by
  have hanswers : ∀ source ∈ set.filter (·.whileGlobbing),
      ∃ answer, source.ignoresFolder viewpoint path = .ok answer := by
    intro source hmem
    obtain ⟨hsource, hglobbing⟩ := List.mem_filter.1 hmem
    exact Source.exists_ignoresFolder (hset source hsource hglobbing) viewpoint path
  obtain ⟨answer, hanswer, hiff⟩ := anySource_of_answers hanswers
  refine ⟨answer, hanswer, hiff.trans ?_⟩
  simp only [List.mem_filter, and_assoc]

include hset in
theorem exists_prunes : ∃ answer, set.prunes viewpoint path = .ok answer := by
  obtain ⟨answer, hanswer, -⟩ := prunes_of_compiles hset viewpoint path
  exact ⟨answer, hanswer⟩

end IgnoreSet
end ProjectLint
