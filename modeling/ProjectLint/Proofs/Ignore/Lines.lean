import Mathlib.Data.List.Induction
import Mathlib.Data.List.TakeWhile
import ProjectLint.Ignore.File
import ProjectLint.Proofs.Ignore.Compiled
import ProjectLint.Proofs.Ignore.Literal

/-!
The lines of an ignore file that are left out before it is read. A line that starts with a number
sign stands for no rule, and neither does a blank line; a line with blanks before the sign is left
out as well, but it would stand for a rule. Main statement: the lines that are kept decide as all
lines do, except about paths that a line of this kind would have been the last one to find.
-/

namespace ProjectLint

namespace Rule

/-- The rule of a line that can be read, if there is one. -/
def ofLine? (line : Text) : Option Rule :=
  match ofLine line with
  | .ok rule => rule
  | .error _ => none

theorem ofPatterns_texts {lines : List Text} (h : ∀ line ∈ lines, ∃ rule, ofLine line = .ok rule) :
    ofPatterns (lines.map .text) = .ok (lines.filterMap ofLine?) := by
  induction lines with
  | nil => rfl
  | cons line lines ih =>
      obtain ⟨⟨rule, hrule⟩, hlines⟩ := List.forall_mem_cons.1 h
      have hline : ofLine? line = rule := by rw [ofLine?, hrule]
      have hpattern : ofPattern (.text line) = .ok rule := hrule
      rw [List.map_cons, ofPatterns, hpattern, ih hlines]
      cases rule with
      | none => simp [hline]
      | some rule => simp [hline]

/-- The last rule decides about a path if it looks for it, and leaves it to the others if not. -/
theorem decides_append_singleton (rules : List Rule) (rule : Rule) (path : Text) :
    decides (rules ++ [rule]) path =
      if rule.target.selects (subject path) then !rule.negated else decides rules path := by
  rw [decides, List.filter_append]
  by_cases hselects : rule.target.selects (subject path) = true
  · simp [hselects]
  · simp [hselects, decides]

theorem trimLine_eq_nil {line : Text} (h : line.trimLeft = []) : trimLine line = [] := by
  have hblank : ∀ c ∈ line, c.isBlank = true := List.dropWhile_eq_nil_iff.1 h
  rw [trimLine]
  split
  · rename_i rest hend
    have hmark := hblank (.scalar '\\') (by rw [← List.mem_reverse, hend]; simp)
    cases hmark
  · rw [Text.trimRight, List.reverse_eq_nil_iff, List.dropWhile_eq_nil_iff]
    exact fun c hc => hblank c (List.mem_reverse.1 hc)

theorem trimLine_ne_nil {line : Text} {c : CodePoint} (hmem : c ∈ line) (hc : c.isBlank = false) :
    trimLine line ≠ [] := by
  rw [trimLine]
  split
  · exact List.ne_nil_of_mem hmem
  · rw [Text.trimRight, ne_eq, List.reverse_eq_nil_iff, List.dropWhile_eq_nil_iff]
    intro hblank
    rw [hblank c (List.mem_reverse.2 hmem)] at hc
    cases hc

theorem ofLine_of_blank {line : Text} (h : line.trimLeft = []) : ofLine line = .ok none := by
  rw [ofLine, trimLine_eq_nil h]

theorem ofLine_of_numberSign {line : Text} (h : line.head? = some (.scalar '#')) :
    ofLine line = .ok none := by
  have hmem : CodePoint.scalar '#' ∈ line := List.mem_of_head? h
  obtain ⟨c, body, hbody⟩ := List.exists_cons_of_ne_nil (trimLine_ne_nil hmem rfl)
  obtain ⟨rest, hrest⟩ := trimLine_prefix line
  rw [← hrest, hbody, List.cons_append, List.head?_cons] at h
  exact ofLine_of_comment (by rw [hbody, List.head?_cons, h])

end Rule

namespace IgnoreFile

/-- Whether blanks stand before the number sign that a line starts with. -/
def IsIndentedComment (line : Text) : Prop :=
  line.trimLeft.head? = some (.scalar '#') ∧ line.head? ≠ some (.scalar '#')

instance (line : Text) : Decidable (IsIndentedComment line) :=
  inferInstanceAs (Decidable (_ ∧ _))

/-- Whether a line stands for a rule that looks for a path. -/
def finds (path line : Text) : Bool :=
  (Rule.ofLine? line).any fun rule => rule.target.selects (Rule.subject path)

/-- The line that decides about a path: the last one that stands for a rule looking for it. -/
def deciding? (path : Text) (texts : List Text) : Option Text :=
  (texts.filter (finds path)).getLast?

variable {line path : Text} {rule : Rule}

theorem isPattern_eq_false :
    isPattern line = false ↔
      line.trimLeft = [] ∨ line.trimLeft.head? = some (.scalar '#') := by
  rw [isPattern]
  cases line.trimLeft with
  | nil => simp
  | cons c rest => simp

theorem IsIndentedComment.not_isPattern (h : IsIndentedComment line) : isPattern line = false :=
  isPattern_eq_false.2 (Or.inr h.1)

/-- A line that is left out stands for no rule, unless it is an indented comment. -/
theorem indented_of_not_isPattern (hline : isPattern line = false)
    (hrule : Rule.ofLine? line = some rule) : IsIndentedComment line := by
  rcases isPattern_eq_false.1 hline with hblank | hsign
  · rw [Rule.ofLine?, Rule.ofLine_of_blank hblank] at hrule
    cases hrule
  · refine ⟨hsign, fun hhead => ?_⟩
    rw [Rule.ofLine?, Rule.ofLine_of_numberSign hhead] at hrule
    cases hrule

/-- An indented comment takes no path back. -/
theorem IsIndentedComment.negated (h : IsIndentedComment line)
    (hrule : Rule.ofLine? line = some rule) : rule.negated = false := by
  have hhead : line.head? ≠ some (.scalar '!') := by
    intro hhead
    cases line with
    | nil => cases hhead
    | cons c rest =>
        rw [List.head?_cons, Option.some.injEq] at hhead
        subst hhead
        cases h.1
  cases hline : Rule.ofLine line with
  | error failure => simp [Rule.ofLine?, hline] at hrule
  | ok found =>
      simp only [Rule.ofLine?, hline] at hrule
      exact Rule.negated_of_ofLine (hrule ▸ hline) hhead

theorem deciding?_of_finds (texts : List Text) (h : finds path line = true) :
    deciding? path (texts ++ [line]) = some line := by
  simp [deciding?, List.filter_append, h]

theorem deciding?_of_not_finds (texts : List Text) (h : finds path line = false) :
    deciding? path (texts ++ [line]) = deciding? path texts := by
  simp [deciding?, List.filter_append, h]

/-- A line that does not stand for a rule looking for a path says nothing about it. -/
theorem decides_of_not_finds (texts : List Text) (h : finds path line = false) :
    Rule.decides ((texts ++ [line]).filterMap Rule.ofLine?) path =
      Rule.decides (texts.filterMap Rule.ofLine?) path := by
  rw [List.filterMap_append]
  cases hrule : Rule.ofLine? line with
  | none => simp [hrule]
  | some rule =>
      have hselects : rule.target.selects (Rule.subject path) = false := by
        simpa [finds, hrule] using h
      simp [hrule, Rule.decides_append_singleton, hselects]

theorem decides_of_finds (texts : List Text) (hrule : Rule.ofLine? line = some rule)
    (h : finds path line = true) :
    Rule.decides ((texts ++ [line]).filterMap Rule.ofLine?) path = !rule.negated := by
  have hselects : rule.target.selects (Rule.subject path) = true := by
    simpa [finds, hrule] using h
  rw [List.filterMap_append]
  simp [hrule, Rule.decides_append_singleton, hselects]

theorem filter_isPattern_append (texts : List Text) (line : Text) :
    (texts ++ [line]).filter isPattern =
      if isPattern line then texts.filter isPattern ++ [line] else texts.filter isPattern := by
  rw [List.filter_append]
  cases hline : isPattern line <;> simp [hline]

/-- What lines decide about a path changes with the lines that are left out exactly if an indented
comment decides about it, and no line before it has the path ignored anyway. -/
theorem decides_filter_ne_iff (path : Text) (texts : List Text) :
    Rule.decides ((texts.filter isPattern).filterMap Rule.ofLine?) path ≠
        Rule.decides (texts.filterMap Rule.ofLine?) path ↔
      Rule.decides ((texts.filter isPattern).filterMap Rule.ofLine?) path = false ∧
        ∃ line, deciding? path texts = some line ∧ IsIndentedComment line := by
  induction texts using List.reverseRecOn with
  | nil => simp [deciding?]
  | append_singleton texts line ih =>
      cases hfinds : finds path line with
      | false =>
          have hkept : Rule.decides (((texts ++ [line]).filter isPattern).filterMap Rule.ofLine?)
              path = Rule.decides ((texts.filter isPattern).filterMap Rule.ofLine?) path := by
            rw [filter_isPattern_append]
            split
            · exact decides_of_not_finds _ hfinds
            · rfl
          rw [hkept, decides_of_not_finds texts hfinds, deciding?_of_not_finds texts hfinds, ih]
      | true =>
          obtain ⟨rule, hrule⟩ : ∃ rule, Rule.ofLine? line = some rule := by
            obtain ⟨rule, hrule, -⟩ := Option.any_eq_true _ _ |>.1 hfinds
            exact ⟨rule, hrule⟩
          rw [filter_isPattern_append, decides_of_finds texts hrule hfinds,
            deciding?_of_finds texts hfinds]
          cases hline : isPattern line with
          | true =>
              have hplain : ¬IsIndentedComment line := fun hindented => by
                simpa [hline] using hindented.not_isPattern
              rw [if_pos rfl, decides_of_finds _ hrule hfinds]
              simp [hplain]
          | false =>
              have hindented := indented_of_not_isPattern hline hrule
              simp [hindented.negated hrule, hindented]

/-- The lines that are kept of a text decide about a path as all of its lines do, unless the last
line that finds it is an indented comment and the lines that are kept do not ignore it anyway. -/
theorem decides_patterns_ne_iff {content : Text}
    (h : ∀ line ∈ lines content, ∃ rule, Rule.ofLine line = .ok rule) :
    ∃ all kept, Rule.ofPatterns ((lines content).map .text) = .ok all ∧
      Rule.ofPatterns ((patterns content).map .text) = .ok kept ∧
        ∀ path, Rule.decides kept path ≠ Rule.decides all path ↔
          Rule.decides kept path = false ∧
            ∃ line, deciding? path (lines content) = some line ∧ IsIndentedComment line := by
  have hkept : ∀ line ∈ patterns content, ∃ rule, Rule.ofLine line = .ok rule :=
    fun line hmem => h line (List.mem_filter.1 hmem).1
  exact ⟨_, _, Rule.ofPatterns_texts h, Rule.ofPatterns_texts hkept,
    fun path => decides_filter_ne_iff path (lines content)⟩

/-- Lines with a comment, one that is blank, and a rule that takes back paths of the one before. -/
def mixedLines : Text := "# made\n*.js\r\n  \n!a.js\n"

/-- No blanks stand before a number sign here, so that nothing changes. -/
theorem mixedLines_kept : (∀ line ∈ lines mixedLines, ∃ rule, Rule.ofLine line = .ok rule) ∧
    ∃ all kept, Rule.ofPatterns ((lines mixedLines).map .text) = .ok all ∧
      Rule.ofPatterns ((patterns mixedLines).map .text) = .ok kept ∧
        ∀ path, Rule.decides kept path = Rule.decides all path := by
  have hplain : ∀ line ∈ lines mixedLines, ¬IsIndentedComment line := by decide
  have hlines : lines mixedLines = (["# made", "*.js", "  ", "!a.js", ""] : List Text) := rfl
  have hread : ∀ line ∈ lines mixedLines, ∃ rule, Rule.ofLine line = .ok rule := by
    rw [hlines]
    simp only [List.forall_mem_cons]
    exact ⟨⟨_, rfl⟩, ⟨_, rfl⟩, ⟨_, rfl⟩, ⟨_, rfl⟩, ⟨_, rfl⟩, List.forall_mem_nil _⟩
  obtain ⟨all, kept, hall, hkept, hiff⟩ := decides_patterns_ne_iff hread
  refine ⟨hread, all, kept, hall, hkept, fun path => ?_⟩
  by_contra hne
  obtain ⟨-, line, hline, hindented⟩ := (hiff path).1 hne
  exact hplain line (List.mem_filter.1 (List.mem_of_getLast? hline)).1 hindented

/-- A line with a blank before the number sign is a rule, which is lost. -/
theorem indented_line_lost : ∃ all kept,
    Rule.ofPatterns ((lines " #x.js\n").map .text) = .ok all ∧
      Rule.ofPatterns ((patterns " #x.js\n").map .text) = .ok kept ∧
        Rule.decides all " #x.js" = true ∧ Rule.decides kept " #x.js" = false :=
  ⟨_, _, rfl, rfl, by decide, by decide⟩

end IgnoreFile
end ProjectLint
