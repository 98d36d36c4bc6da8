import ProjectLint.Proofs.Ignore.BuiltIn
import ProjectLint.Proofs.Ignore.Compiled
import ProjectLint.Proofs.Path.Below

/-!
When a directory that is left out as a whole has only ignored files below it. A path below a
directory is seen as the directory followed by more components, unless the directory lies above the
place that paths are seen from. Main statement: if every line of the sources is one that goes down
from a directory to whatever lies below, only ignored paths lie below a pruned directory.
-/

namespace ProjectLint

namespace Element

/-- Whether an element looks at what is left of a text. -/
def isEnd : Element → Bool
  | nameEnd | lastNameEnd => true
  | single _ | run | name | slash | leadingFolders | innerFolders => false

theorem Takes.of_not_end {e : Element} (he : e.isEnd = false) {taken rest : Text} (other : Text)
    (h : e.Takes taken rest) : e.Takes taken other := by
  cases e with
  | single _ | run | name | slash | leadingFolders | innerFolders => exact h
  | nameEnd | lastNameEnd => cases he

/-- Elements that do not look at the rest take the same before any other rest. -/
theorem Reads.of_not_end {es : List Element} (hes : ∀ e ∈ es, e.isEnd = false)
    {taken rest : Text} (other : Text) (h : Reads es taken rest) : Reads es taken other := by
  induction h with
  | done rest => exact .done other
  | next htakes hlater ih =>
      have hrest := ih fun e he => hes e (List.mem_cons_of_mem _ he)
      exact .next (htakes.of_not_end (hes _ (by simp)) _) hrest

/-- Whether a sequence does not stop at the end of a path that has a slash there: it does not look
at the end at all, or takes names up to it. -/
def Steady (sequence : List Element) : Prop :=
  (∀ e ∈ sequence, e.isEnd = false) ∨
    ∃ start last, (∀ e ∈ start, e.isEnd = false) ∧ sequence = start ++ [last, .nameEnd] ∧
      (last = .run ∨ ∃ test : Single, last = .single test ∧ test.accepts (.scalar '/') = false)

theorem isSlash_false_of_not_mem {t : Text} (h : CodePoint.scalar '/' ∉ t) :
    ∀ c ∈ t, isSlash c = false := by
  intro c hc
  simp only [isSlash, beq_eq_false_iff_ne]
  rintro rfl
  exact h hc

/-- What is left of a text with a slash at its end ends with that slash. -/
theorem getLast?_of_append_slash {folder first later : Text}
    (h : folder ++ [.scalar '/'] = first ++ later) (hne : later ≠ []) :
    later.getLast? = some (.scalar '/') := by
  have hlast := congrArg List.getLast? h
  rw [List.getLast?_concat, List.getLast?_append] at hlast
  cases hlater : later.getLast? with
  | none => exact absurd (List.getLast?_eq_none_iff.1 hlater) hne
  | some c =>
      rw [hlater] at hlast
      simpa using hlast.symm

theorem eq_nil_of_atEnd {folder taken rest : Text} (h : folder ++ [.scalar '/'] = taken ++ rest)
    (hend : atEnd rest = true) : rest = [] := by
  simp only [atEnd, Bool.or_eq_true, beq_iff_eq] at hend
  refine hend.resolve_right fun hline => ?_
  have hlast := getLast?_of_append_slash h (by simp [hline])
  rw [hline] at hlast
  exact absurd hlast (by decide)

theorem reads_nameEnd {start : List Element} {last : Element} {taken rest : Text} :
    Reads (start ++ [last, .nameEnd]) taken rest ↔
      ∃ first mid ending, taken = first ++ (mid ++ ending) ∧
        Reads start first (mid ++ ending ++ rest) ∧ last.Takes mid (ending ++ rest) ∧
          Element.nameEnd.Takes ending rest := by
  simp only [reads_append, reads_cons, reads_nil]
  constructor
  · rintro ⟨first, _, rfl, hfirst, mid, _, rfl, hmid, ending, _, rfl, hending, rfl⟩
    simp only [List.append_nil] at hfirst hmid ⊢
    exact ⟨first, mid, ending, rfl, hfirst, hmid, hending⟩
  · rintro ⟨first, mid, ending, rfl, hfirst, hmid, hending⟩
    exact ⟨first, _, rfl, hfirst, mid, _, rfl, hmid, ending, [], (List.append_nil _).symm, hending,
      rfl⟩

/-- Where a text ends with a slash, an element that takes no slash takes nothing at the end. -/
theorem eq_run_of_takes {last : Element}
    (hlast : last = .run ∨ ∃ test : Single, last = .single test ∧
      test.accepts (.scalar '/') = false)
    {folder first mid rest : Text} (hmid : last.Takes mid rest)
    (htext : folder ++ [.scalar '/'] = first ++ mid) : mid = [] ∧ last = .run := by
  have hslash : CodePoint.scalar '/' ∉ mid := by
    intro hmem
    rcases hlast with rfl | ⟨test, rfl, htest⟩
    · exact absurd (hmid _ hmem) (by decide)
    · obtain ⟨c, hc, rfl⟩ := hmid
      rw [List.mem_singleton.1 hmem, hc] at htest
      cases htest
  have hnil : mid = [] := Classical.byContradiction fun hne =>
    hslash (List.mem_of_getLast? (getLast?_of_append_slash htext hne))
  refine ⟨hnil, hlast.resolve_right ?_⟩
  rintro ⟨test, rfl, -⟩
  obtain ⟨c, -, hc⟩ := hmid
  cases hnil.symm.trans hc

/-- A steady sequence that matches a directory with a slash at its end matches whatever follows. -/
theorem Steady.matches_append {sequence : List Element} (h : Steady sequence) {folder : Text}
    (hfolder : sequenceMatches sequence (folder ++ [.scalar '/']) = true) {piece after : Text}
    (hpiece : CodePoint.scalar '/' ∉ piece) (hafter : after = [] ∨ ∃ w, after = .scalar '/' :: w) :
    sequenceMatches sequence (folder ++ .scalar '/' :: (piece ++ after)) = true := by
  obtain ⟨taken, rest, htext, hreads⟩ := sequenceMatches_eq_true.1 hfolder
  have hlonger : folder ++ .scalar '/' :: (piece ++ after) =
      taken ++ (rest ++ (piece ++ after)) := by
    rw [← List.append_assoc taken, ← htext]
    simp
  rcases h with hopen | ⟨start, last, hopen, rfl, hlast⟩
  · exact sequenceMatches_eq_true.2 ⟨taken, _, hlonger, hreads.of_not_end hopen _⟩
  · obtain ⟨first, mid, ending, rfl, hfirst, hmid, hending⟩ := reads_nameEnd.1 hreads
    rcases hending with ⟨rfl, hend⟩ | rfl
    · -- Nothing is left after the slash, so the last element before the end took no name.
      obtain rfl := eq_nil_of_atEnd htext hend
      simp only [List.append_nil] at htext
      obtain ⟨rfl, rfl⟩ := eq_run_of_takes hlast hmid htext
      obtain ⟨ending, left, rfl, hending⟩ : ∃ ending left, after = ending ++ left ∧
          Element.nameEnd.Takes ending left := by
        rcases hafter with rfl | ⟨w, rfl⟩
        · exact ⟨[], [], rfl, Or.inl ⟨rfl, rfl⟩⟩
        · exact ⟨[.scalar '/'], w, rfl, Or.inr rfl⟩
      refine sequenceMatches_eq_true.2 ⟨first ++ (piece ++ ending), left, ?_, ?_⟩
      · rw [hlonger]
        simp
      · exact reads_nameEnd.2 ⟨first, piece, ending, rfl, hfirst.of_not_end hopen _,
          isSlash_false_of_not_mem hpiece, hending⟩
    · -- The slash was taken, so the same elements take the same text before anything that follows.
      have hlastEnd : last.isEnd = false := by
        rcases hlast with rfl | ⟨test, rfl, -⟩ <;> rfl
      refine sequenceMatches_eq_true.2 ⟨_, _, hlonger, ?_⟩
      exact reads_nameEnd.2 ⟨first, mid, _, rfl, hfirst.of_not_end hopen _,
        hmid.of_not_end hlastEnd _, Or.inr rfl⟩

end Element

namespace Source

/-- A plain relative path leads outside exactly if its first component is `..`. -/
theorem leadsOutside_iff {parts : List Text} (h : (Path.mk .relative parts).Plain) :
    ((Path.mk .relative parts).toText = parentPart ||
      outside.isPrefixOf (Path.mk .relative parts).toText) = true ↔
        parts.head? = some parentPart := by
  have hcut : ∀ t : Text, outside.isPrefixOf t = true ↔
      ∃ rest, t = parentPart ++ .scalar '/' :: rest := by
    intro t
    rw [List.isPrefixOf_iff_prefix]
    constructor
    · rintro ⟨rest, rfl⟩
      exact ⟨rest, rfl⟩
    · rintro ⟨rest, rfl⟩
      exact ⟨rest, rfl⟩
  simp only [Bool.or_eq_true, decide_eq_true_eq, hcut]
  cases parts with
  | nil =>
      simp only [List.head?_nil, reduceCtorEq, iff_false, not_or, not_exists]
      refine ⟨by decide, fun rest heq => ?_⟩
      cases heq
  | cons part parts =>
      have hcomponents := Path.split_toText h (by simp)
      rw [List.head?_cons, Option.some.injEq]
      constructor
      · rintro (heq | ⟨rest, heq⟩)
        · rw [heq] at hcomponents
          exact (List.cons.inj hcomponents).1.symm
        · rw [heq, Text.split_append] at hcomponents
          exact (List.cons.inj hcomponents).1.symm
      · rintro rfl
        cases parts with
        | nil => exact Or.inl rfl
        | cons other parts =>
            exact Or.inr ⟨Text.join [.scalar '/'] (other :: parts), by simp [Path.toText, Text.join]⟩

/-- How a source sees a path, by the components. -/
theorem view?_of_isAbsolute (source : Source) {viewpoint : Viewpoint} {path : Path}
    (habsolute : path.isAbsolute = true) (hplain : path.Plain) :
    source.view? viewpoint path =
      match source.base with
      | none =>
          some (Path.mk .relative (Path.seenParts viewpoint.process path viewpoint.call)).toText
      | some base =>
          if (Path.seenParts viewpoint.process path base).head? = some parentPart then none
          else some (Path.mk .relative (Path.seenParts viewpoint.process path base)).toText := by
  rw [view?]
  cases source.base with
  | none => simp only [Path.relativeTo_of_isAbsolute viewpoint.call habsolute]
  | some base =>
      simp only [Path.relativeTo_of_isAbsolute base habsolute]
      simp only [leadsOutside_iff (Path.plain_seenParts base hplain)]

/-- What lies below a directory that a source sees is seen below it, if the directory is not seen
as a number of `..`. -/
theorem view?_below (source : Source) {viewpoint : Viewpoint} {path : Path} {below : List Text}
    (habsolute : path.isAbsolute = true)
    (hplain : (Path.mk path.anchor (path.parts ++ below)).Plain) (hbelow : parentPart ∉ below)
    {seen : Text} (h : source.view? viewpoint path = some seen) :
    (∃ n, seen = Path.parents n) ∨
      ∃ parts, parts ≠ [] ∧ (Path.mk .relative (parts ++ below)).Plain ∧
        seen = (Path.mk .relative parts).toText ∧
        source.view? viewpoint ⟨path.anchor, path.parts ++ below⟩ =
          some (Path.mk .relative (parts ++ below)).toText := by
  have hpath : path.Plain := fun part hpart => hplain part (List.mem_append_left _ hpart)
  have hdeep : (Path.mk path.anchor (path.parts ++ below)).isAbsolute = true := habsolute
  rw [view?_of_isAbsolute source habsolute hpath] at h
  rw [view?_of_isAbsolute source hdeep hplain]
  have hparts : ∀ base, seen = (Path.mk .relative
      (Path.seenParts viewpoint.process path base)).toText →
      (∃ n, seen = Path.parents n) ∨ (Path.seenParts viewpoint.process path base ≠ [] ∧
        Path.seenParts viewpoint.process ⟨path.anchor, path.parts ++ below⟩ base =
          Path.seenParts viewpoint.process path base ++ below) := by
    intro base hseen
    rcases Path.seenParts_below viewpoint.process base path hbelow with ⟨n, hn⟩ | hfound
    · refine Or.inl ⟨n, ?_⟩
      rw [hseen, hn]
      rfl
    · exact Or.inr hfound
  cases hbase : source.base with
  | none =>
      simp only [hbase, Option.some.injEq] at h ⊢
      refine (hparts viewpoint.call h.symm).imp_right fun ⟨hne, hmore⟩ => ?_
      refine ⟨_, hne, ?_, h.symm, by rw [hmore]⟩
      rw [← hmore]
      exact Path.plain_seenParts viewpoint.call hplain
  | some base =>
      simp only [hbase] at h ⊢
      by_cases hhead : (Path.seenParts viewpoint.process path base).head? = some parentPart
      · simp [hhead] at h
      · simp only [if_neg hhead, Option.some.injEq] at h
        refine (hparts base h.symm).imp_right fun ⟨hne, hmore⟩ => ?_
        refine ⟨_, hne, ?_, h.symm, ?_⟩
        · rw [← hmore]
          exact Path.plain_seenParts base hplain
        · rw [hmore, if_neg]
          cases hseen : Path.seenParts viewpoint.process path base with
          | nil => exact absurd hseen hne
          | cons part parts =>
              rw [hseen] at hhead
              exact hhead

end Source

namespace Rule

/-- Whether a rule that finds a directory finds whatever lies below it: it does not stop at the end
of a name that a slash follows, and finds no directory that lies above. -/
def GoesDown (rule : Rule) : Prop :=
  ∃ sequence, rule = ⟨false, .elements sequence⟩ ∧ Element.Steady sequence ∧
    ∀ n, Element.sequenceMatches sequence (Path.parents (n + 1) ++ [.scalar '/']) = false

/-- Whether a line is nothing, or a rule that goes down and is the same for directories. -/
def Descends (line : Text) : Prop :=
  ofLine line = .ok none ∨
    ∃ rule, ofLine line = .ok (some rule) ∧ ¬OnePieceBelow line ∧ rule.GoesDown

theorem Descends.of_folderPattern {line : Text} {rule : Rule} (h : Descends line)
    (hnegated : line.head? ≠ some (.scalar '!'))
    (hrule : ofPattern (Source.folderPattern (.text line)) = .ok (some rule)) :
    ofLine line = .ok (some rule) := by
  rcases Source.folderPattern_text line with hsame | ⟨start, rfl, hfolder⟩
  · rwa [hsame] at hrule
  · rw [hfolder] at hrule
    rcases h with hnone | ⟨_, hline, hpieces, sequence, rfl, -⟩
    · rw [ofPattern, ofLine_folder_of_none hnegated hnone] at hrule
      cases hrule
    · rw [ofPattern, ofLine_folder_eq hnegated hpieces hline] at hrule
      rw [hline, ← hrule]

theorem GoesDown.negated {rule : Rule} (h : rule.GoesDown) : rule.negated = false := by
  obtain ⟨sequence, rfl, -⟩ := h
  rfl

/-- A rule that goes down finds no directory that lies above the place paths are seen from. -/
theorem GoesDown.selects_parents {rule : Rule} (h : rule.GoesDown) (n : Nat) :
    rule.target.selects (subject (Path.parents (n + 1) ++ [.scalar '/'])) = false := by
  obtain ⟨sequence, rfl, -, hparents⟩ := h
  have hup : (Path.mk .relative (List.replicate (n + 1) parentPart)).Plain := by
    intro part hpart
    rw [(List.mem_replicate.1 hpart).2]
    exact isComponent_parentPart
  have hsubject := Path.subject_toText_append hup (by simp) [.scalar '/']
  rw [Path.parents, hsubject]
  exact hparents n

theorem GoesDown.selects_below {rule : Rule} (h : rule.GoesDown) {parts below : List Text}
    (hplain : (Path.mk .relative (parts ++ below)).Plain) (hparts : parts ≠ []) (hne : below ≠ [])
    (hfolder : rule.target.selects
      (subject ((Path.mk .relative parts).toText ++ [.scalar '/'])) = true) :
    rule.target.selects (subject (Path.mk .relative (parts ++ below)).toText) = true := by
  obtain ⟨sequence, rfl, hsteady, -⟩ := h
  have hfirst : (Path.mk .relative parts).Plain :=
    fun part hpart => hplain part (List.mem_append_left _ hpart)
  rw [Path.subject_toText_append hfirst hparts] at hfolder
  rw [Path.subject_toText hplain, Path.toText_append hparts hne]
  simp only [Target.selects] at hfolder ⊢
  cases below with
  | nil => exact absurd rfl hne
  | cons piece others =>
      have hpiece := (hplain piece (by simp)).2.2
      cases others with
      | nil =>
          have hmatch := hsteady.matches_append hfolder hpiece (Or.inl rfl)
          simpa [Text.join] using hmatch
      | cons other others =>
          have hmatch := hsteady.matches_append hfolder hpiece
            (Or.inr ⟨Text.join [.scalar '/'] (other :: others), rfl⟩)
          simpa [Text.join] using hmatch

end Rule

namespace Source

/-- Whether a source has a negated line, so that it finds no directories, or all its lines go down
from the directories that they find. -/
def Descends (source : Source) : Prop :=
  source.Negates ∨ ∀ line, .text line ∈ source.patterns → Rule.Descends line

theorem goesDown_of_mem_rules {source : Source} (hsource : source.Compiles)
    (hdescends : source.Descends) (hnone : ¬source.Negates) {rules : List Rule}
    (hrules : source.rules = .ok rules) : ∀ rule ∈ rules, rule.GoesDown := by
  intro rule hmem
  obtain ⟨pattern, hpattern, hrule⟩ := (Rule.mem_of_ofPatterns hrules).1 hmem
  obtain ⟨line, -, rfl, -⟩ := hsource pattern hpattern
  rcases hdescends.resolve_left hnone line hpattern with hnothing | ⟨other, hline, -, hdown⟩
  · rw [Rule.ofPattern, hnothing] at hrule
    cases hrule
  · rw [Rule.ofPattern, hline] at hrule
    cases hrule
    exact hdown

/-- A directory that such a source ignores is found by one of its rules, all of which go down. -/
theorem exists_rule_of_ignoresFolder {source : Source} (hsource : source.Compiles)
    (hdescends : source.Descends) {viewpoint : Viewpoint} {path : Path}
    (h : source.ignoresFolder viewpoint path = .ok true) :
    ∃ seen rules rule, source.view? viewpoint path = some seen ∧ seen ≠ selfPart ∧
      source.rules = .ok rules ∧ (∀ other ∈ rules, other.GoesDown) ∧ rule ∈ rules ∧
      rule.target.selects (Rule.subject (seen ++ [.scalar '/'])) = true := by
  obtain ⟨folderRules, hfolderRules, hfolder⟩ := exists_folderRules hsource
  obtain ⟨rules, hrules⟩ := exists_rules hsource
  rw [ignoresFolder] at h
  cases hview : source.view? viewpoint path with
  | none => simp [hview] at h
  | some seen =>
      by_cases hself : seen = selfPart
      · simp [hview, hself] at h
      · simp only [hview, if_neg hself, hfolderRules, Except.ok.injEq] at h
        have hnone : ¬source.Negates := by
          -- With a negated line no rule for directories is left to find this one.
          intro hnegates
          have hempty : folderRules = [] :=
            List.eq_nil_iff_forall_not_mem.2 fun rule hmem => ((hfolder rule).1 hmem).1 hnegates
          rw [hempty] at h
          cases h
        have hdown := goesDown_of_mem_rules hsource hdescends hnone hrules
        have hsame : ∀ rule ∈ folderRules, rule ∈ rules := by
          intro rule hmem
          obtain ⟨-, line, hline, hrule⟩ := (hfolder rule).1 hmem
          refine (Rule.mem_of_ofPatterns hrules).2 ⟨.text line, hline, ?_⟩
          exact (hdescends.resolve_left hnone line hline).of_folderPattern
            (fun hhead => hnone ⟨line, hline, hhead⟩) hrule
        rw [Rule.decides_of_positive fun rule hmem => (hdown rule (hsame rule hmem)).negated,
          List.any_eq_true] at h
        obtain ⟨rule, hmem, hselects⟩ := h
        exact ⟨seen, rules, rule, rfl, hself, hrules, hdown, hsame rule hmem, hselects⟩

/-- A source whose lines go down ignores whatever lies below a directory that it ignores. -/
theorem ignores_below {source : Source} (hsource : source.Compiles) (hdescends : source.Descends)
    {viewpoint : Viewpoint} {path : Path} {below : List Text} (habsolute : path.isAbsolute = true)
    (hplain : (Path.mk path.anchor (path.parts ++ below)).Plain) (hbelow : parentPart ∉ below)
    (hne : below ≠ []) (h : source.ignoresFolder viewpoint path = .ok true) :
    source.ignores viewpoint ⟨path.anchor, path.parts ++ below⟩ = .ok true := by
  obtain ⟨seen, rules, rule, hview, hself, hrules, hdown, hmem, hselects⟩ :=
    exists_rule_of_ignoresFolder hsource hdescends h
  rcases view?_below source habsolute hplain hbelow hview with
    ⟨n, rfl⟩ | ⟨parts, hparts, hdeep, rfl, hviewBelow⟩
  · cases n with
    | zero => exact absurd rfl hself
    | succ n =>
        rw [(hdown rule hmem).selects_parents n] at hselects
        cases hselects
  · rw [ignores, hviewBelow]
    simp only [hrules, Except.ok.injEq]
    rw [Rule.decides_of_positive fun other hother => (hdown other hother).negated,
      List.any_eq_true]
    exact ⟨rule, hmem, (hdown rule hmem).selects_below hdeep hparts hne hselects⟩

end Source
end ProjectLint
