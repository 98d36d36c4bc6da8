import ProjectLint.Proofs.Ignore.Descent

/-!
Lines for everything below a directory that is named literally. Such a line can be read, and so can
the line that it is turned into for directories, which finds the directory. Main statement: a source
with such a line and no negated one leaves out the directory as a whole, seen from where the source
sees paths.
-/

namespace ProjectLint

namespace Rule

/-- Whether a text stands for itself as a piece of a line. -/
def IsLiteral (piece : Text) : Prop :=
  ∀ c ∈ piece, c ∉ [CodePoint.scalar '*', .scalar '?', .scalar '[', .scalar '\\']

theorem segmentElements?_of_isLiteral {piece : Text} (h : IsLiteral piece) :
    segmentElements? piece = some (Element.literal piece) := by
  have hgo : ∀ piece : Text, IsLiteral piece → ∀ fuel, piece.length ≤ fuel →
      segmentElements?.go fuel piece = some (Element.literal piece) := by
    intro piece
    induction piece with
    | nil => exact fun _ fuel _ => by cases fuel <;> rfl
    | cons c rest ih =>
        intro hpiece fuel hfuel
        obtain ⟨hc, hrest⟩ := List.forall_mem_cons.1 hpiece
        simp only [List.mem_cons, List.not_mem_nil, or_false, not_or] at hc
        obtain ⟨hstar, hmark, hbracket, hbackslash⟩ := hc
        cases fuel with
        | zero => simp at hfuel
        | succ fuel =>
            have hgo := ih hrest fuel (by simpa using hfuel)
            simp [segmentElements?.go, hstar, hmark, hbracket, hbackslash, hgo, Element.literal]
  exact hgo piece h piece.length (Nat.le_refl _)

theorem IsLiteral.ne_anyDepth {piece : Text} (h : IsLiteral piece) : piece ≠ anyDepth := by
  rintro rfl
  exact h (.scalar '*') (by simp [anyDepth]) (by simp)

theorem IsLiteral.ne_anyName {piece : Text} (h : IsLiteral piece) : piece ≠ anyName := by
  rintro rfl
  exact h (.scalar '*') (by simp [anyName]) (by simp)

theorem rangesInOrder_literal (word : Text) : (Element.literal word).all rangesInOrder = true := by
  simp [Element.literal, rangesInOrder]

theorem IsLiteral.readable {piece : Text} (h : IsLiteral piece) : Readable piece :=
  Or.inr (Or.inr ⟨_, segmentElements?_of_isLiteral h, rangesInOrder_literal piece⟩)

theorem mergeDepths_append_anyDepth {pieces : List Text} (h : ∀ piece ∈ pieces, IsLiteral piece) :
    mergeDepths (pieces ++ [anyDepth]) = pieces ++ [anyDepth] := by
  induction pieces with
  | nil => rfl
  | cons piece pieces ih =>
      obtain ⟨hpiece, hrest⟩ := List.forall_mem_cons.1 h
      rw [List.cons_append, mergeDepths, ih hrest]
      cases pieces <;> simp [hpiece.ne_anyDepth]

theorem reads_slash (rest : Text) : Element.Reads [.slash] [.scalar '/'] rest :=
  Element.reads_cons.2 ⟨[.scalar '/'], [], rfl, rfl, .done rest⟩

theorem trimLine_prefix (line : Text) : trimLine line <+: line := by
  rw [trimLine]
  split
  · exact List.prefix_refl line
  · obtain ⟨start, hstart⟩ := List.dropWhile_suffix CodePoint.isBlank (l := line.reverse)
    refine ⟨start.reverse, ?_⟩
    rw [Text.trimRight, ← List.reverse_append, hstart, List.reverse_reverse]

/-- Only a line that starts with the mark of negation is negated. -/
theorem negated_of_ofLine {line : Text} {rule : Rule} (h : ofLine line = .ok (some rule))
    (hhead : line.head? ≠ some (.scalar '!')) : rule.negated = false := by
  cases hbody : trimLine line with
  | nil =>
      rw [ofLine, hbody] at h
      cases h
  | cons c body =>
      obtain ⟨rest, hrest⟩ := trimLine_prefix line
      have hmark : (c :: body).head? ≠ some (.scalar '!') := by
        rw [hbody] at hrest
        rwa [← hrest] at hhead
      by_cases hcomment : (c :: body).head? = some (.scalar '#')
      · rw [ofLine_of_comment (hbody ▸ hcomment)] at h
        cases h
      · rw [ofLine_of_trimLine hbody (by simp) hmark hcomment] at h
        cases htarget : targetOf (c :: body) with
        | ok target =>
            simp only [htarget, Except.ok.injEq, Option.some.injEq] at h
            rw [← h]
        | error fault => cases fault <;> simp [htarget] at h

/-- The line for everything below a directory. -/
def lineBelow (names : List Text) : Text :=
  (Path.mk .relative names).toText ++ Source.everythingBelow

/-- Names of directories, one below the other, each of which stands for itself in a line. -/
structure LiteralFolder (names : List Text) : Prop where
  ne_nil : names ≠ []
  plain : (Path.mk .relative names).Plain
  down : parentPart ∉ names
  literal : ∀ name ∈ names, IsLiteral name
  noComment : (lineBelow names).head? ≠ some (.scalar '#')

section

variable {names : List Text} (hnames : LiteralFolder names)

include hnames in
theorem readable_of_literalFolder : ∀ piece ∈ names ++ [anyDepth], Readable piece := by
  intro piece hpiece
  rcases List.mem_append.1 hpiece with hpiece | hpiece
  · exact (hnames.literal piece hpiece).readable
  · exact Or.inl (List.mem_singleton.1 hpiece)

include hnames in
theorem pieces_lineBelow : pieces (lineBelow names) = names ++ [anyDepth] := by
  have hsplit := Path.split_toText hnames.plain hnames.ne_nil
  have hmerge := mergeDepths_append_anyDepth hnames.literal
  rw [lineBelow, pieces_eq, split_everythingBelow, hsplit]
  cases names with
  | nil => exact absurd rfl hnames.ne_nil
  | cons name others =>
      have hname : name ≠ [] := (hnames.plain name (by simp)).1
      have hrooted : rooted (name :: others ++ [anyDepth]) = name :: others ++ [anyDepth] := by
        cases name with
        | nil => exact absurd rfl hname
        | cons c name =>
            cases others with
            | nil => simp [rooted, anyDepth]
            | cons other others => cases others <;> simp [rooted]
      rw [hrooted, closed_append_anyDepth, hmerge]

include hnames in
/-- A directory that is named with one piece is looked for at every depth, any other one where the
names lead. -/
theorem pieces_lineFolder :
    ∃ start, (start = [] ∨ start = [anyDepth]) ∧
      pieces ((Path.mk .relative names).toText ++ [.scalar '/']) =
        start ++ (names ++ [anyDepth]) := by
  have hsplit := Path.split_toText hnames.plain hnames.ne_nil
  have hmerge := mergeDepths_append_anyDepth hnames.literal
  rw [pieces_eq, split_slash, hsplit]
  cases names with
  | nil => exact absurd rfl hnames.ne_nil
  | cons name others =>
      have hname : name ≠ [] := (hnames.plain name (by simp)).1
      have hdepth := (hnames.literal name (by simp)).ne_anyDepth
      cases name with
      | nil => exact absurd rfl hname
      | cons c name =>
          cases others with
          | nil =>
              refine ⟨[anyDepth], Or.inr rfl, ?_⟩
              have hrooted : rooted ([c :: name] ++ [[]]) = [anyDepth, c :: name] ++ [[]] := by
                simp [rooted, hdepth]
              rw [hrooted, closed_append_nil]
              simp [mergeDepths, hdepth]
          | cons other others =>
              refine ⟨[], Or.inl rfl, ?_⟩
              have hrooted : rooted ((c :: name) :: other :: others ++ [[]]) =
                  (c :: name) :: other :: others ++ [[]] := by
                cases others <;> simp [rooted]
              rw [hrooted, closed_append_nil, hmerge, List.nil_append]

/-- Literal pieces with everything below take the names of the directory with slashes after them. -/
theorem reads_innerElements? {names : List Text} {slash : Bool} {es : List Element}
    (hne : names ≠ []) (hliteral : ∀ name ∈ names, IsLiteral name)
    (h : innerElements? slash (names ++ [anyDepth]) = some es) (rest : Text) :
    Element.Reads es ((if slash then [.scalar '/'] else []) ++
      (Text.join [.scalar '/'] names ++ [.scalar '/'])) rest := by
  induction names generalizing slash es with
  | nil => exact absurd rfl hne
  | cons name others ih =>
      obtain ⟨hname, hothers⟩ := List.forall_mem_cons.1 hliteral
      rw [List.cons_append, innerElements?_segment slash _ hname.ne_anyDepth hname.ne_anyName,
        segmentElements?_of_isLiteral hname, Option.bind_some, Option.map_eq_some_iff] at h
      obtain ⟨later, hlater, rfl⟩ := h
      obtain ⟨tail, htail, hreads⟩ : ∃ tail,
          Text.join [.scalar '/'] (name :: others) ++ [.scalar '/'] = name ++ tail ∧
            Element.Reads later tail rest := by
        cases others with
        | nil =>
            cases hlater
            exact ⟨[.scalar '/'], rfl, reads_slash rest⟩
        | cons other others =>
            refine ⟨_, ?_, ih (by simp) hothers hlater⟩
            simp [Text.join]
      have hslash : Element.Reads (if slash then [.slash] else [])
          (if slash then [.scalar '/'] else []) ((name ++ tail) ++ rest) := by
        cases slash with
        | false => exact .done _
        | true => exact reads_slash _
      have hempty : (others ++ [anyDepth]).isEmpty = false := by simp
      rw [htail, hempty, if_neg Bool.false_ne_true, List.append_assoc]
      refine Element.reads_append.2 ⟨_, _, rfl, hslash, ?_⟩
      exact Element.reads_append.2 ⟨name, tail, rfl, Element.reads_literal.2 rfl, hreads⟩

include hnames in
theorem targetOf_lineFolder :
    ∃ sequence, targetOf ((Path.mk .relative names).toText ++ [.scalar '/']) =
        .ok (.elements sequence) ∧
      Element.sequenceMatches sequence ((Path.mk .relative names).toText ++ [.scalar '/']) =
        true := by
  obtain ⟨start, hstart, hpieces⟩ := pieces_lineFolder hnames
  have htext : (Path.mk .relative names).toText = Text.join [.scalar '/'] names := by
    simp [Path.toText, hnames.ne_nil]
  -- A piece that is a name tells the line from the short forms with a meaning of their own.
  have hlong : ∀ short : List Text, (∀ piece ∈ short, piece = anyDepth ∨ piece = anyName) →
      start ++ (names ++ [anyDepth]) ≠ short := by
    rintro short hshort rfl
    obtain ⟨name, hname⟩ := List.exists_mem_of_ne_nil names hnames.ne_nil
    have hliteral := hnames.literal name hname
    exact (hshort name (by simp [hname])).elim hliteral.ne_anyDepth hliteral.ne_anyName
  obtain ⟨es, hes, hordered⟩ := innerElements?_of_readable false (readable_of_literalFolder hnames)
  have hreads := reads_innerElements? hnames.ne_nil hnames.literal hes []
  obtain ⟨sequence, hsequence, hranges, hmatch⟩ : ∃ sequence,
      pieceElements? (start ++ (names ++ [anyDepth])) = some sequence ∧
        sequence.all rangesInOrder = true ∧
          Element.Reads sequence (Text.join [.scalar '/'] names ++ [.scalar '/']) [] := by
    rcases hstart with rfl | rfl
    · refine ⟨es, ?_, hordered, hreads⟩
      cases names with
      | nil => exact absurd rfl hnames.ne_nil
      | cons name others =>
          have hname := (hnames.literal name (by simp)).ne_anyDepth
          simpa [pieceElements?, hname] using hes
    · refine ⟨.leadingFolders :: es, ?_, by simpa [rangesInOrder] using hordered,
        Element.reads_cons.2 ⟨[], _, rfl, Or.inl rfl, hreads⟩⟩
      simp [pieceElements?, hes]
  refine ⟨sequence, ?_, ?_⟩
  · rw [targetOf, hpieces, if_neg (hlong _ (by simp)), if_neg (hlong _ (by simp)),
      if_neg (hlong _ (by simp)), hsequence]
    simp [hranges]
  · rw [htext]
    exact Element.sequenceMatches_eq_true.2 ⟨_, [], (List.append_nil _).symm, hmatch⟩

variable (hnegated : (lineBelow names).head? ≠ some (.scalar '!'))

include hnames hnegated

/-- A line for everything below a literally named directory can be read. -/
theorem exists_ofLine_lineBelow : ∃ rule, ofLine (lineBelow names) = .ok rule := by
  have hpieces := pieces_lineBelow hnames
  obtain ⟨target, htarget⟩ : ∃ target, targetOf (lineBelow names) = .ok target := by
    rw [targetOf_isOk, hpieces]
    exact ⟨by simp, readable_of_literalFolder hnames⟩
  have htrim : trimLine (lineBelow names) = lineBelow names := trimLine_everythingBelow _
  have hne : lineBelow names ≠ [] := by simp [lineBelow, Source.everythingBelow]
  exact ⟨_, by rw [ofLine_of_trimLine htrim hne hnegated hnames.noComment, htarget]⟩

/-- The line that it is turned into for directories is a rule that finds the directory. -/
theorem exists_ofPattern_folder :
    ∃ rule, ofPattern (Source.folderPattern (.text (lineBelow names))) = .ok (some rule) ∧
      rule.target.selects (subject ((Path.mk .relative names).toText ++ [.scalar '/'])) = true := by
  obtain ⟨sequence, htarget, hmatch⟩ := targetOf_lineFolder hnames
  have hhead := head?_folder (Path.mk .relative names).toText
  refine ⟨⟨false, .elements sequence⟩, ?_, ?_⟩
  · rw [lineBelow, Source.folderPattern_everythingBelow, ofPattern,
      ofLine_of_trimLine (trimLine_append (by decide)) (by simp) (hhead ▸ hnegated)
        (hhead ▸ hnames.noComment), htarget]
  · rw [Path.subject_toText_append hnames.plain hnames.ne_nil]
    exact hmatch

end

end Rule

namespace Source

variable {source : Source} {viewpoint : Viewpoint} {path : Path} {names : List Text}

/-- The directory that a source sees paths from. -/
def origin (source : Source) (viewpoint : Viewpoint) : Path :=
  source.base.getD viewpoint.call

theorem negated_of_ofPattern_folder {line : Text} {rule : Rule}
    (h : Rule.ofPattern (folderPattern (.text line)) = .ok (some rule))
    (hhead : line.head? ≠ some (.scalar '!')) : rule.negated = false := by
  rcases folderPattern_text line with hsame | ⟨start, rfl, hfolder⟩
  · rw [hsame] at h
    exact Rule.negated_of_ofLine h hhead
  · rw [hfolder] at h
    exact Rule.negated_of_ofLine h (by rwa [Rule.head?_folder])

/-- A source with a line for everything below a directory leaves out the directory, whatever other
lines it has that are not negated. -/
theorem ignoresFolder_of_lineBelow (hsource : source.Compiles) (hnegates : ¬source.Negates)
    (hnames : Rule.LiteralFolder names) (hline : .text (Rule.lineBelow names) ∈ source.patterns)
    (hpath : Path.collapse (viewpoint.process.under path).parts =
      Path.collapse (viewpoint.process.under (source.origin viewpoint)).parts ++ names) :
    source.ignoresFolder viewpoint path = .ok true := by
  obtain ⟨rules, hrules, hmem⟩ := exists_folderRules hsource
  have hseen : Path.relativeTo viewpoint.process path (source.origin viewpoint) =
      (Path.mk .relative names).toText := by
    rw [Path.relativeTo, hpath, Path.steps_self_append]
  have hview : source.view? viewpoint path = some (Path.mk .relative names).toText := by
    rw [view?]
    rw [origin] at hseen
    cases hbase : source.base with
    | none => simpa [hbase] using hseen
    | some base =>
        have hinside : names.head? ≠ some parentPart := fun hhead =>
          hnames.down (List.mem_of_head? hhead)
        rw [hbase, Option.getD_some] at hseen
        simp only [hseen]
        rw [if_neg (mt (leadsOutside_iff hnames.plain).1 hinside)]
  have hself : (Path.mk .relative names).toText ≠ selfPart := by
    intro hself
    have hsplit := Path.split_toText hnames.plain hnames.ne_nil
    rw [hself] at hsplit
    exact (hnames.plain selfPart (by simp [← hsplit, selfPart, Text.split])).2.1 rfl
  have hpositive : ∀ rule ∈ rules, rule.negated = false := by
    intro rule hrule
    obtain ⟨-, line, hpattern, hfolder⟩ := (hmem rule).1 hrule
    exact negated_of_ofPattern_folder hfolder fun hhead => hnegates ⟨line, hpattern, hhead⟩
  obtain ⟨rule, hrule, hselects⟩ := Rule.exists_ofPattern_folder hnames
    fun hhead => hnegates ⟨_, hline, hhead⟩
  rw [ignoresFolder, hview]
  simp only [if_neg hself, hrules]
  rw [Rule.decides_of_positive hpositive, List.any_eq_true.2
    ⟨rule, (hmem rule).2 ⟨hnegates, _, hline, hrule⟩, hselects⟩]

end Source
end ProjectLint
