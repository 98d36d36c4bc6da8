import ProjectLint.Ignore.Source
import ProjectLint.Proofs.Ignore.Matching

/-!
Lines as they are for directories. A line for everything below a directory is turned into one for
the directory by taking two stars off. Main statements: this gives a line that can be read if the
first one can, and it has the same pieces unless the line names the directory with one piece, which
is then looked for at every depth.
-/

namespace ProjectLint

namespace Rule

theorem trimLine_append {t : Text} {c : CodePoint} (hc : c.isBlank = false) :
    trimLine (t ++ [c]) = t ++ [c] := by
  have htrim : (t ++ [c]).trimRight = t ++ [c] := by
    simp [Text.trimRight, hc]
  rw [trimLine]
  split
  · rfl
  · exact htrim

/-- A line that is neither blank nor a comment nor negated stands for a rule as it is. -/
theorem ofLine_of_trimLine {line body : Text} (h : trimLine line = body) (hne : body ≠ [])
    (hnegated : body.head? ≠ some (.scalar '!')) (hcomment : body.head? ≠ some (.scalar '#')) :
    ofLine line =
      match targetOf body with
      | .ok target => .ok (some ⟨false, target⟩)
      | .error .badPattern => .error (.badPattern line)
      | .error .badRange => .error .badRange := by
  rw [ofLine, h]
  cases body with
  | nil => exact absurd rfl hne
  | cons c body =>
      split
      rename_i negated found hmatch
      split at hmatch
      · rename_i heq
        exact absurd (by rw [heq]; rfl) hnegated
      · rename_i heq
        exact absurd (by rw [heq]; rfl) hcomment
      · rename_i heq
        cases heq
      · cases hmatch
        rfl

theorem ofLine_of_comment {line : Text} (h : (trimLine line).head? = some (.scalar '#')) :
    ofLine line = .ok none := by
  rw [ofLine]
  cases hbody : trimLine line with
  | nil => simp [hbody] at h
  | cons c body =>
      rw [hbody, List.head?_cons, Option.some.injEq] at h
      subst h
      rfl

/-- Whether a piece of a line can be read. -/
def Readable (piece : Text) : Prop :=
  piece = anyDepth ∨ piece = anyName ∨
    ∃ named, segmentElements? piece = some named ∧ named.all rangesInOrder = true

theorem innerElements?_anyName (slash : Bool) (rest : List Text) :
    innerElements? slash (anyName :: rest) =
      (innerElements? true rest).map fun others =>
        (if slash then [.slash] else []) ++ [.name] ++
          (if rest.isEmpty then [.lastNameEnd] else others) := by
  have hdepth : anyName ≠ anyDepth := by decide
  rw [innerElements?, if_neg hdepth]
  cases innerElements? true rest <;> rfl

theorem innerElements?_segment (slash : Bool) {piece : Text} (rest : List Text)
    (hdepth : piece ≠ anyDepth) (hname : piece ≠ anyName) :
    innerElements? slash (piece :: rest) =
      (segmentElements? piece).bind fun named =>
        (innerElements? true rest).map fun others =>
          (if slash then [.slash] else []) ++ named ++
            (if rest.isEmpty then [.nameEnd] else others) := by
  rw [innerElements?, if_neg hdepth, if_neg hname]
  cases segmentElements? piece with
  | none => rfl
  | some named =>
      cases innerElements? true rest with
      | none => rfl
      | some others => simp [hname]

theorem innerElements?_of_readable {pieces : List Text} (slash : Bool)
    (h : ∀ piece ∈ pieces, Readable piece) :
    ∃ es, innerElements? slash pieces = some es ∧ es.all rangesInOrder = true := by
  induction pieces generalizing slash with
  | nil => exact ⟨[], rfl, rfl⟩
  | cons piece rest ih =>
      obtain ⟨others, hothers, hordered⟩ :=
        ih true fun other hmem => h other (List.mem_cons_of_mem _ hmem)
      by_cases hdepth : piece = anyDepth
      · rw [innerElements?, if_pos hdepth]
        by_cases hlast : rest.isEmpty = true
        · exact ⟨[.slash], by simp [hlast], rfl⟩
        · refine ⟨.innerFolders :: others, by simp [hlast, hothers], ?_⟩
          simpa [rangesInOrder] using hordered
      · have hend : ∀ e : Element, rangesInOrder e = true →
            (if rest.isEmpty then [e] else others).all rangesInOrder = true := by
          intro e he
          cases rest.isEmpty with
          | true => simpa using he
          | false => exact hordered
        have hslash : (if slash then [Element.slash] else []).all rangesInOrder = true := by
          cases slash <;> rfl
        by_cases hname : piece = anyName
        · refine ⟨_, by rw [hname, innerElements?_anyName, hothers]; rfl, ?_⟩
          rw [List.all_append, List.all_append, hslash, hend _ rfl]
          rfl
        · obtain ⟨named, hnamed, hranges⟩ :=
            ((h piece (by simp)).resolve_left hdepth).resolve_left hname
          refine ⟨_, by rw [innerElements?_segment slash rest hdepth hname, hnamed, hothers]; rfl,
            ?_⟩
          rw [List.all_append, List.all_append, hslash, hranges, hend _ rfl]
          rfl

theorem readable_of_innerElements? {pieces : List Text} {slash : Bool} {es : List Element}
    (h : innerElements? slash pieces = some es) (hordered : es.all rangesInOrder = true) :
    ∀ piece ∈ pieces, Readable piece := by
  induction pieces generalizing slash es with
  | nil => simp
  | cons piece rest ih =>
      have hcons : ∀ {others : List Element}, Readable piece →
          innerElements? true rest = some others →
          (rest.isEmpty = false → others.all rangesInOrder = true) →
            ∀ other ∈ piece :: rest, Readable other := by
        intro others hpiece hothers hranges other hmem
        rcases List.mem_cons.1 hmem with rfl | hmem
        · exact hpiece
        · refine ih hothers (hranges ?_) other hmem
          rw [List.isEmpty_eq_false_iff]
          exact List.ne_nil_of_mem hmem
      by_cases hdepth : piece = anyDepth
      · rw [innerElements?, if_pos hdepth] at h
        by_cases hlast : rest.isEmpty = true
        · rw [List.isEmpty_iff] at hlast
          subst hlast
          intro other hmem
          rw [List.mem_singleton.1 hmem]
          exact Or.inl hdepth
        · simp only [hlast, Bool.false_eq_true, if_false, Option.map_eq_some_iff] at h
          obtain ⟨others, hothers, rfl⟩ := h
          refine hcons (Or.inl hdepth) hothers fun _ => ?_
          simpa [rangesInOrder] using hordered
      · by_cases hname : piece = anyName
        · rw [hname, innerElements?_anyName, Option.map_eq_some_iff] at h
          obtain ⟨others, hothers, rfl⟩ := h
          refine hcons (Or.inr (Or.inl hname)) hothers fun hrest => ?_
          simp only [List.all_append, hrest, Bool.and_eq_true] at hordered
          exact hordered.2
        · rw [innerElements?_segment slash rest hdepth hname, Option.bind_eq_some_iff] at h
          obtain ⟨named, hnamed, h⟩ := h
          rw [Option.map_eq_some_iff] at h
          obtain ⟨others, hothers, rfl⟩ := h
          simp only [List.all_append, Bool.and_eq_true] at hordered
          refine hcons (Or.inr (Or.inr ⟨named, hnamed, hordered.1.2⟩)) hothers fun hrest => ?_
          simpa [hrest] using hordered.2

theorem exists_innerElements?_iff {pieces : List Text} (slash : Bool) :
    (∃ es, innerElements? slash pieces = some es ∧ es.all rangesInOrder = true) ↔
      ∀ piece ∈ pieces, Readable piece :=
  ⟨fun ⟨_, hes, hordered⟩ => readable_of_innerElements? hes hordered,
    innerElements?_of_readable slash⟩

theorem exists_pieceElements?_iff {pieces : List Text} :
    (∃ es, pieceElements? pieces = some es ∧ es.all rangesInOrder = true) ↔
      pieces ≠ [] ∧ ∀ piece ∈ pieces, Readable piece := by
  cases pieces with
  | nil => simp [pieceElements?]
  | cons piece rest =>
      rw [pieceElements?]
      by_cases hstart : (piece = anyDepth && !rest.isEmpty) = true
      · rw [if_pos hstart, List.forall_mem_cons, ← exists_innerElements?_iff false]
        simp only [Bool.and_eq_true, decide_eq_true_eq] at hstart
        constructor
        · rintro ⟨_, hmap, hordered⟩
          obtain ⟨es, hes, rfl⟩ := Option.map_eq_some_iff.1 hmap
          exact ⟨List.cons_ne_nil _ _, Or.inl hstart.1, es, hes, hordered⟩
        · rintro ⟨-, -, es, hes, hordered⟩
          exact ⟨_, Option.map_eq_some_iff.2 ⟨es, hes, rfl⟩, hordered⟩
      · rw [if_neg hstart, exists_innerElements?_iff]
        simp

/-- A line can be read exactly if it has pieces and each of them can be read. -/
theorem targetOf_isOk {line : Text} :
    (∃ target, targetOf line = .ok target) ↔
      pieces line ≠ [] ∧ ∀ piece ∈ pieces line, Readable piece := by
  rw [targetOf]
  by_cases hshort : pieces line = [anyDepth] ∨ pieces line = [anyDepth, anyName] ∨
      pieces line = [anyDepth, anyName, anyDepth]
  · -- Three short forms have a meaning of their own; all others are read piece by piece.
    refine iff_of_true ?_ ?_
    · rcases hshort with hline | hline | hline <;> exact ⟨_, by simp only [hline]; rfl⟩
    · rcases hshort with hline | hline | hline <;> simp [hline, Readable]
  · simp only [not_or] at hshort
    simp only [if_neg hshort.1, if_neg hshort.2.1, if_neg hshort.2.2]
    rw [← exists_pieceElements?_iff]
    cases pieceElements? (pieces line) with
    | none => simp
    | some es =>
        simp only [Option.some.injEq, exists_eq_left']
        split
        next hordered => exact iff_of_true ⟨_, rfl⟩ hordered
        next hordered =>
          refine iff_of_false ?_ hordered
          rintro ⟨_, h⟩
          cases h

/-- The pieces without a slash at the start, or with a mark that the line is looked for at every
depth. -/
def rooted : List Text → List Text
  | [] :: rest => rest
  | [piece] => if piece = anyDepth then [piece] else [anyDepth, piece]
  | [piece, []] => if piece = anyDepth then [piece, []] else [anyDepth, piece, []]
  | pieces => pieces

/-- The pieces with what a slash at the end stands for. -/
def closed (pieces : List Text) : List Text :=
  match pieces.getLast? with
  | some [] => pieces.dropLast ++ [anyDepth]
  | _ => pieces

theorem pieces_eq (line : Text) : pieces line = mergeDepths (closed (rooted (line.split '/'))) :=
  rfl

theorem closed_append_nil (pieces : List Text) : closed (pieces ++ [[]]) = pieces ++ [anyDepth] := by
  simp [closed]

theorem closed_append_anyDepth (pieces : List Text) :
    closed (pieces ++ [anyDepth]) = pieces ++ [anyDepth] := by
  simp [closed, anyDepth]

/-- Whether a line names a directory with one piece and asks for everything below it. -/
def OnePieceBelow (line : Text) : Prop :=
  ∃ piece, line = piece ++ Source.everythingBelow ∧ piece ≠ [] ∧ CodePoint.scalar '/' ∉ piece

theorem split_everythingBelow (start : Text) :
    (start ++ Source.everythingBelow).split '/' = start.split '/' ++ [anyDepth] :=
  Text.split_append _ _ _

theorem split_slash (start : Text) :
    (start ++ [CodePoint.scalar '/']).split '/' = start.split '/' ++ [[]] :=
  Text.split_append _ _ _

/-- A line for everything below a directory that is named with several pieces has the same pieces
as the line for the directory. -/
theorem pieces_folder {start : Text}
    (h : ¬OnePieceBelow (start ++ Source.everythingBelow)) :
    pieces (start ++ [.scalar '/']) = pieces (start ++ Source.everythingBelow) := by
  rw [pieces_eq, pieces_eq, split_everythingBelow, split_slash]
  have hjoin := Text.join_split (.scalar '/') start
  cases hs : start.split '/' with
  | nil => exact absurd hs (Text.split_ne_nil _ start)
  | cons piece pieces =>
      cases piece with
      | nil =>
          simp only [List.cons_append, rooted]
          rw [closed_append_nil, closed_append_anyDepth]
      | cons c piece =>
          cases pieces with
          | nil =>
              rw [hs] at hjoin
              refine absurd ⟨start, rfl, ?_, ?_⟩ h
              · rw [← hjoin]
                simp [Text.join]
              · have hmem : c :: piece ∈ start.split '/' := by
                  rw [hs]
                  simp
                rw [← hjoin]
                exact Text.not_mem_of_mem_split hmem
          | cons other pieces =>
              have hsame : ∀ last : Text,
                  rooted (((c :: piece) :: other :: pieces) ++ [last]) =
                    ((c :: piece) :: other :: pieces) ++ [last] := by
                intro last
                cases pieces <;> simp [rooted]
              rw [hsame, hsame, closed_append_nil, closed_append_anyDepth]

/-- A directory that is named with one piece is looked for at every depth. -/
theorem pieces_folder_of_onePiece {piece : Text} (hne : piece ≠ []) (hslash : .scalar '/' ∉ piece)
    (hdepth : piece ≠ anyDepth) :
    pieces (piece ++ Source.everythingBelow) = mergeDepths [piece, anyDepth] ∧
      pieces (piece ++ [.scalar '/']) = mergeDepths [anyDepth, piece, anyDepth] := by
  rw [pieces_eq, pieces_eq, split_everythingBelow, split_slash, Text.split_of_not_mem hslash]
  cases piece with
  | nil => exact absurd rfl hne
  | cons c piece =>
      constructor
      · have hrooted : rooted ([c :: piece] ++ [anyDepth]) = [c :: piece] ++ [anyDepth] := by
          simp [rooted, anyDepth]
        rw [hrooted, closed_append_anyDepth]
        rfl
      · have hrooted : rooted ([c :: piece] ++ [[]]) = [anyDepth, c :: piece] ++ [[]] := by
          simp [rooted, hdepth]
        rw [hrooted, closed_append_nil]
        rfl

theorem mergeDepths_ne_nil {pieces : List Text} (h : pieces ≠ []) : mergeDepths pieces ≠ [] := by
  cases pieces with
  | nil => exact absurd rfl h
  | cons piece pieces =>
      simp only [mergeDepths]
      split
      · simp
      · split <;> simp

theorem mem_mergeDepths {piece : Text} {pieces : List Text} :
    piece ∈ mergeDepths pieces ↔ piece ∈ pieces := by
  induction pieces generalizing piece with
  | nil => rfl
  | cons first pieces ih =>
      simp only [mergeDepths]
      cases hrest : mergeDepths pieces with
      | nil =>
          have hnil : pieces = [] := by
            apply Classical.byContradiction
            intro hne
            exact mergeDepths_ne_nil hne hrest
          simp [hnil]
      | cons next rest =>
          rw [hrest] at ih
          simp only
          by_cases hboth : (first = anyDepth && next = anyDepth) = true
          · rw [if_pos hboth, ih]
            simp only [Bool.and_eq_true, decide_eq_true_eq] at hboth
            have hfirst : first ∈ pieces := by
              rw [hboth.1, ← hboth.2, ← ih]
              simp
            constructor
            · exact List.mem_cons_of_mem _
            · intro hmem
              rcases List.mem_cons.1 hmem with rfl | hmem
              · exact hfirst
              · exact hmem
          · rw [if_neg hboth, List.mem_cons, ih, List.mem_cons]

/-- Every piece of the line for a directory is one of the line for everything below it, or stands
for any number of folders. -/
theorem mem_pieces_folder {start piece : Text} (h : piece ∈ pieces (start ++ [.scalar '/'])) :
    piece = anyDepth ∨ piece ∈ pieces (start ++ Source.everythingBelow) := by
  by_cases hone : OnePieceBelow (start ++ Source.everythingBelow)
  · obtain ⟨word, hword, hne, hslash⟩ := hone
    have hstart := List.append_cancel_right hword
    subst hstart
    by_cases hdepth : start = anyDepth
    · subst hdepth
      have hpieces : pieces (anyDepth ++ [.scalar '/']) = [anyDepth] := rfl
      rw [hpieces] at h
      exact Or.inl (List.mem_singleton.1 h)
    · obtain ⟨hline, hfolder⟩ := pieces_folder_of_onePiece hne hslash hdepth
      rw [hfolder, mem_mergeDepths] at h
      rw [hline, mem_mergeDepths]
      simpa using h
  · rw [pieces_folder hone] at h
    exact Or.inr h

theorem pieces_folder_ne_nil (start : Text) : pieces (start ++ [.scalar '/']) ≠ [] := by
  rw [pieces_eq, split_slash]
  refine mergeDepths_ne_nil ?_
  cases hs : start.split '/' with
  | nil => exact absurd hs (Text.split_ne_nil _ start)
  | cons piece pieces =>
      cases piece with
      | nil =>
          simp only [List.cons_append, rooted]
          rw [closed_append_nil]
          simp
      | cons c piece =>
          cases pieces with
          | nil =>
              simp only [List.cons_append, List.nil_append, rooted]
              split <;> simp [closed]
          | cons other pieces =>
              have hsame : rooted (((c :: piece) :: other :: pieces) ++ [[]]) =
                  ((c :: piece) :: other :: pieces) ++ [[]] := by
                cases pieces <;> simp [rooted]
              rw [hsame, closed_append_nil]
              simp

theorem targetOf_folder {start : Text} {target : Target}
    (h : targetOf (start ++ Source.everythingBelow) = .ok target) :
    ∃ other, targetOf (start ++ [.scalar '/']) = .ok other := by
  obtain ⟨-, hreadable⟩ := targetOf_isOk.1 ⟨target, h⟩
  refine targetOf_isOk.2 ⟨pieces_folder_ne_nil start, fun piece hpiece => ?_⟩
  rcases mem_pieces_folder hpiece with rfl | hpiece
  · exact Or.inl rfl
  · exact hreadable piece hpiece

/-- Lines with the same pieces look for the same elements. -/
theorem targetOf_congr {line other : Text} (h : pieces other = pieces line)
    {sequence : List Element} (hline : targetOf line = .ok (.elements sequence)) :
    targetOf other = .ok (.elements sequence) := by
  have hdepth : pieces line ≠ [anyDepth] := by
    intro hdepth
    rw [targetOf, if_pos hdepth] at hline
    split at hline <;> cases hline
  rw [targetOf, h, if_neg hdepth]
  rw [targetOf, if_neg hdepth] at hline
  exact hline

theorem trimLine_everythingBelow (start : Text) :
    trimLine (start ++ Source.everythingBelow) = start ++ Source.everythingBelow := by
  have hline : start ++ Source.everythingBelow =
      (start ++ [.scalar '/', .scalar '*']) ++ [.scalar '*'] := by
    simp [Source.everythingBelow]
  rw [hline]
  exact trimLine_append (by decide)

theorem head?_folder (start : Text) :
    (start ++ [CodePoint.scalar '/']).head? = (start ++ Source.everythingBelow).head? := by
  cases start <;> rfl

/-- What the line for a directory stands for, if the line for everything below it is no comment. -/
theorem ofLine_folder (start : Text)
    (hnegated : (start ++ Source.everythingBelow).head? ≠ some (.scalar '!')) :
    (ofLine (start ++ Source.everythingBelow) = .ok none ∧
      ofLine (start ++ [.scalar '/']) = .ok none) ∨
    ((∃ failure, ofLine (start ++ Source.everythingBelow) =
        (targetOf (start ++ Source.everythingBelow)).toOption.elim (.error failure)
          fun target => .ok (some ⟨false, target⟩)) ∧
      ∃ failure, ofLine (start ++ [.scalar '/']) =
        (targetOf (start ++ [.scalar '/'])).toOption.elim (.error failure)
          fun target => .ok (some ⟨false, target⟩)) := by
  have htrim : trimLine (start ++ [.scalar '/']) = start ++ [.scalar '/'] :=
    trimLine_append (by decide)
  have hplain : ∀ {line : Text}, trimLine line = line → line ≠ [] →
      line.head? ≠ some (.scalar '!') → line.head? ≠ some (.scalar '#') →
        ∃ failure, ofLine line = (targetOf line).toOption.elim (.error failure)
          fun target => .ok (some ⟨false, target⟩) := by
    intro line hline hne hneg hcom
    rw [ofLine_of_trimLine hline hne hneg hcom]
    cases targetOf line with
    | ok found => exact ⟨.badRange, rfl⟩
    | error fault => cases fault <;> exact ⟨_, rfl⟩
  by_cases hcomment : (start ++ Source.everythingBelow).head? = some (.scalar '#')
  · refine Or.inl ⟨ofLine_of_comment ?_, ofLine_of_comment ?_⟩
    · rw [trimLine_everythingBelow, hcomment]
    · rw [htrim, head?_folder, hcomment]
  · refine Or.inr ⟨hplain (trimLine_everythingBelow start) ?_ hnegated hcomment,
      hplain htrim (by simp) ?_ ?_⟩
    · simp [Source.everythingBelow]
    · rwa [head?_folder]
    · rwa [head?_folder]

/-- The line for a directory stands for a rule or nothing if the line for everything below does. -/
theorem exists_ofLine_folder {start : Text} {rule : Option Rule}
    (hnegated : (start ++ Source.everythingBelow).head? ≠ some (.scalar '!'))
    (h : ofLine (start ++ Source.everythingBelow) = .ok rule) :
    ∃ other, ofLine (start ++ [.scalar '/']) = .ok other := by
  rcases ofLine_folder start hnegated with ⟨-, hfolder⟩ | ⟨⟨failure, hline⟩, other, hfolder⟩
  · exact ⟨none, hfolder⟩
  · cases htarget : targetOf (start ++ Source.everythingBelow) with
    | error fault =>
        rw [hline, htarget] at h
        cases h
    | ok target =>
        obtain ⟨found, hfound⟩ := targetOf_folder htarget
        rw [hfound] at hfolder
        exact ⟨_, hfolder⟩

/-- A line that names its directory with several pieces stands for the same elements as the line
for the directory. -/
theorem ofLine_folder_eq {start : Text} {sequence : List Element}
    (hnegated : (start ++ Source.everythingBelow).head? ≠ some (.scalar '!'))
    (hpieces : ¬OnePieceBelow (start ++ Source.everythingBelow))
    (h : ofLine (start ++ Source.everythingBelow) = .ok (some ⟨false, .elements sequence⟩)) :
    ofLine (start ++ [.scalar '/']) = .ok (some ⟨false, .elements sequence⟩) := by
  rcases ofLine_folder start hnegated with ⟨hline, -⟩ | ⟨⟨failure, hline⟩, other, hfolder⟩
  · rw [hline] at h
    cases h
  · cases htarget : targetOf (start ++ Source.everythingBelow) with
    | error fault =>
        rw [hline, htarget] at h
        cases h
    | ok target =>
        rw [hline, htarget] at h
        cases h
        rw [hfolder, targetOf_congr (pieces_folder hpieces) htarget]
        rfl

theorem ofLine_folder_of_none {start : Text}
    (hnegated : (start ++ Source.everythingBelow).head? ≠ some (.scalar '!'))
    (h : ofLine (start ++ Source.everythingBelow) = .ok none) :
    ofLine (start ++ [.scalar '/']) = .ok none := by
  rcases ofLine_folder start hnegated with ⟨-, hfolder⟩ | ⟨⟨failure, hline⟩, -⟩
  · exact hfolder
  · rw [hline] at h
    cases htarget : targetOf (start ++ Source.everythingBelow) <;> rw [htarget] at h <;> cases h

end Rule

namespace Source

theorem folderPattern_everythingBelow (start : Text) :
    folderPattern (.text (start ++ everythingBelow)) = .text (start ++ [.scalar '/']) := by
  have htake : (start ++ everythingBelow).length - 2 = start.length + 1 := by
    simp [everythingBelow]
  rw [folderPattern, if_pos (List.isSuffixOf_iff_suffix.2 (List.suffix_append _ _)), htake,
    List.take_length_add_append]
  rfl

/-- A pattern for directories is the pattern itself, or ends with a slash where that one ends with
the mark for everything below. -/
theorem folderPattern_text (line : Text) :
    folderPattern (.text line) = .text line ∨ ∃ start, line = start ++ everythingBelow ∧
      folderPattern (.text line) = .text (start ++ [.scalar '/']) := by
  by_cases hsuffix : everythingBelow.isSuffixOf line = true
  · obtain ⟨start, rfl⟩ := List.isSuffixOf_iff_suffix.1 hsuffix
    exact Or.inr ⟨start, rfl, folderPattern_everythingBelow start⟩
  · exact Or.inl (by rw [folderPattern, if_neg hsuffix])

end Source
end ProjectLint
