import ProjectLint.Proofs.FileSystem.TextFile
import ProjectLint.Proofs.Manifest.Reading

/-!
Ignore files as lines with their endings. A line feed and a carriage return each end a line, alone
or together; a carriage return that ends a line can come to stand before the line feed that ends a
blank one, and then the two count as one ending, but a blank line has no pattern anyway. Main
statement: the patterns of an ignore file are its lines that start with something else than a number
sign, whatever ends each of them.
-/

namespace ProjectLint

namespace IgnoreFile

/-- Whether a text can be a line of a file: it holds no line ending, and it can be encoded. -/
structure IsLine (line : Text) : Prop where
  noReturn : .scalar '\r' ∉ line
  noFeed : .scalar '\n' ∉ line
  encodable : ∀ half, .surrogate half ∉ line

/-- What can end a line: a line feed, one after a carriage return, or a carriage return alone. -/
inductive LineEnd where
  | feed
  | returnFeed
  | carriageReturn

def LineEnd.text : LineEnd → Text
  | feed => [.scalar '\n']
  | returnFeed => [.scalar '\r', .scalar '\n']
  | carriageReturn => [.scalar '\r']

/-- Lines with what ends each of them, and maybe a last line that nothing ends. -/
structure Layout where
  ended : List (Text × LineEnd)
  last : Option Text

namespace Layout

def lines (layout : Layout) : List Text :=
  layout.ended.map (·.1) ++ layout.last.toList

def text (layout : Layout) : Text :=
  (layout.ended.flatMap fun line => line.1 ++ line.2.text) ++ layout.last.getD []

end Layout

/-- Whether a line has a code point that is not blank, and the first of them is no number sign. -/
def startsPattern (line : Text) : Bool :=
  (line.find? fun c => !c.isBlank).any (· != .scalar '#')

theorem isPattern_eq_startsPattern : isPattern = startsPattern := by
  funext line
  rw [isPattern, startsPattern, Text.trimLeft]
  induction line with
  | nil => rfl
  | cons c line ih =>
      cases hc : c.isBlank with
      | true => simpa [hc] using ih
      | false => simp [hc]

section Line

variable {line : Text}

theorem lines_ne_nil (t : Text) : lines t ≠ [] := by
  rw [lines.eq_def]
  split
  next => exact List.cons_ne_nil _ _
  next => exact List.cons_ne_nil _ _
  next =>
    split
    next => exact List.cons_ne_nil _ _
    next => split <;> exact List.cons_ne_nil _ _

/-- What holds no line ending belongs to the first line of what comes after it. -/
theorem lines_append (hreturn : .scalar '\r' ∉ line) (hfeed : .scalar '\n' ∉ line) (rest : Text) :
    lines (line ++ rest) = (lines rest).modifyHead (line ++ ·) := by
  induction line with
  | nil => cases h : lines rest <;> simp [h]
  | cons c line ih =>
      simp only [List.mem_cons, not_or] at hreturn hfeed
      have ih := ih hreturn.2 hfeed.2
      obtain ⟨first, others, hrest⟩ := List.exists_cons_of_ne_nil (lines_ne_nil rest)
      rw [hrest, List.modifyHead_cons] at ih ⊢
      rw [List.cons_append, lines.eq_def]
      split
      next heq => cases heq
      next heq => exact absurd (List.cons.inj heq).1.symm hreturn.1
      next heq =>
        cases heq
        rw [if_neg (Ne.symm hfeed.1), ih]
        rfl

theorem patterns_line (hreturn : .scalar '\r' ∉ line) (hfeed : .scalar '\n' ∉ line) :
    patterns line = [line].filter startsPattern := by
  have hline := lines_append hreturn hfeed []
  rw [List.append_nil, lines, List.modifyHead_cons, List.append_nil] at hline
  rw [patterns, hline, isPattern_eq_startsPattern]

theorem patterns_append_feed (hreturn : .scalar '\r' ∉ line) (hfeed : .scalar '\n' ∉ line)
    (rest : Text) : patterns (line ++ .scalar '\n' :: rest) =
      [line].filter startsPattern ++ patterns rest := by
  have hcut : lines (line ++ .scalar '\n' :: rest) = [line] ++ lines rest := by
    rw [lines_append hreturn hfeed]
    simp [lines]
  rw [patterns, hcut, List.filter_append, isPattern_eq_startsPattern, patterns,
    isPattern_eq_startsPattern]

/-- Each line end sets a line apart from what comes next. -/
theorem patterns_append_lineEnd (hreturn : .scalar '\r' ∉ line) (hfeed : .scalar '\n' ∉ line)
    (ending : LineEnd) (rest : Text) :
    patterns (line ++ ending.text ++ rest).unifyLineEndings =
      [line].filter startsPattern ++ patterns rest.unifyLineEndings := by
  rw [List.append_assoc, Text.unifyLineEndings_append hreturn]
  have happend := patterns_append_feed hreturn hfeed
  cases ending with
  | feed => exact happend _
  | returnFeed => exact happend _
  | carriageReturn =>
      have htext : LineEnd.carriageReturn.text ++ rest = .scalar '\r' :: rest := rfl
      rw [htext]
      rcases Text.unifyLineEndings_return rest with ⟨more, rfl, hboth⟩ | halone
      · -- The line feed would end a blank line, and it has become part of this ending.
        have hblank : Text.unifyLineEndings (.scalar '\n' :: more) =
            [] ++ .scalar '\n' :: Text.unifyLineEndings more := rfl
        rw [hboth, happend, hblank, patterns_append_feed List.not_mem_nil List.not_mem_nil]
        rfl
      · rw [halone, happend]

end Line

variable {layout : Layout} (h : ∀ line ∈ layout.lines, IsLine line)

include h

theorem patterns_layout :
    patterns layout.text.unifyLineEndings = layout.lines.filter startsPattern := by
  obtain ⟨ended, last⟩ := layout
  induction ended with
  | nil =>
      cases last with
      | none => rfl
      | some line =>
          have hline := h line (by simp [Layout.lines])
          have htext : (Layout.mk [] (some line)).text = line := rfl
          rw [htext, Text.unifyLineEndings_eq_self hline.noReturn,
            patterns_line hline.noReturn hline.noFeed]
          rfl
  | cons first ended ih =>
      have hline := h first.1 (by simp [Layout.lines])
      have hrest := ih fun line hmem => h line (List.mem_cons_of_mem _ hmem)
      have htext : (Layout.mk (first :: ended) last).text =
          first.1 ++ first.2.text ++ (Layout.mk ended last).text := by
        simp [Layout.text]
      have hlines : (Layout.mk (first :: ended) last).lines =
          [first.1] ++ (Layout.mk ended last).lines := rfl
      rw [htext, hlines, patterns_append_lineEnd hline.noReturn hline.noFeed, hrest,
        List.filter_append]

theorem surrogate_not_mem_text (half : Fin 2048) : .surrogate half ∉ layout.text := by
  intro hmem
  rcases List.mem_append.1 hmem with hmem | hmem
  · obtain ⟨⟨line, ending⟩, hline, hmem⟩ := List.mem_flatMap.1 hmem
    rcases List.mem_append.1 hmem with hmem | hmem
    · have hlines : line ∈ layout.lines := List.mem_append_left _ (List.mem_map_of_mem hline)
      exact (h line hlines).encodable half hmem
    · cases ending <;> simp [LineEnd.text] at hmem
  · cases hlast : layout.last with
    | none => simp [hlast] at hmem
    | some line =>
        rw [hlast] at hmem
        have hlines : line ∈ layout.lines := List.mem_append_right _ (by simp [hlast])
        exact (h line hlines).encodable half hmem

end IgnoreFile

namespace Manifest

open IgnoreFile

/-- An ignore file is read as its lines that start a pattern, as they are and in their order,
whatever ends each of its lines; if no line does, it counts as having none. -/
theorem readIgnoreFile_layout {layout : Layout} (h : ∀ line ∈ layout.lines, IsLine line)
    {directory : Path} {s : Session}
    (hfile : s.files.readBytes (directory.child ignoreFileName) =
      .ok (Utf8.encode layout.text)) :
    readIgnoreFile directory s =
      .ok (if layout.lines.filter startsPattern = [] then none
        else some (layout.lines.filter startsPattern)) s := by
  have htext := FileSystem.readText_of_encode (surrogate_not_mem_text h) hfile
  rw [readIgnoreFile, Action.get_bind_apply, htext]
  simp only [patterns_layout h, List.isEmpty_iff]
  rfl

/-- Lines with all kinds of endings. The first one and the blank one after it are ended by what
looks like one ending, and a separator of lines stands within a line. -/
def mixedEnds : Layout where
  ended := [("*.js", .carriageReturn), ("", .feed), ("  # made", .returnFeed),
    ("a\u2028b", .carriageReturn)]
  last := some " !c "

theorem isLine_mixedEnds : ∀ line ∈ mixedEnds.lines, IsLine line := by
  have hlines : mixedEnds.lines =
      ["*.js", "", "  # made", "a\u2028b", " !c "].map Text.ofString := rfl
  rw [hlines]
  intro line hmem
  obtain ⟨s, hs, rfl⟩ := List.mem_map.1 hmem
  have hends : ∀ s ∈ ["*.js", "", "  # made", "a\u2028b", " !c "],
      .scalar '\r' ∉ Text.ofString s ∧ .scalar '\n' ∉ Text.ofString s := by decide
  exact ⟨(hends s hs).1, (hends s hs).2, fun half => by simp [Text.ofString]⟩

/-- A directory with an ignore file that consists of these lines. -/
def besideMixedEnds : Entries :=
  [("p", .directory [(".gitignore", .file (Utf8.encode mixedEnds.text))])]

theorem wellFormed_besideMixedEnds : Node.entriesWellFormed besideMixedEnds = true := by
  rfl

def mixedEndsSession : Session where
  files := ⟨besideMixedEnds, [], wellFormed_besideMixedEnds⟩
  temporary := .absolute ["tmp"]
  stamp := "1"

theorem mixedEnds_read : (∀ line ∈ mixedEnds.lines, IsLine line) ∧
    mixedEndsSession.files.readBytes ((Path.absolute ["p"]).child ignoreFileName) =
      .ok (Utf8.encode mixedEnds.text) ∧
    mixedEnds.text = ("*.js\r\n  # made\r\na\u2028b\r !c " : Text) ∧
    readIgnoreFile (.absolute ["p"]) mixedEndsSession =
      .ok (some ["*.js", "a\u2028b", " !c "]) mixedEndsSession := by
  have hfile : mixedEndsSession.files.readBytes ((Path.absolute ["p"]).child ignoreFileName) =
      .ok (Utf8.encode mixedEnds.text) := rfl
  have hkept : mixedEnds.lines.filter startsPattern = ["*.js", "a\u2028b", " !c "] := by decide
  have hread := readIgnoreFile_layout isLine_mixedEnds hfile
  rw [hkept] at hread
  exact ⟨isLine_mixedEnds, hfile, rfl, hread⟩

end Manifest
end ProjectLint
