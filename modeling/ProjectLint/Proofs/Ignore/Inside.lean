import ProjectLint.Ignore.File
import ProjectLint.Proofs.Ignore.Descent

/-!
What a source with a base makes of paths. Main statements: it ignores nothing outside its base, and
inside it what its rules select by the components that lead down from the base. Where a call takes
place plays no part in this. The same holds of the source that an ignore file gives, if it has any
patterns.
-/

namespace ProjectLint

namespace Source

/-- Whether a source with a base ignores a path, where its base is the directory `base`. -/
theorem ignores_of_base {source : Source} {base path : Path} (hbase : source.base = some base)
    (hroot : base.isAbsolute = true) (hup : parentPart ∉ base.parts)
    (habsolute : path.isAbsolute = true) (hplain : path.Plain) (viewpoint : Viewpoint) :
    source.ignores viewpoint path =
      if List.IsPrefix base.parts (Path.collapse path.parts) then
        source.rules.map fun rules => Rule.decides rules
          (Path.mk .relative ((Path.collapse path.parts).drop base.parts.length)).toText
      else .ok false := by
  have hseen : Path.seenParts viewpoint.process path base =
      Path.steps (Path.collapse path.parts) base.parts := by
    rw [Path.seenParts, Path.under_of_isAbsolute hroot, Path.collapse_eq_self hup]
  rw [ignores, view?_of_isAbsolute source habsolute hplain, hbase]
  simp only [hseen]
  by_cases hinside : List.IsPrefix base.parts (Path.collapse path.parts)
  · obtain ⟨below, hbelow⟩ := hinside
    have hhead : below.head? ≠ some parentPart := by
      intro hhead
      refine Path.parentPart_not_mem_collapse path.parts ?_
      rw [← hbelow]
      exact List.mem_append_right _ (List.mem_of_head? hhead)
    rw [← hbelow, Path.steps_self_append, if_neg hhead, if_pos (List.prefix_append _ _),
      List.drop_left]
    cases source.rules <;> rfl
  · rw [if_pos (Path.head?_steps_of_not_isPrefix hinside), if_neg hinside]

/-- A name that only begins with two dots does not lead outside. -/
example : (Source.mk ".gitignore" [] false (some (.absolute ["p"]))).view?
    ⟨.absolute [], .absolute []⟩ (.absolute ["p", "..a"]) = some "..a" := by
  decide

/-- The sources that an ignore file in a directory gives: one, if it has any patterns. -/
def ofIgnoreFile (directory : Path) (content : Text) : IgnoreSet :=
  (of? ".gitignore" ((IgnoreFile.patterns content).map .text) false (some directory)).toList

theorem ofIgnoreFile_eq (directory : Path) (content : Text) :
    ofIgnoreFile directory content =
      if IgnoreFile.patterns content = [] then []
      else [⟨".gitignore", (IgnoreFile.patterns content).map .text, false, some directory⟩] := by
  have hkept : ((IgnoreFile.patterns content).map Pattern.text).filter (!·.isBlank) =
      (IgnoreFile.patterns content).map .text := by
    refine List.filter_eq_self.2 fun pattern hpattern => ?_
    obtain ⟨line, hline, rfl⟩ := List.mem_map.1 hpattern
    cases line with
    | nil => exact absurd (List.mem_filter.1 hline).2 (by decide)
    | cons c line => rfl
  rw [ofIgnoreFile, of?]
  simp only [hkept, List.isEmpty_iff, List.map_eq_nil_iff]
  split <;> rfl

end Source

theorem IgnoreSet.ignores_singleton (source : Source) (viewpoint : Viewpoint) (path : Path) :
    ignores [source] viewpoint path = source.ignores viewpoint path := by
  rw [ignores, anySource]
  cases source.ignores viewpoint path with
  | error failure => rfl
  | ok ignored => cases ignored <;> rfl

/-- An ignore file ignores what lies in its directory and is selected by its lines there. -/
theorem IgnoreSet.ignores_ofIgnoreFile {directory path : Path}
    (hroot : directory.isAbsolute = true) (hup : parentPart ∉ directory.parts)
    (habsolute : path.isAbsolute = true) (hplain : path.Plain) (content : Text)
    (viewpoint : Viewpoint) :
    ignores (Source.ofIgnoreFile directory content) viewpoint path =
      if List.IsPrefix directory.parts (Path.collapse path.parts) then
        (Rule.ofPatterns ((IgnoreFile.patterns content).map .text)).map fun rules =>
          Rule.decides rules
            (Path.mk .relative ((Path.collapse path.parts).drop directory.parts.length)).toText
      else .ok false := by
  rw [Source.ofIgnoreFile_eq]
  split
  · rename_i hnone
    rw [hnone]
    split <;> rfl
  · rw [ignores_singleton]
    exact Source.ignores_of_base rfl hroot hup habsolute hplain viewpoint

end ProjectLint
