import ProjectLint.Proofs.Glob.Chain
import ProjectLint.Proofs.Ignore.Descent

/-!
When pruning changes nothing about the files that globs find. Whatever tree there is, a glob reaches
only files whose names could stand in a tree, and a tree with such a file alone can be made. So all
globs find the same files in all trees with pruning and without it exactly if every such file below
a pruned directory is ignored. This is so if all lines of the sources go down from the directories
that they find. The built-in lines for whole directories do not.
-/

namespace ProjectLint

theorem Path.collapse_sublist (parts : List Text) : (collapse parts).Sublist parts := by
  have hfold : ∀ (start parts : List Text), (parts.foldl enter start).Sublist (start ++ parts) := by
    intro start parts
    induction parts generalizing start with
    | nil => simp
    | cons part parts ih =>
        refine (ih (enter start part)).trans ?_
        rw [enter]
        split
        · exact (List.dropLast_sublist start).append (List.sublist_cons_self part parts)
        · simp
  exact hfold [] parts

/-- Whether a file can stand at a path, with no link on the way. -/
structure Path.Nameable (p : Path) : Prop where
  absolute : p.isAbsolute = true
  names : ∀ part ∈ p.parts, isEntryName part = true
  short : isTooLong p.toText = false

theorem Path.Nameable.plain {p : Path} (h : p.Nameable) : p.Plain :=
  fun part hpart => isComponent_of_isEntryName (h.names part hpart)

namespace IgnoreSet

theorem ignoresWhileGlobbing_congr (set : IgnoreSet) {viewpoint : Viewpoint} {p q : Path}
    (h : ∀ base, Path.relativeTo viewpoint.process p base =
      Path.relativeTo viewpoint.process q base) :
    set.ignoresWhileGlobbing viewpoint p = set.ignoresWhileGlobbing viewpoint q := by
  have hsource : (fun source : Source => source.ignores viewpoint p) =
      fun source => source.ignores viewpoint q := by
    funext source
    simp only [Source.ignores, Source.view?, h]
  rw [ignoresWhileGlobbing, ignoresWhileGlobbing, hsource]

theorem prunes_congr (set : IgnoreSet) {viewpoint : Viewpoint} {p q : Path}
    (h : ∀ base, Path.relativeTo viewpoint.process p base =
      Path.relativeTo viewpoint.process q base) :
    set.prunes viewpoint p = set.prunes viewpoint q := by
  have hsource : (fun source : Source => source.ignoresFolder viewpoint p) =
      fun source => source.ignoresFolder viewpoint q := by
    funext source
    simp only [Source.ignoresFolder, Source.view?, h]
  rw [prunes, prunes, hsource]

/-- Whether every file that can stand below a pruned directory is ignored. -/
def PrunesOnlyIgnored (set : IgnoreSet) (viewpoint : Viewpoint) : Prop :=
  ∀ anchor above name below, (Path.mk anchor (above ++ name :: below)).Nameable → below ≠ [] →
    Glob.isHidden name = false → set.prunes viewpoint ⟨anchor, above ++ [name]⟩ = .ok true →
      set.ignoresWhileGlobbing viewpoint ⟨anchor, above ++ name :: below⟩ = .ok true

/-- Whether all sources that count while globs are expanded go down from the directories that they
find. -/
def Descends (set : IgnoreSet) : Prop :=
  ∀ source ∈ set, source.whileGlobbing = true → source.Descends

theorem prunesOnlyIgnored_of_descends {set : IgnoreSet} (hset : set.Compiles)
    (hdescends : set.Descends) (viewpoint : Viewpoint) : set.PrunesOnlyIgnored viewpoint := by
  intro anchor above name below hfile hne _ hprunes
  obtain ⟨answer, hanswer, hpruned⟩ := prunes_of_compiles hset viewpoint ⟨anchor, above ++ [name]⟩
  rw [hprunes, Except.ok.injEq] at hanswer
  obtain ⟨source, hmem, hglobbing, hfolder⟩ := hpruned.1 hanswer.symm
  have hparts : above ++ name :: below = (above ++ [name]) ++ below := by simp
  have hbelow : parentPart ∉ below := fun h =>
    ne_parentPart_of_isEntryName (hfile.names parentPart (by simp [h])) rfl
  have hplain : (Path.mk anchor ((above ++ [name]) ++ below)).Plain := hparts ▸ hfile.plain
  have habsolute : (Path.mk anchor (above ++ [name])).isAbsolute = true := hfile.absolute
  have hignores := Source.ignores_below (hset source hmem hglobbing)
    (hdescends source hmem hglobbing) habsolute hplain hbelow hne hfolder
  obtain ⟨ignored, hignored, hiff⟩ :=
    ignoresWhileGlobbing_of_compiles hset viewpoint ⟨anchor, above ++ name :: below⟩
  rw [hignored, hiff.2 ⟨source, hmem, hglobbing, hparts ▸ hignores⟩]

end IgnoreSet

namespace Glob

/-- Whether a glob is spelled as names are given back by the system, and does not lead up after its
first `**`. -/
structure Downward (glob : Path) : Prop where
  plain : glob.Plain
  asName : ∀ segment ∈ glob.parts, hasWildcard segment = false → segment.asName = segment
  below : StaysBelow glob.parts

/-- Whether a path is absolute and its components, `..` apart, are given back as they are. -/
def Spelled (p : Path) : Prop :=
  p.isAbsolute = true ∧ p.Plain ∧ ∀ part ∈ p.parts, part.asName = part

theorem Spelled.child {p : Path} (hp : Spelled p) {name : Text} (hcomponent : IsComponent name)
    (hname : name.asName = name) : Spelled (p.child name) := by
  refine ⟨hp.1, hp.2.1.child hcomponent, fun part hpart => ?_⟩
  rcases List.mem_append.1 hpart with hpart | hpart
  · exact hp.2.2 part hpart
  · rw [List.mem_singleton.1 hpart]
    exact hname

theorem keptBySteps_spelled (fs : FileSystem) {glob : Path} (hglob : Downward glob) :
    KeptBySteps fs glob.parts Spelled where
  entry := by
    intro p entries name node hp hnode hmem
    have hname := FileSystem.isEntryName_of_node? hnode hmem
    exact hp.child (isComponent_of_isEntryName hname) (asName_of_isEntryName hname)
  segment := by
    intro p segment hp hmem hwild _
    exact hp.child (hglob.plain segment hmem) (hglob.asName segment hmem hwild)

/-- A file that a path leads to could stand there by its own name, with each `..` taken together
with the component before it. -/
theorem nameable_of_isFile {fs : FileSystem} {p : Path} (hspelled : Spelled p)
    (h : fs.isFile p = .ok true) : (Path.mk p.anchor (Path.collapse p.parts)).Nameable := by
  obtain ⟨content, hnode⟩ := FileSystem.isFile_eq_true.1 h
  obtain ⟨place, hplace, -⟩ := FileSystem.node?_eq_ok.1 hnode
  obtain ⟨habsolute, hplain, hasName⟩ := hspelled
  refine ⟨habsolute, fun part hpart => ?_, ?_⟩
  · have hmem := Path.mem_of_mem_collapse hpart
    have hparent : part ≠ parentPart := by
      rintro rfl
      exact Path.parentPart_not_mem_collapse _ hpart
    have hcheck : checkSpelling part = .ok () := by
      refine checkSpelling_eq_ok.2 fun c hc => ?_
      exact checkSpelling_eq_ok.1 (FileSystem.checkSpelling_of_locate hplace) c
        (Path.mem_toText hmem hc)
    obtain ⟨hne, hself, hslash⟩ := hplain part hmem
    have hlength := FileSystem.nameLength_of_locate hplace hmem ⟨hne, hself, hparent⟩
    simp [isEntryName, leadsDown, hne, hself, hparent, hslash, hcheck, Except.isOk, Except.toBool,
      hlength, hasName part hmem]
  · have hlong := FileSystem.isTooLong_of_locate hplace
    exact Path.isTooLong_of_sublist habsolute (Path.collapse_sublist p.parts) hlong

theorem downward_throughDepth (anchor : Anchor) (above below : List Text) :
    Downward (throughDepth anchor above below) where
  plain := by
    have hwildcard : ∀ name, IsComponent (wildcard name) := by
      intro name
      rw [wildcard]
      split <;> exact ⟨by decide, by decide, by decide⟩
    intro segment hmem
    rcases List.mem_append.1 hmem with hmem | hmem
    · obtain ⟨name, -, rfl⟩ := List.mem_map.1 hmem
      exact hwildcard name
    · rcases List.mem_cons.1 hmem with rfl | hmem
      · exact ⟨by decide, by decide, by decide⟩
      · obtain ⟨name, -, rfl⟩ := List.mem_map.1 hmem
        exact hwildcard name
  asName := by
    intro segment hmem hwild
    rw [hasWildcard_of_mem_throughDepth anchor above below segment hmem] at hwild
    cases hwild
  below := staysBelow_throughDepth anchor above below

variable {set : IgnoreSet} {viewpoint : Viewpoint}

theorem sameFiles_of_prunesOnlyIgnored (hset : set.Compiles) (hcall : Spelled viewpoint.call)
    (hprunes : set.PrunesOnlyIgnored viewpoint) (files : FileSystem) {glob : Path}
    (hglob : Downward glob) : SameFiles ⟨files, set, viewpoint, none⟩ glob := by
  have hanswers := fun p => IgnoreSet.prunes_of_compiles hset viewpoint p
  have hskip : set.prunes viewpoint = answering fun p => (hanswers p).choose := by
    funext p
    exact (hanswers p).choose_spec.1
  have hreadable : (Scope.mk files set viewpoint none).unreadable = none := rfl
  refine sameFiles_of_ignored hreadable hglob.below hskip ?_
  rintro others hothers p hp ⟨above, name, below, hparts, hhidden, hpruned, hbelow, hlast⟩ hfile
  have hstart : ∀ start ∈ [Scope.start ⟨files, set, viewpoint, none⟩ glob], Spelled start := by
    intro start hstart
    rw [List.mem_singleton.1 hstart, Scope.start]
    by_cases habsolute : glob.isAbsolute = true
    · rw [if_pos habsolute]
      exact ⟨habsolute, Path.plain_nil _, by simp⟩
    · rw [if_neg habsolute]
      exact hcall
  have hspelled := forall_steps (keptBySteps_spelled files hglob) hstart hothers p hp
  have hnameable := nameable_of_isFile hspelled hfile
  have hne : below ≠ [] := by
    refine hlast.resolve_right ?_
    rw [entries?_of_isFile hfile]
    simp
  have hname : name ≠ parentPart := by
    rintro rfl
    cases hhidden
  have hdown : parentPart ∉ name :: below := by
    simp only [List.mem_cons, not_or]
    exact ⟨Ne.symm hname, hbelow⟩
  obtain ⟨anchor, parts⟩ := p
  simp only at hparts hnameable hpruned
  subst hparts
  have habsolute : (Path.mk anchor above).isAbsolute = true := hspelled.1
  rw [Path.collapse_append hdown] at hnameable
  -- The same directory and the same file, without the `..` before them, are seen alike.
  have hdirectory : set.prunes viewpoint ⟨anchor, Path.collapse above ++ [name]⟩ = .ok true := by
    have hone : parentPart ∉ [name] := by simpa using Ne.symm hname
    have hsame := set.prunes_congr fun base =>
      Path.relativeTo_collapse viewpoint.process base habsolute hone
    rw [hsame, hskip, answering, hpruned]
  have hignored := hprunes anchor _ name below hnameable hne hhidden hdirectory
  rw [← hignored]
  exact (set.ignoresWhileGlobbing_congr fun base =>
    Path.relativeTo_collapse viewpoint.process base habsolute hdown).symm

theorem prunesOnlyIgnored_of_sameFiles (hset : set.Compiles)
    (h : ∀ files glob, Downward glob → SameFiles ⟨files, set, viewpoint, none⟩ glob) :
    set.PrunesOnlyIgnored viewpoint := by
  intro anchor above name below hfile hne hhidden hprunes
  obtain ⟨answer, hanswer, -⟩ :=
    IgnoreSet.ignoresWhileGlobbing_of_compiles hset viewpoint ⟨anchor, above ++ name :: below⟩
  cases answer with
  | true => exact hanswer
  | false =>
      obtain ⟨first, rest, hsplit⟩ : ∃ first rest, first :: rest = above ++ name :: below := by
        cases above with
        | nil => exact ⟨name, below, rfl⟩
        | cons first above => exact ⟨first, above ++ name :: below, rfl⟩
      rw [← hsplit] at hfile hanswer
      let scope : Scope := ⟨chain first rest hfile.names, set, viewpoint, none⟩
      have hfiles : scope.files = chain first rest hfile.names := rfl
      have hlost := not_sameFiles_throughDepth hfile.names hfile.absolute hfile.short hfiles rfl
        hsplit hne hhidden hprunes hanswer
      exact absurd (h _ _ (downward_throughDepth anchor above below)) hlost

/-- Globs find the same files with and without pruning, in every tree, exactly if every file that
can stand below a pruned directory is ignored; it is so if all lines go down from directories. This
leaves out the globs that go up after a `**`: they can come back from a pruned directory to files
that are not below it, so that they find fewer files even where only such directories are pruned. -/
theorem sameFiles_iff_prunesOnlyIgnored (hset : set.Compiles) (hcall : Spelled viewpoint.call) :
    ((∀ files glob, Downward glob → SameFiles ⟨files, set, viewpoint, none⟩ glob) ↔
        set.PrunesOnlyIgnored viewpoint) ∧
      (set.Descends → set.PrunesOnlyIgnored viewpoint) := by
  refine ⟨⟨prunesOnlyIgnored_of_sameFiles hset, fun hprunes files glob hglob => ?_⟩, ?_⟩
  · exact sameFiles_of_prunesOnlyIgnored hset hcall hprunes files hglob
  · exact fun hdescends => IgnoreSet.prunesOnlyIgnored_of_descends hset hdescends viewpoint

/-- Where paths are seen from in the cases below. -/
def atRoot : Viewpoint :=
  ⟨.absolute [], .absolute []⟩

theorem spelled_atRoot : Spelled atRoot.call :=
  ⟨rfl, Path.plain_nil _, by simp [atRoot, Path.absolute]⟩

/-- A directory with a file, and with modules that stand one level lower than usual. -/
def nestedModules : Entries :=
  [("a", .directory [("b.js", .file []), ("node_modules", .directory [("x.js", .file [])])])]

theorem wellFormed_nestedModules : Node.entriesWellFormed nestedModules = true := by
  rfl

/-- A line for everything below a directory that it names with two pieces. -/
def generated : Source :=
  ⟨"settings", [.text "src/gen/**"], true, none⟩

theorem ofLine_generated : Rule.ofLine "src/gen/**" =
    .ok (some ⟨false, .elements (Element.literal "src" ++
      (.slash :: Element.literal "gen" ++ [.slash]))⟩) := by
  rfl

theorem descends_generated : Rule.Descends "src/gen/**" := by
  refine Or.inr ⟨_, ofLine_generated, ?_, _, rfl, Or.inl (by decide), fun n => ?_⟩
  · rintro ⟨piece, hline, -, hslash⟩
    have hpiece : ("src/gen" : Text) = piece := List.append_cancel_right hline
    exact hslash (by rw [← hpiece]; decide)
  · rw [Bool.eq_false_iff]
    intro hmatch
    obtain ⟨taken, rest, htext, hreads⟩ := Element.sequenceMatches_eq_true.1 hmatch
    obtain ⟨word, more, rfl, hword, -⟩ := Element.reads_append.1 hreads
    rw [Element.reads_literal] at hword
    subst hword
    -- The line starts with a letter, `..` with a dot.
    have hhead := congrArg List.head? htext
    cases n with
    | zero => cases hhead
    | succ n => cases hhead

theorem compiles_generated : IgnoreSet.Compiles [generated] := by
  intro source hmem _ pattern hpattern
  rw [List.mem_singleton.1 hmem] at hpattern
  exact ⟨_, _, List.mem_singleton.1 hpattern, ofLine_generated⟩

theorem descends_generatedSet : IgnoreSet.Descends [generated] := by
  intro source hmem _
  rw [List.mem_singleton.1 hmem]
  refine Or.inr fun line hline => ?_
  cases List.mem_singleton.1 hline
  exact descends_generated

theorem generated_prunesOnlyIgnored :
    IgnoreSet.Compiles [generated] ∧ Spelled atRoot.call ∧
      IgnoreSet.PrunesOnlyIgnored [generated] atRoot :=
  ⟨compiles_generated, spelled_atRoot,
    (sameFiles_iff_prunesOnlyIgnored compiles_generated spelled_atRoot).2 descends_generatedSet⟩

/-- A working directory with a file, and with a directory for generated files that is empty. -/
def nothingGenerated : FileSystem :=
  ⟨[("w", .directory [("a.js", .file []), ("src", .directory [("gen", .directory [])])])], ["w"],
    rfl⟩

-- The only way to the file that such a glob takes leads through the pruned directory.
example :
    let scope : Scope := ⟨nothingGenerated, [generated], ⟨.absolute ["w"], .absolute ["w"]⟩, none⟩
    let upward := Path.ofText "**/../../a.js"
    Finds (expand scope upward) [] ∧
      Finds (expandPruning noPruning scope upward) [.absolute ["w", "a.js"]] :=
  ⟨⟨_, rfl⟩, ⟨_, rfl⟩⟩

theorem compiles_builtIn : IgnoreSet.Compiles [Source.builtIn] := by
  intro source hmem _ pattern hpattern
  rw [List.mem_singleton.1 hmem] at hpattern
  simp only [Source.builtIn, Discovery.defaultIgnored, List.map_cons, List.map_nil, List.mem_cons,
    List.not_mem_nil, or_false] at hpattern
  rcases hpattern with rfl | rfl | rfl | rfl <;> exact ⟨_, _, rfl, rfl⟩

/-- The built-in lines prune modules at every depth and ignore them at the top only. -/
theorem nested_modules_lost :
    IgnoreSet.Compiles [Source.builtIn] ∧
      Finds (expand ⟨⟨nestedModules, [], wellFormed_nestedModules⟩, [Source.builtIn], atRoot, none⟩
        (.ofText "**/*.js")) [.absolute ["a", "b.js"]] ∧
      Finds (expandPruning noPruning
        ⟨⟨nestedModules, [], wellFormed_nestedModules⟩, [Source.builtIn], atRoot, none⟩
        (.ofText "**/*.js"))
        [.absolute ["a", "b.js"], .absolute ["a", "node_modules", "x.js"]] :=
  ⟨compiles_builtIn, ⟨_, rfl⟩, ⟨_, rfl⟩⟩

end Glob
end ProjectLint
