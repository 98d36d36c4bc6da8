import ProjectLint.Proofs.FileSystem.Canonical
import ProjectLint.Proofs.Manifest.Nearest
import ProjectLint.Proofs.Options.Precedence

/-!
The ignore set of a call, source by source. Main statement: it consists of the built-in patterns,
those of the caller, those of the block for the command and those of the ignore file beside the
root's manifest, in this order, and each only if it has patterns. The root lies at or above the
canonical form of the call's directory, which is the directory itself unless that leads through a
link.
-/

namespace ProjectLint

open ProjectLint.Action

section Source

variable {name : Text} {patterns : List Pattern} {whileGlobbing : Bool} {base : Option Path}
  {source : Source}

/-- Whether a source has patterns and none of them is empty. -/
def Source.IsFilled (source : Source) : Prop :=
  source.patterns ≠ [] ∧ ∀ pattern ∈ source.patterns, pattern.isBlank = false

theorem Source.of?_eq_some :
    Source.of? name patterns whileGlobbing base = some source ↔
      patterns.filter (!·.isBlank) ≠ [] ∧
        source = ⟨name, patterns.filter (!·.isBlank), whileGlobbing, base⟩ := by
  simp only [Source.of?, List.isEmpty_iff, Option.ite_none_left_eq_some, Option.some.injEq, ne_eq]
  exact and_congr_right fun _ => eq_comm

theorem Source.isFilled_of_of? (h : Source.of? name patterns whileGlobbing base = some source) :
    source.IsFilled := by
  obtain ⟨hne, rfl⟩ := Source.of?_eq_some.1 h
  refine ⟨hne, fun pattern hmem => ?_⟩
  simpa using (List.mem_filter.1 hmem).2

theorem Source.whileGlobbing_of_of?
    (h : Source.of? name patterns whileGlobbing base = some source) :
    source.whileGlobbing = whileGlobbing := by
  obtain ⟨-, rfl⟩ := Source.of?_eq_some.1 h
  rfl

end Source

namespace LintOptions

/-- The source of the caller's patterns. -/
def callerLayer (patterns : List Pattern) : List Source :=
  (Source.of? "options" patterns true none).toList

/-- The source of a manifest's block, if one was found. -/
def blockLayer (found : Option (Path × Manifest.Block)) : List Source :=
  (found.bind fun found =>
    Source.of? "package.json" ((found.2.ignore.getD []).map .text) true none).toList

/-- The source of the ignore file in the root of a project, if there is a root. -/
def ignoreFileLayer (fs : FileSystem) (root : Option Path) : List Source :=
  (root.bind fun root => Source.of? ".gitignore" ((Manifest.linesIn fs root).map .text) false
    (some root)).toList

/-- The sources of a call with some caller's patterns, block and root. -/
def layers (fs : FileSystem) (patterns : List Pattern) (found : Option (Path × Manifest.Block))
    (root : Option Path) : IgnoreSet :=
  Source.builtIn :: callerLayer patterns ++ blockLayer found ++ ignoreFileLayer fs root

section Layers

variable {fs : FileSystem} {patterns : List Pattern} {found : Option (Path × Manifest.Block)}
  {root : Option Path} {source : Source}

theorem mem_blockLayer : source ∈ blockLayer found ↔ ∃ manifest, found = some manifest ∧
    Source.of? "package.json" ((manifest.2.ignore.getD []).map .text) true none = some source := by
  rw [blockLayer, Option.mem_toList, Option.bind_eq_some_iff]

theorem mem_ignoreFileLayer : source ∈ ignoreFileLayer fs root ↔ ∃ directory,
    root = some directory ∧ Source.of? ".gitignore"
      ((Manifest.linesIn fs directory).map .text) false (some directory) = some source := by
  rw [ignoreFileLayer, Option.mem_toList, Option.bind_eq_some_iff]

theorem projectSources_eq_layers {directory : Path} {lines : Option (List Text)}
    (h : lines.getD [] = Manifest.linesIn fs directory) :
    projectSources directory (found.map (·.2)) lines =
      blockLayer found ++ ignoreFileLayer fs (some directory) := by
  have hblock : ((found.map (·.2)).bind fun block =>
      Source.of? "package.json" ((block.ignore.getD []).map .text) true none).toList =
        blockLayer found := by
    cases found <;> rfl
  have hlines : (lines.bind fun lines =>
      Source.of? ".gitignore" (lines.map .text) false (some directory)).toList =
        ignoreFileLayer fs (some directory) := by
    rw [ignoreFileLayer, Option.bind_some, ← h]
    cases lines <;> rfl
  rw [projectSources, hblock, hlines]

theorem layers_none :
    layers fs patterns none none = Source.builtIn :: callerLayer patterns := by
  rw [layers, blockLayer, ignoreFileLayer, Option.bind_none, Option.bind_none, Option.toList_none,
    List.append_nil, List.append_nil]

theorem isFilled_of_mem_layers (h : source ∈ layers fs patterns found root) :
    source.IsFilled := by
  rw [layers, List.mem_append, List.mem_append, List.mem_cons, mem_blockLayer,
    mem_ignoreFileLayer, callerLayer, Option.mem_toList] at h
  rcases h with ((rfl | h) | ⟨_, -, h⟩) | ⟨_, -, h⟩
  · exact Source.isFilled_of_of? Source.of?_builtIn
  · exact Source.isFilled_of_of? h
  · exact Source.isFilled_of_of? h
  · exact Source.isFilled_of_of? h

/-- The patterns that count while globs are expanded are those of all layers but the last. -/
theorem globPatterns_layers : (layers fs patterns found root).globPatterns =
    (Source.builtIn :: callerLayer patterns ++ blockLayer found).flatMap (·.patterns) := by
  have hfirst : ∀ source ∈ Source.builtIn :: callerLayer patterns ++ blockLayer found,
      source.whileGlobbing = true := by
    intro source h
    rw [List.mem_append, List.mem_cons, mem_blockLayer, callerLayer, Option.mem_toList] at h
    rcases h with (rfl | h) | ⟨_, -, h⟩
    · rfl
    · exact Source.whileGlobbing_of_of? h
    · exact Source.whileGlobbing_of_of? h
  have hlast : ∀ source ∈ ignoreFileLayer fs root, ¬source.whileGlobbing = true := by
    intro source h
    obtain ⟨_, -, h⟩ := mem_ignoreFileLayer.1 h
    rw [Source.whileGlobbing_of_of? h]
    exact Bool.false_ne_true
  rw [IgnoreSet.globPatterns, layers, List.filter_append, List.filter_eq_self.2 hfirst,
    List.filter_eq_nil_iff.2 hlast, List.append_nil]

end Layers

section Resolve

variable {options : LintOptions} {command : Text} {config : EngineConfig} {s t : Session}
  {resolved : ResolvedOptions}

/-- What was gathered is in layers, where root and block are what the searches find. -/
theorem layers_of_gather {found : Gathered} (h : options.gather command s = .ok found t) :
    ∃ patterns canonical block, options.ignore.toList = .ok patterns ∧
      s.files.resolve found.directory = .ok canonical ∧
      Manifest.Finds s.files s.host.nesting command canonical.ancestors found.root block ∧
      found.ignored = layers s.files patterns block found.root := by
  obtain ⟨_, patterns, _, v, _, -, -, hlist, hroot, hsources⟩ := gather_eq_sources h
  obtain ⟨canonical, u, hcanonical, -⟩ := bind_eq_ok.1 hroot
  obtain ⟨hcanonical, -⟩ := Action.resolve_eq_ok.1 hcanonical
  have hfinds := Manifest.finds_nearest s.files s.host.nesting command canonical
  rw [← Manifest.root_of_findRoot hcanonical hroot] at hfinds
  refine ⟨patterns, canonical, _, hlist, hcanonical, hfinds, ?_⟩
  cases hcase : found.root with
  | none =>
      rw [hcase] at hsources hfinds
      obtain ⟨hignored, -⟩ := Prod.mk.inj (pure_eq_ok.1 hsources).1
      rw [← hignored, hfinds.eq_none, layers_none]
      rfl
  | some root =>
      rw [hcase] at hsources
      obtain ⟨block, lines, _, _, hblock, hlines, hfound⟩ := withProject_eq_ok hsources
      obtain ⟨hignored, -⟩ := Prod.mk.inj hfound
      rw [hignored, ← Manifest.block_of_findBlock hcanonical hblock,
        projectSources_eq_layers (Manifest.lines_of_readIgnoreFile hlines), ← List.append_assoc]
      rfl

/-- The sources of a call that succeeds are its layers, and its root lies in the chain of directories
above the canonical form of its directory. That is the directory itself unless it leads through a
link, as it does not if the call starts from an existing directory whose links can be looked at. -/
theorem resolve_in_layers (h : options.resolve command config s = .ok resolved t) :
    ∃ patterns canonical block, options.ignore.toList = .ok patterns ∧
      s.files.resolve resolved.directory = .ok canonical ∧
      ((∀ before after, resolved.directory.parts = before ++ after →
        s.files.linkTarget? (.absolute before) = none) →
          canonical = .absolute resolved.directory.parts) ∧
      (∀ start place entries, options.startDirectory.gives s = .ok start →
        s.files.ShowsLinks start → s.files.LinksShow → s.files.locate .named start = .ok place →
        s.files.find? place = some (.directory entries) → canonical = resolved.directory) ∧
      Manifest.Finds s.files s.host.nesting command canonical.ancestors resolved.root block ∧
      (∀ root, resolved.root = some root → root ∈ canonical.ancestors) ∧
      resolved.ignored = layers s.files patterns block resolved.root ∧
      (resolved.root = none → resolved.ignored = Source.builtIn :: callerLayer patterns) ∧
      (∀ source ∈ resolved.ignored, source.IsFilled) ∧
      resolved.ignored.globPatterns =
        (Source.builtIn :: callerLayer patterns ++ blockLayer block).flatMap (·.patterns) := by
  rw [resolve_eq_gather] at h
  obtain ⟨found, u, hfound, h⟩ := bind_eq_ok.1 h
  obtain ⟨engine, v, -, h⟩ := bind_eq_ok.1 h
  obtain ⟨rfl, -⟩ := pure_eq_ok.1 h
  obtain ⟨patterns, canonical, block, hlist, hcanonical, hfinds, hignored⟩ :=
    layers_of_gather hfound
  obtain ⟨hplain, habsolute⟩ := plain_directory_of_gather hfound
  obtain ⟨start, _, _, _, _, hstart, hdirectory, -⟩ := gather_eq_sources hfound
  have hparent := FileSystem.parentPart_not_mem_resolve hdirectory
  refine ⟨patterns, canonical, block, hlist, hcanonical, fun hlink => ?_, ?_, hfinds, ?_, hignored,
    fun hroot => ?_, ?_, ?_⟩
  · exact FileSystem.eq_of_resolve_of_noLink habsolute hplain hparent hlink hcanonical
  · intro other place entries hother hshows hlinks hlocate hentries
    rw [gives, hstart] at hother
    cases hother
    have hagain := FileSystem.resolve_resolve hlinks (plain_startDirectory hstart) hshows hlocate
      hentries hdirectory
    exact Except.ok.inj (hcanonical.symm.trans hagain)
  · intro root hroot
    obtain ⟨nearer, farther, hchain, -⟩ := (hfinds.root_some root).1 hroot
    simp [hchain]
  · simp only at hroot hfinds hignored ⊢
    rw [hroot] at hfinds hignored
    rw [hignored, hfinds.eq_none, layers_none]
  · rw [hignored]
    exact fun source => isFilled_of_mem_layers
  · rw [hignored]
    exact globPatterns_layers

/-- A session with a project that a link leads to, and a link that leads to itself. -/
def linkedProject : Session where
  files := ⟨[("d", .directory [(".gitignore", .file (Utf8.encode "zz\n")),
      ("package.json", .file (Utf8.encode "\x7b\"lint\": \x7b\"ignore\": [\"q/**\"]\x7d\x7d"))]),
    ("loop", .link "loop"), ("x", .link "d")], [], by rfl⟩
  temporary := .absolute ["tmp"]
  stamp := "1"

/-- A caller in some directory that gives a pattern and an empty one. -/
def callsFrom (directory : Text) : LintOptions where
  directory := .text directory
  ignore := .ofTexts ["mine/**", []]

theorem linked_project_in_layers : ∃ resolved t patterns canonical block,
    (callsFrom "/x").resolve "lint" {} linkedProject = .ok resolved t ∧
    linkedProject.files.resolve resolved.directory = .ok canonical ∧
    Manifest.Finds linkedProject.files 990 "lint" canonical.ancestors resolved.root block ∧
    resolved.ignored = layers linkedProject.files patterns block resolved.root ∧
    resolved.ignored.map (·.name) = ["defaults", "options", "package.json", ".gitignore"] := by
  obtain ⟨resolved, t, h, hnames⟩ := exists_of_passes
    ((callsFrom "/x").resolve "lint" {} linkedProject)
    (fun resolved => resolved.ignored.map (·.name) =
      ["defaults", "options", "package.json", ".gitignore"]) (by decide +kernel)
  obtain ⟨patterns, canonical, block, -, hcanonical, -, -, hfinds, -, hignored, -⟩ :=
    resolve_in_layers h
  exact ⟨resolved, t, patterns, canonical, block, h, hcanonical, hfinds, hignored,
    of_decide_eq_true hnames⟩

/-- What a ring of links leaves of a path can still lead through a link. Then the root does not lie
above the directory of the call. -/
theorem root_beside_directory :
    ¬∀ (options : LintOptions) (command : Text) (config : EngineConfig) (s t : Session)
      (resolved : ResolvedOptions), options.resolve command config s = .ok resolved t →
        ∀ root, resolved.root = some root → root ∈ resolved.directory.ancestors := by
  intro hclaim
  obtain ⟨resolved, t, h, htest⟩ := exists_of_passes
    ((callsFrom "/loop/../x").resolve "lint" {} linkedProject)
    (fun resolved => resolved.root = some (.absolute ["d"]) ∧
      resolved.directory = .absolute ["x"]) (by decide +kernel)
  obtain ⟨hroot, hdirectory⟩ := of_decide_eq_true htest
  have hmem := hclaim _ _ _ _ _ _ h _ hroot
  rw [hdirectory] at hmem
  exact absurd hmem (by decide)

end Resolve

end LintOptions
end ProjectLint
