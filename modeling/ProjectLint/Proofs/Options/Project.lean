import Mathlib.Data.List.Basic
import Mathlib.Data.List.Find
import Mathlib.Tactic.Push
import ProjectLint.Proofs.FileSystem.Canonical
import ProjectLint.Proofs.Manifest.Reading

/-!
The options of a call in an existing directory, where the engine's configuration is in no file. Main
statement: they are put together from what the caller gives and what the files of the project say,
unless the search for the block comes to a manifest beyond the limits of the reader; so the contents
of these files, whatever they are, have no other effect.
-/

namespace ProjectLint

open ProjectLint.Action

variable {nesting : Nat}

theorem IgnoreSet.givesFrom_add (fs : FileSystem) (set : IgnoreSet) (name : Text)
    (patterns : List Pattern) (whileGlobbing : Bool) (base : Option Path) :
    GivesFrom fs nesting (set.add name patterns whileGlobbing base)
      (.ok (set ++ (Source.of? name patterns whileGlobbing base).toList)) := by
  rw [IgnoreSet.add]
  cases Source.of? name patterns whileGlobbing base with
  | none => exact fun _ _ _ => by rw [Option.toList_none, List.append_nil]; rfl
  | some source => exact fun _ _ _ => rfl

theorem Action.gives_workingPath (s : Session) :
    Action.workingPath.gives s =
      match s.files.workingPath with
      | .ok path => .ok path
      | .error errno => .error (.refused errno none) := by
  rw [gives, Action.workingPath, get_bind_apply]
  cases s.files.workingPath <;> rfl

/-- The names of manifests and ignore files in a directory and above it can be spelled. -/
theorem FileSystem.checkSpelling_ancestor {fs : FileSystem} {place : Place}
    (h : fs.HasDirectory place) {directory : Path}
    (hmem : directory ∈ (Path.absolute place).ancestors) {name : Text}
    (hname : checkSpelling name = .ok ()) :
    checkSpelling (directory.child name).toText = .ok () := by
  obtain ⟨-, hparts⟩ := Path.of_mem_ancestors hmem
  refine Path.checkSpelling_toText fun part hpart => ?_
  rcases List.mem_append.1 hpart with hpart | hpart
  · exact checkSpelling_of_isEntryName (isEntryName_of_hasDirectory h part (hparts.subset hpart))
  · rw [List.mem_singleton.1 hpart]
    exact hname

namespace LintOptions

theorem givesFrom_addBlock (fs : FileSystem) (set : IgnoreSet) (block : Option Manifest.Block) :
    GivesFrom fs nesting (addBlock set block) (.ok (set ++ (block.bind fun block =>
      Source.of? "package.json" ((block.ignore.getD []).map .text) true none).toList)) := by
  cases block with
  | none =>
      rw [Option.bind_none, Option.toList_none, List.append_nil]
      exact fun _ _ _ => rfl
  | some block => exact IgnoreSet.givesFrom_add fs set _ _ _ _

theorem givesFrom_addIgnoreFile {fs : FileSystem} {root : Path} {lines : Option (List Text)}
    (set : IgnoreSet) (h : GivesFrom fs nesting (Manifest.readIgnoreFile root) (.ok lines)) :
    GivesFrom fs nesting (addIgnoreFile root set) (.ok (set ++
      (Source.of? ".gitignore" ((lines.getD []).map .text) false (some root)).toList)) := by
  refine givesFrom_bind (Manifest.observes_readIgnoreFile root) h ?_
  cases lines with
  | none =>
      have hnone : Source.of? ".gitignore" [] false (some root) = none := rfl
      rw [Option.getD_none, List.map_nil, hnone, Option.toList_none, List.append_nil]
      exact fun _ _ _ => rfl
  | some lines => exact IgnoreSet.givesFrom_add fs set _ _ _ _

/-- Whether a call takes place in an existing directory: it starts there, or from a path that leads
there. -/
structure CallsIn (options : LintOptions) (fs : FileSystem) (place : Place) : Prop where
  leads : ∃ start, (∀ nesting, GivesFrom fs nesting options.startDirectory (.ok start)) ∧
    fs.resolve start = .ok (.absolute place)
  stands : fs.HasDirectory place

theorem callsIn_workingDirectory {options : LintOptions} {fs : FileSystem}
    (h : options.directory.isBlank = true) (hstands : fs.HasDirectory fs.directory) :
    options.CallsIn fs fs.directory := by
  have hworking : fs.workingPath = .ok (.absolute fs.directory) := by
    obtain ⟨entries, hentries⟩ := hstands
    rw [FileSystem.workingPath, hentries]
  refine ⟨⟨.absolute fs.directory, ?_, FileSystem.resolve_absolute hstands⟩, hstands⟩
  rw [startDirectory, if_pos h]
  exact fun _ s hs _ => by rw [gives_workingPath, hs, hworking]

theorem callsIn_absolute {options : LintOptions} {fs : FileSystem} {place : Place} {path : Text}
    (h : options.directory = .text path) (hne : path ≠ [])
    (hpath : Path.ofText path = .absolute place) (hstands : fs.HasDirectory place) :
    options.CallsIn fs place := by
  refine ⟨⟨.absolute place, ?_, FileSystem.resolve_absolute hstands⟩, hstands⟩
  have hblank : ¬(Setting.text path).isBlank = true := by simpa [Setting.isBlank] using hne
  rw [startDirectory, h, if_neg hblank, ← hpath]
  exact fun _ _ _ _ => rfl

/-- The options of a call, from what the caller gives and what the files of the project say. -/
def inProject (options : LintOptions) (command : Text) (config : EngineConfig)
    (patterns : List Pattern) (fs : FileSystem) (nesting : Nat) (directory : Path) :
    ResolvedOptions :=
  let root := directory.ancestors.find? (Manifest.standsIn fs)
  let block := Manifest.nearestBlock fs nesting directory.ancestors command
  let parser := options.parser.orText (block.bind (·.parser))
  { directory
    ignored := Source.builtIn :: (Source.of? "options" patterns true none).toList ++
      root.elim [] fun root => projectSources root block (some (Manifest.linesIn fs root))
    engine := if parser.isBlank then config else { config with parser }
    root
    reportsFiles := options.reportsFiles }

section Project

variable {options : LintOptions} {command : Text} {fs : FileSystem} {place : Place}
  (hplace : fs.HasDirectory place)

include hplace

theorem givesFrom_findRoot :
    GivesFrom fs nesting (Manifest.findRoot (.absolute place))
      (.ok ((Path.absolute place).ancestors.find? (Manifest.standsIn fs))) :=
  givesFrom_bind (observes_resolve _) (givesFrom_resolve (FileSystem.resolve_absolute hplace))
    Manifest.givesFrom_firstRoot?

theorem givesFrom_withProject {root : Path} (hroot : root ∈ (Path.absolute place).ancestors)
    (hlimits : ∀ other, Manifest.Consults fs nesting command (Path.absolute place).ancestors other →
      ¬Manifest.ExceedsIn fs nesting other) (set : IgnoreSet) (parser : Setting) :
    GivesFrom fs nesting (withProject command (.absolute place) root set parser)
      (.ok (set ++ projectSources root (Manifest.nearestBlock fs nesting
          (Path.absolute place).ancestors command) (some (Manifest.linesIn fs root)),
        parser.orText ((Manifest.nearestBlock fs nesting (Path.absolute place).ancestors
          command).bind (·.parser)))) := by
  obtain ⟨lines, hlines, hpatterns⟩ := Manifest.givesFrom_readIgnoreFile
    (FileSystem.checkSpelling_ancestor hplace hroot rfl)
  rw [← Manifest.map_nearestManifest, ← hpatterns, withProject_eq]
  have hfind : GivesFrom fs nesting (Manifest.findBlock command (.absolute place))
      (.ok (Manifest.nearestManifest fs nesting (Path.absolute place).ancestors command)) :=
    givesFrom_bind (observes_resolve _) (givesFrom_resolve (FileSystem.resolve_absolute hplace))
      (Manifest.givesFrom_firstBlock? hlimits)
  refine givesFrom_bind (observes_note _) (fun _ _ _ => rfl) ?_
  refine givesFrom_bind (Manifest.observes_findBlock command _) hfind ?_
  refine givesFrom_bind (observes_addBlock set _) (givesFrom_addBlock fs set _) ?_
  refine givesFrom_bind (observes_addIgnoreFile root _) (givesFrom_addIgnoreFile _ hlines) ?_
  intro s _ _
  simp only [projectSources, ← List.append_assoc, Option.bind_map]
  rfl

theorem givesFrom_withProject_of_exceeds {other : Path}
    (hother : Manifest.Consults fs nesting command (Path.absolute place).ancestors other)
    (hexceeds : Manifest.ExceedsIn fs nesting other) (root : Path) (set : IgnoreSet)
    (parser : Setting) :
    ∃ fault, Manifest.IsLimit fault ∧
      GivesFrom fs nesting (withProject command (.absolute place) root set parser)
        (.error (.unloadable fault)) := by
  obtain ⟨fault, hlimit, hfault⟩ := Manifest.givesFrom_firstBlock?_of_exceeds hother hexceeds
  rw [withProject_eq]
  refine ⟨fault, hlimit, givesFrom_bind (observes_note _) (fun _ _ _ => rfl) ?_⟩
  refine givesFrom_bind_of_error ?_
  exact givesFrom_bind (observes_resolve _) (givesFrom_resolve (FileSystem.resolve_absolute hplace))
    hfault

theorem givesFrom_sourcesFrom
    (hlimits : ∀ other, Manifest.Consults fs nesting command (Path.absolute place).ancestors other →
      ¬Manifest.ExceedsIn fs nesting other) (set : IgnoreSet) :
    GivesFrom fs nesting (options.sourcesFrom command (.absolute place)
        ((Path.absolute place).ancestors.find? (Manifest.standsIn fs)) set)
      (.ok (set ++ ((Path.absolute place).ancestors.find? (Manifest.standsIn fs)).elim []
          fun root => projectSources root (Manifest.nearestBlock fs nesting
            (Path.absolute place).ancestors command) (some (Manifest.linesIn fs root)),
        options.parser.orText ((Manifest.nearestBlock fs nesting (Path.absolute place).ancestors
          command).bind (·.parser)))) := by
  cases hroot : (Path.absolute place).ancestors.find? (Manifest.standsIn fs) with
  | some root =>
      exact givesFrom_withProject hplace (List.mem_of_find?_eq_some hroot) hlimits set _
  | none =>
      -- Without a root there is no manifest, and so no block either.
      have hblock : Manifest.nearestBlock fs nesting (Path.absolute place).ancestors command =
          none := by
        refine List.findSome?_eq_none_iff.2 fun other hmem => ?_
        rw [Manifest.blockIn, if_neg (List.find?_eq_none.1 hroot other hmem)]
      have hparser : options.parser.orText none = options.parser := by cases options.parser <;> rfl
      rw [hblock, Option.bind_none, hparser, Option.elim_none, List.append_nil]
      exact fun _ _ _ => rfl

end Project

section Call

variable {options : LintOptions} {command : Text} {config : EngineConfig}
  {patterns : List Pattern} {fs gs : FileSystem} {place : Place}
  (hcalls : options.CallsIn fs place) (hpatterns : options.ignore.toList = .ok patterns)

include hcalls hpatterns

/-- A call comes to what its root and its sources come to. -/
theorem givesFrom_gather {result : Except Failure (IgnoreSet × Setting)}
    (hsources : GivesFrom fs nesting (options.sourcesFrom command (.absolute place)
        ((Path.absolute place).ancestors.find? (Manifest.standsIn fs))
        (Source.builtIn :: (Source.of? "options" patterns true none).toList)) result) :
    GivesFrom fs nesting (options.gather command) (result.map fun found =>
      ⟨.absolute place, found.1, (Path.absolute place).ancestors.find? (Manifest.standsIn fs),
        found.2⟩) := by
  obtain ⟨⟨start, hstart, hresolve⟩, hstands⟩ := hcalls
  refine givesFrom_bind (observes_startDirectory options) (hstart nesting) ?_
  refine givesFrom_bind (observes_resolve _) (givesFrom_resolve hresolve) ?_
  refine givesFrom_bind (IgnoreSet.observes_add _ _ _ _ _) (IgnoreSet.givesFrom_add _ _ _ _ _ _) ?_
  refine givesFrom_bind (observes_lift _) (x := patterns) (fun s _ _ => by rw [hpatterns]; rfl) ?_
  refine givesFrom_bind (IgnoreSet.observes_add _ _ _ _ _) (IgnoreSet.givesFrom_add _ _ _ _ _ _) ?_
  refine givesFrom_bind (Manifest.observes_findRoot _) (givesFrom_findRoot hstands) ?_
  cases result with
  | ok found =>
      exact givesFrom_bind (observes_sourcesFrom _ _ _ _ _) hsources fun _ _ _ => rfl
  | error failure => exact givesFrom_bind_of_error hsources

/-- A call that comes to no manifest beyond the limits gives its options. -/
theorem givesFrom_options (hconfig : config.configFile = none)
    (hlimits : ∀ other, Manifest.Consults fs nesting command (Path.absolute place).ancestors other →
      ¬Manifest.ExceedsIn fs nesting other) :
    GivesFrom fs nesting (options.resolve command config)
      (.ok (options.inProject command config patterns fs nesting (.absolute place))) := by
  rw [resolve_eq_gather]
  refine givesFrom_bind (observes_gather options command) (givesFrom_gather hcalls hpatterns
    (givesFrom_sourcesFrom hcalls.stands hlimits _)) ?_
  intro s _ _
  rw [inProject, withParser]
  by_cases hblank : (options.parser.orText ((Manifest.nearestBlock fs nesting
      (Path.absolute place).ancestors command).bind (·.parser))).isBlank = true
  · simp only [if_pos hblank]
    rfl
  · simp only [if_neg hblank, ParserFile.choose, hconfig]
    rfl

theorem givesFrom_options_of_exceeds {other : Path}
    (hother : Manifest.Consults fs nesting command (Path.absolute place).ancestors other)
    (hexceeds : Manifest.ExceedsIn fs nesting other) :
    ∃ fault, Manifest.IsLimit fault ∧
      GivesFrom fs nesting (options.resolve command config) (.error (.unloadable fault)) := by
  obtain ⟨root, hroot⟩ : ∃ root, (Path.absolute place).ancestors.find? (Manifest.standsIn fs) =
      some root := by
    obtain ⟨before, after, hsplit, -, hstands⟩ := hother
    exact Option.isSome_iff_exists.1 (List.find?_isSome.2 ⟨other, by simp [hsplit], hstands⟩)
  obtain ⟨fault, hlimit, hfault⟩ := givesFrom_withProject_of_exceeds hcalls.stands hother hexceeds
    root (Source.builtIn :: (Source.of? "options" patterns true none).toList) options.parser
  have hsources : GivesFrom fs nesting (options.sourcesFrom command (.absolute place)
      ((Path.absolute place).ancestors.find? (Manifest.standsIn fs))
      (Source.builtIn :: (Source.of? "options" patterns true none).toList))
      (.error (.unloadable fault)) := by
    rw [hroot]
    exact hfault
  refine ⟨fault, hlimit, ?_⟩
  rw [resolve_eq_gather]
  exact givesFrom_bind_of_error (givesFrom_gather hcalls hpatterns hsources)

end Call

/-- Project files that say the same give the same options. -/
theorem inProject_congr (options : LintOptions) (command : Text) (config : EngineConfig)
    (patterns : List Pattern) {fs gs : FileSystem} {directory : Path}
    (hstands : ∀ other ∈ directory.ancestors,
      Manifest.standsIn gs other = Manifest.standsIn fs other)
    (hfields : ∀ other ∈ directory.ancestors,
      Manifest.fieldsIn gs nesting other = Manifest.fieldsIn fs nesting other)
    (hlines : ∀ root, directory.ancestors.find? (Manifest.standsIn fs) = some root →
      Manifest.linesIn gs root = Manifest.linesIn fs root) :
    options.inProject command config patterns gs nesting directory =
      options.inProject command config patterns fs nesting directory := by
  have hroot : directory.ancestors.find? (Manifest.standsIn gs) =
      directory.ancestors.find? (Manifest.standsIn fs) :=
    List.find?_congr hstands
  have hblock : Manifest.nearestBlock gs nesting directory.ancestors command =
      Manifest.nearestBlock fs nesting directory.ancestors command := by
    rw [Manifest.nearestBlock, Manifest.nearestBlock, ← List.head?_filterMap,
      ← List.head?_filterMap]
    exact congrArg _ (List.filterMap_congr fun other hmem =>
      Manifest.blockIn_congr (hstands other hmem) (hfields other hmem) command)
  simp only [inProject, hroot, hblock]
  cases hfind : directory.ancestors.find? (Manifest.standsIn fs) with
  | none => rfl
  | some root => simp only [Option.elim_some, hlines root hfind]

section Contents

variable {options : LintOptions} {config : EngineConfig} {patterns : List Pattern}
  {fs : FileSystem} {place : Place}

/-- A call in an existing directory gives options exactly if it comes to no manifest beyond the
limits of the reader, as when no manifest has so many brackets or digits; otherwise it fails with
the limit. A manifest that cannot be read as an object counts as one without fields, and an ignore
file that cannot be read as text as a missing one. -/
theorem resolves_within_limits (command : Text) (hcalls : options.CallsIn fs place)
    (hpatterns : options.ignore.toList = .ok patterns) (hconfig : config.configFile = none) :
    ((∃ found, GivesFrom fs nesting (options.resolve command config) (.ok found)) ↔
      ∀ directory, Manifest.Consults fs nesting command (Path.absolute place).ancestors directory →
        ¬Manifest.ExceedsIn fs nesting directory) ∧
    ((∀ directory ∈ (Path.absolute place).ancestors, ∀ text,
        fs.readText (directory.child Manifest.fileName) = .ok text →
          (Json.Limits.nested nesting).Spares text) →
      ∃ found, GivesFrom fs nesting (options.resolve command config) (.ok found)) ∧
    ((∃ found, GivesFrom fs nesting (options.resolve command config) (.ok found)) ∨
      ∃ fault, Manifest.IsLimit fault ∧
        GivesFrom fs nesting (options.resolve command config) (.error (.unloadable fault))) ∧
    ∀ found, GivesFrom fs nesting (options.resolve command config) (.ok found) →
      ∀ gs, options.CallsIn gs place →
        (∀ directory ∈ (Path.absolute place).ancestors,
          Manifest.KeepsManifest fs gs nesting directory) →
        (∀ root, (Path.absolute place).ancestors.find? (Manifest.standsIn fs) = some root →
          Manifest.KeepsIgnoreFile fs gs root) →
        GivesFrom gs nesting (options.resolve command config) (.ok found) := by
  have hgives : (∀ directory, Manifest.Consults fs nesting command (Path.absolute place).ancestors
        directory → ¬Manifest.ExceedsIn fs nesting directory) →
      GivesFrom fs nesting (options.resolve command config)
        (.ok (options.inProject command config patterns fs nesting (.absolute place))) :=
    givesFrom_options hcalls hpatterns hconfig
  have hfails : ∀ {directory},
      Manifest.Consults fs nesting command (Path.absolute place).ancestors directory →
      Manifest.ExceedsIn fs nesting directory → ∃ fault, Manifest.IsLimit fault ∧
        GivesFrom fs nesting (options.resolve command config) (.error (.unloadable fault)) :=
    givesFrom_options_of_exceeds hcalls hpatterns
  have hlimits : (∃ found, GivesFrom fs nesting (options.resolve command config) (.ok found)) →
      ∀ directory, Manifest.Consults fs nesting command (Path.absolute place).ancestors directory →
        ¬Manifest.ExceedsIn fs nesting directory := by
    rintro ⟨found, hfound⟩ directory hconsults hexceeds
    obtain ⟨fault, -, hfault⟩ := hfails hconsults hexceeds
    cases hfound.unique hfault
  refine ⟨⟨hlimits, fun h => ⟨_, hgives h⟩⟩, fun hspares => ⟨_, hgives ?_⟩, ?_, ?_⟩
  · exact fun directory hconsults =>
      Manifest.not_exceedsIn_of_spares (hspares directory hconsults.mem)
  · by_cases h : ∀ directory, Manifest.Consults fs nesting command (Path.absolute place).ancestors
        directory → ¬Manifest.ExceedsIn fs nesting directory
    · exact Or.inl ⟨_, hgives h⟩
    · push Not at h
      obtain ⟨directory, hconsults, hexceeds⟩ := h
      exact Or.inr (hfails hconsults hexceeds)
  · intro found hfound gs hgs hmanifests hlines
    have hwithin := hlimits ⟨found, hfound⟩
    rw [hfound.unique (hgives hwithin),
      ← inProject_congr options command config patterns
        (fun other hmem => (hmanifests other hmem).stands)
        (fun other hmem => (hmanifests other hmem).fieldsIn_eq)
        fun root hroot => (hlines root hroot).linesIn_eq]
    refine givesFrom_options hgs hpatterns hconfig fun directory hconsults hexceeds => ?_
    exact hwithin directory (hconsults.of_keeps hmanifests)
      ((hmanifests directory hconsults.mem).exceedsIn hexceeds)

end Contents

/-- A project whose manifest is no JSON and whose ignore file is no text. -/
def brokenProject : FileSystem :=
  ⟨[(".gitignore", .file [0xFF]), ("package.json", .file (Utf8.encode "["))], [], rfl⟩

/-- A project whose manifest has no fields, without an ignore file. -/
def emptyProject : FileSystem :=
  ⟨[("package.json", .file (Utf8.encode "\x7b\x7d"))], [], rfl⟩

/-- A caller that names the root directory. -/
def fromRoot : LintOptions where
  directory := .text "/"

theorem broken_resolves_as_empty : ∃ found,
    GivesFrom brokenProject 990 (fromRoot.resolve "lint" {}) (.ok found) ∧
      GivesFrom emptyProject 990 (fromRoot.resolve "lint" {}) (.ok found) := by
  have hcalls : fromRoot.CallsIn brokenProject [] :=
    callsIn_absolute rfl (by decide) rfl ⟨_, rfl⟩
  have hempty : fromRoot.CallsIn emptyProject [] :=
    callsIn_absolute rfl (by decide) rfl ⟨_, rfl⟩
  have hpatterns : fromRoot.ignore.toList = .ok [] := rfl
  have htext : brokenProject.readText ((Path.absolute []).child Manifest.fileName) =
      .ok [.scalar '['] := by rfl
  obtain ⟨-, hspares, -, hkeeps⟩ :=
    @resolves_within_limits 990 fromRoot {} [] brokenProject [] "lint" hcalls hpatterns rfl
  obtain ⟨found, hfound⟩ := hspares (by
    intro directory hmem text hread
    cases List.mem_singleton.1 hmem
    cases htext.symm.trans hread
    exact ⟨by decide, fun run _ hrun => hrun.length_le.trans (by decide)⟩)
  refine ⟨found, hfound, hkeeps found hfound emptyProject hempty ?_ ?_⟩
  · intro directory hmem
    cases List.mem_singleton.1 hmem
    refine ⟨rfl, Or.inr ⟨fun text fields hread hobject => ?_,
      ⟨"\x7b\x7d", rfl, rfl⟩⟩⟩
    cases htext.symm.trans hread
    cases hobject
  · intro root hroot
    cases List.mem_singleton.1 (List.mem_of_find?_eq_some hroot)
    exact Or.inr ⟨⟨_, rfl⟩, rfl⟩

/-- A whole number with one digit more than the reader takes. -/
def longNumber : Text :=
  List.replicate 4301 (.scalar '1')

/-- A project whose manifest is such a number. -/
def longProject : FileSystem :=
  ⟨[("package.json", .file (Utf8.encode longNumber))], [], rfl⟩

/-- What a manifest says can make a call fail. -/
theorem long_number_ends_call : ∃ fault, Manifest.IsLimit fault ∧
    GivesFrom longProject 990 (({} : LintOptions).resolve "lint" {})
      (.error (.unloadable fault)) := by
  have hdigits : IsDigits longNumber := fun c hc => by
    rw [List.eq_of_mem_replicate hc]
    rfl
  have htext : longProject.readText ((Path.absolute []).child Manifest.fileName) =
      .ok longNumber :=
    FileSystem.readText_of_isPrintable (Json.isPrintable_of_isDigits hdigits) rfl
  have hread : Json.read (.nested 990) longNumber = .error .tooManyDigits := by
    refine Json.read_of_digits hdigits (by decide) ?_
    rw [longNumber, List.length_replicate]
    decide
  have hconsults : Manifest.Consults longProject 990 "lint" (Path.absolute []).ancestors
      (.absolute []) := ⟨[], [], rfl, by simp, rfl⟩
  exact givesFrom_options_of_exceeds (callsIn_workingDirectory rfl ⟨_, rfl⟩)
    (rfl : ({} : LintOptions).ignore.toList = .ok []) hconsults
    ⟨longNumber, .tooManyDigits, htext, hread, Or.inl rfl⟩

end LintOptions
end ProjectLint
