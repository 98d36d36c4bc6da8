import ProjectLint.Options.Resolve
import ProjectLint.Proofs.Action
import ProjectLint.Proofs.Path.Plain

/-!
What the options of a call are put together from before the engine is configured. All of this only
observes the file system. Main statements: the built-in patterns are the first source of every call,
and the parser is the caller's, or else the one of the nearest block for the command.
-/

namespace ProjectLint

open ProjectLint.Action

namespace Manifest

theorem observes_exists? (path : Path) : Observes (exists? path) := by
  refine observes_get (fun s t h => by rw [h.files]) fun s => ?_
  split
  · exact observes_pure _
  · exact observes_bind (observes_note _) fun _ => observes_pure false

theorem observes_firstRoot? (directories : List Path) : Observes (firstRoot? directories) := by
  induction directories with
  | nil => exact observes_pure none
  | cons directory rest ih =>
      refine observes_bind (observes_exists? _) fun found => ?_
      cases found with
      | true => exact observes_pure _
      | false => exact ih

theorem observes_findRoot (start : Path) : Observes (findRoot start) :=
  observes_bind (observes_resolve start) fun _ => observes_firstRoot? _

theorem observes_read (path : Path) : Observes (read path) := by
  refine observes_get (fun s t h => by rw [h.document]) fun s => ?_
  split
  · exact observes_bind (observes_note _) fun _ => observes_pure none
  · exact observes_throw _
  · exact observes_bind (observes_note _) fun _ => observes_pure none
  · exact observes_bind (observes_note _) fun _ => observes_pure none
  · exact observes_throw _
  · exact observes_pure _
  · exact observes_pure none

theorem observes_firstBlock? (command : Text) (directories : List Path) :
    Observes (firstBlock? command directories) := by
  induction directories with
  | nil => exact observes_pure none
  | cons directory rest ih =>
      refine observes_bind (observes_exists? _) fun found => ?_
      cases found with
      | false => exact ih
      | true =>
          refine observes_bind (observes_read _) fun fields => ?_
          split
          · exact observes_bind (observes_note _) fun _ => observes_pure _
          · exact ih

theorem observes_findBlock (command : Text) (start : Path) : Observes (findBlock command start) :=
  observes_bind (observes_resolve start) fun _ => observes_firstBlock? command _

/-- Where no directory holds a manifest, none holds one with a block. -/
theorem firstBlock?_of_firstRoot? (command : Text) {directories : List Path} {s t : Session}
    (h : firstRoot? directories s = .ok none t) :
    firstBlock? command directories s = .ok none t := by
  induction directories generalizing s with
  | nil => exact pure_eq_ok.2 ⟨rfl, (pure_eq_ok.1 h).2⟩
  | cons directory rest ih =>
      obtain ⟨found, u, hfound, hrest⟩ := bind_eq_ok.1 h
      cases found with
      | true =>
          obtain ⟨hsome, -⟩ := pure_eq_ok.1 hrest
          cases hsome
      | false => exact bind_eq_ok.2 ⟨false, u, hfound, ih hrest⟩

theorem findBlock_of_findRoot (command : Text) {start : Path} {s t : Session}
    (h : findRoot start s = .ok none t) : findBlock command start s = .ok none t := by
  obtain ⟨directory, u, hdirectory, hroot⟩ := bind_eq_ok.1 h
  exact bind_eq_ok.2 ⟨directory, u, hdirectory, firstBlock?_of_firstRoot? command hroot⟩

theorem observes_readIgnoreFile (directory : Path) : Observes (readIgnoreFile directory) := by
  refine observes_get (fun s t h => by rw [h.files]) fun s => ?_
  split
  · exact observes_bind (observes_note _) fun _ => observes_pure none
  · exact observes_throw _
  · exact observes_bind (observes_note _) fun _ => observes_pure none
  · exact observes_pure _

end Manifest

theorem IgnoreSet.observes_add (set : IgnoreSet) (name : Text) (patterns : List Pattern)
    (whileGlobbing : Bool) (base : Option Path) :
    Observes (set.add name patterns whileGlobbing base) := by
  rw [IgnoreSet.add]
  cases Source.of? name patterns whileGlobbing base with
  | none => exact observes_pure set
  | some source => exact observes_bind (observes_note _) fun _ => observes_pure _

theorem IgnoreSet.eq_of_add {set others : IgnoreSet} {name : Text} {patterns : List Pattern}
    {whileGlobbing : Bool} {base : Option Path} {s t : Session}
    (h : set.add name patterns whileGlobbing base s = .ok others t) :
    others = set ++ (Source.of? name patterns whileGlobbing base).toList := by
  rw [IgnoreSet.add] at h
  cases hsource : Source.of? name patterns whileGlobbing base with
  | none =>
      rw [hsource] at h
      simpa using (pure_eq_ok.1 h).1.symm
  | some source =>
      rw [hsource] at h
      obtain ⟨_, u, -, hrest⟩ := bind_eq_ok.1 h
      exact (pure_eq_ok.1 hrest).1.symm

/-- The source of the patterns that are always ignored. -/
def Source.builtIn : Source :=
  ⟨"defaults", Discovery.defaultIgnored.map .text, true, none⟩

theorem Source.of?_builtIn :
    Source.of? "defaults" (Discovery.defaultIgnored.map .text) true none = some Source.builtIn :=
  rfl

namespace LintOptions

/-- What is known of a call before its engine is configured. -/
structure Gathered where
  directory : Path
  ignored : IgnoreSet
  root : Option Path
  parser : Setting

/-- The sources and the parser of a call in a directory. -/
def sourcesFrom (options : LintOptions) (command : Text) (directory : Path) :
    Option Path → IgnoreSet → Action (IgnoreSet × Setting)
  | none, set => pure (set, options.parser)
  | some root, set => withProject command directory root set options.parser

/-- All of a call's options but the configuration of the engine. -/
def gather (options : LintOptions) (command : Text) : Action Gathered := do
  let directory ← Action.resolve (← options.startDirectory)
  let set ← IgnoreSet.add [] "defaults" (Discovery.defaultIgnored.map .text) true none
  let set ← set.add "options" (← Action.lift options.ignore.toList) true none
  let root ← Manifest.findRoot directory
  let found ← options.sourcesFrom command directory root set
  return ⟨directory, found.1, root, found.2⟩

theorem resolve_eq_gather (options : LintOptions) (command : Text) (config : EngineConfig) :
    options.resolve command config = (do
      let found ← options.gather command
      let engine ← withParser config found.parser
      return ⟨found.directory, found.ignored, engine, found.root, options.reportsFiles⟩) := by
  simp only [resolve, gather, bind_assoc, pure_bind]
  refine bind_congr fun start => bind_congr fun directory => bind_congr fun defaults =>
    bind_congr fun patterns => bind_congr fun set => bind_congr fun root => ?_
  cases root <;> rfl

theorem observes_startDirectory (options : LintOptions) : Observes options.startDirectory := by
  rw [startDirectory]
  split
  · exact observes_workingPath
  · split
    · exact observes_pure _
    · exact observes_throw _
    · exact observes_throw _

/-- The sources with that of a block, if there is one. -/
def addBlock (set : IgnoreSet) : Option Manifest.Block → Action IgnoreSet
  | none => pure set
  | some block => set.add "package.json" ((block.ignore.getD []).map .text) true none

/-- The sources with that of the ignore file of a project. -/
def addIgnoreFile (root : Path) (set : IgnoreSet) : Action IgnoreSet := do
  match ← Manifest.readIgnoreFile root with
  | none => return set
  | some lines => set.add ".gitignore" (lines.map .text) false (some root)

theorem readIgnoreFile_bind (root : Path) (set : IgnoreSet) (parser : Setting)
    {rest : Option (List Text) → Action (IgnoreSet × Setting)}
    (hnone : rest none = pure (set, parser))
    (hsome : ∀ lines, rest (some lines) = (do
      return (← set.add ".gitignore" (lines.map .text) false (some root), parser))) :
    (Manifest.readIgnoreFile root >>= rest) =
      (do return (← addIgnoreFile root set, parser)) := by
  rw [addIgnoreFile, bind_assoc]
  refine bind_congr fun lines => ?_
  cases lines with
  | none =>
      rw [hnone]
      exact (pure_bind set fun set => (pure (set, parser) : Action _)).symm
  | some lines => exact hsome lines

/-- A project gives its block's source and parser, and then the source of its ignore file. -/
theorem withProject_eq (command : Text) (directory root : Path) (set : IgnoreSet)
    (parser : Setting) : withProject command directory root set parser = (do
      Action.note (.projectRoot root)
      let found ← Manifest.findBlock command directory
      let set ← addBlock set (found.map (·.2))
      return (← addIgnoreFile root set, parser.orText (found.bind (·.2.parser)))) := by
  refine bind_congr fun _ => bind_congr fun found => ?_
  cases found with
  | none =>
      have hparser : parser.orText none = parser := by cases parser <;> rfl
      rw [Option.map_none, Option.bind_none, hparser, addBlock, pure_bind]
      refine (pure_bind (m := Action) (set, parser) _).trans ?_
      exact readIgnoreFile_bind root set parser rfl fun _ => rfl
  | some found =>
      refine bind_congr fun set => ?_
      refine (pure_bind (m := Action) (set, parser.orText found.2.parser) _).trans ?_
      exact readIgnoreFile_bind root set _ rfl fun _ => rfl

theorem observes_addBlock (set : IgnoreSet) (block : Option Manifest.Block) :
    Observes (addBlock set block) := by
  cases block with
  | none => exact observes_pure _
  | some block => exact set.observes_add _ _ _ _

theorem observes_addIgnoreFile (root : Path) (set : IgnoreSet) :
    Observes (addIgnoreFile root set) := by
  refine observes_bind (Manifest.observes_readIgnoreFile root) fun lines => ?_
  cases lines with
  | none => exact observes_pure _
  | some lines => exact set.observes_add _ _ _ _

theorem observes_withProject (command : Text) (directory root : Path) (set : IgnoreSet)
    (parser : Setting) : Observes (withProject command directory root set parser) := by
  rw [withProject_eq]
  refine observes_bind (observes_note _) fun _ => ?_
  refine observes_bind (Manifest.observes_findBlock command directory) fun found => ?_
  refine observes_bind (observes_addBlock set _) fun set => ?_
  exact observes_bind (observes_addIgnoreFile root set) fun _ => observes_pure _

theorem observes_sourcesFrom (options : LintOptions) (command : Text) (directory : Path)
    (root : Option Path) (set : IgnoreSet) :
    Observes (options.sourcesFrom command directory root set) := by
  cases root with
  | none => exact observes_pure _
  | some root => exact observes_withProject command directory root set _

theorem observes_gather (options : LintOptions) (command : Text) :
    Observes (options.gather command) := by
  refine observes_bind (observes_startDirectory options) fun start => ?_
  refine observes_bind (observes_resolve start) fun directory => ?_
  refine observes_bind (IgnoreSet.observes_add _ _ _ _ _) fun defaults => ?_
  refine observes_bind (observes_lift _) fun patterns => ?_
  refine observes_bind (defaults.observes_add _ _ _ _) fun set => ?_
  refine observes_bind (Manifest.observes_findRoot directory) fun root => ?_
  exact observes_bind (observes_sourcesFrom options command directory root set) fun found =>
    observes_pure _

theorem plain_startDirectory {options : LintOptions} {s t : Session} {start : Path}
    (h : options.startDirectory s = .ok start t) : start.Plain := by
  rw [startDirectory] at h
  by_cases hblank : options.directory.isBlank = true
  · rw [if_pos hblank] at h
    exact (FileSystem.plain_workingPath (workingPath_eq_ok.1 h).1).1
  · rw [if_neg hblank] at h
    cases hdirectory : options.directory with
    | text directory =>
        simp only [hdirectory] at h
        rw [← (pure_eq_ok.1 h).1]
        exact Path.plain_ofText directory
    | unset | other _ =>
        simp only [hdirectory] at h
        cases h

/-- What is gathered, step by step, all of it seen from the session at the start. -/
theorem gather_eq_sources {options : LintOptions} {command : Text} {s t : Session}
    {found : Gathered} (h : options.gather command s = .ok found t) :
    ∃ start patterns u v w, options.startDirectory s = .ok start u ∧
      s.files.resolve start = .ok found.directory ∧ options.ignore.toList = .ok patterns ∧
      Manifest.findRoot found.directory s = .ok found.root v ∧
      options.sourcesFrom command found.directory found.root
        (Source.builtIn :: (Source.of? "options" patterns true none).toList) s =
          .ok (found.ignored, found.parser) w := by
  obtain ⟨start, u₁, hstart, h⟩ := bind_eq_ok.1 h
  obtain ⟨directory, u₂, hdirectory, h⟩ := bind_eq_ok.1 h
  obtain ⟨defaults, u₃, hdefaults, h⟩ := bind_eq_ok.1 h
  obtain ⟨patterns, u₄, hpatterns, h⟩ := bind_eq_ok.1 h
  obtain ⟨set, u₅, hset, h⟩ := bind_eq_ok.1 h
  obtain ⟨root, u₆, hroot, h⟩ := bind_eq_ok.1 h
  obtain ⟨sources, u₇, hsources, h⟩ := bind_eq_ok.1 h
  obtain ⟨rfl, -⟩ := pure_eq_ok.1 h
  obtain ⟨hlist, rfl⟩ := lift_eq_ok.1 hpatterns
  obtain ⟨hcanonical, rfl⟩ := resolve_eq_ok.1 hdirectory
  have hfiles₁ : u₁.SameFiles s := (observes_startDirectory options).sameFiles hstart ⟨rfl, rfl⟩
  have hfiles₅ : u₅.SameFiles s := (IgnoreSet.observes_add _ _ _ _ _).sameFiles hset
    ((IgnoreSet.observes_add _ _ _ _ _).sameFiles hdefaults hfiles₁)
  have hfiles₆ : u₆.SameFiles s := (Manifest.observes_findRoot directory).sameFiles hroot hfiles₅
  have hset : set = Source.builtIn :: (Source.of? "options" patterns true none).toList := by
    rw [IgnoreSet.eq_of_add hset, IgnoreSet.eq_of_add hdefaults, Source.of?_builtIn]
    rfl
  obtain ⟨v, hroot⟩ := (Manifest.observes_findRoot directory).eq_ok_of_files hroot hfiles₅
  obtain ⟨w, hsources⟩ := (observes_sourcesFrom options command directory root set).eq_ok_of_files
    hsources hfiles₆
  exact ⟨start, patterns, u₁, v, w, hstart, hfiles₁.files ▸ hcanonical, hlist, hroot,
    hset ▸ hsources⟩

/-- A call takes place in a directory whose path is plain and absolute. -/
theorem plain_directory_of_gather {options : LintOptions} {command : Text} {s t : Session}
    {found : Gathered} (h : options.gather command s = .ok found t) :
    found.directory.Plain ∧ found.directory.isAbsolute = true := by
  obtain ⟨start, _, _, _, _, hstart, hdirectory, -⟩ := gather_eq_sources h
  exact FileSystem.plain_resolve (plain_startDirectory hstart) hdirectory

/-- The sources that the block of a manifest and an ignore file give. -/
def projectSources (root : Path) (block : Option Manifest.Block) (lines : Option (List Text)) :
    List Source :=
  (block.bind fun block =>
    Source.of? "package.json" ((block.ignore.getD []).map .text) true none).toList ++
  (lines.bind fun lines => Source.of? ".gitignore" (lines.map .text) false (some root)).toList

theorem eq_of_addBlock {set others : IgnoreSet} {block : Option Manifest.Block} {s t : Session}
    (h : addBlock set block s = .ok others t) :
    others = set ++ (block.bind fun block =>
      Source.of? "package.json" ((block.ignore.getD []).map .text) true none).toList := by
  cases block with
  | none =>
      rw [Option.bind_none, Option.toList_none, List.append_nil]
      exact (pure_eq_ok.1 h).1.symm
  | some block => exact IgnoreSet.eq_of_add h

theorem addIgnoreFile_eq_ok {root : Path} {set others : IgnoreSet} {s t : Session}
    (h : addIgnoreFile root set s = .ok others t) :
    ∃ lines u, Manifest.readIgnoreFile root s = .ok lines u ∧
      others = set ++ (lines.bind fun lines =>
        Source.of? ".gitignore" (lines.map .text) false (some root)).toList := by
  obtain ⟨lines, u, hlines, h⟩ := bind_eq_ok.1 h
  refine ⟨lines, u, hlines, ?_⟩
  cases lines with
  | none =>
      rw [Option.bind_none, Option.toList_none, List.append_nil]
      exact (pure_eq_ok.1 h).1.symm
  | some lines => exact IgnoreSet.eq_of_add h

theorem withProject_eq_ok {command : Text} {directory root : Path} {set : IgnoreSet}
    {parser : Setting} {s t : Session} {found : IgnoreSet × Setting}
    (h : withProject command directory root set parser s = .ok found t) :
    ∃ block lines u v, Manifest.findBlock command directory s = .ok block u ∧
      Manifest.readIgnoreFile root s = .ok lines v ∧
      found = (set ++ projectSources root (block.map (·.2)) lines,
        parser.orText (block.bind (·.2.parser))) := by
  rw [withProject_eq] at h
  obtain ⟨_, u, hnote, h⟩ := bind_eq_ok.1 h
  obtain ⟨block, v, hblock, h⟩ := bind_eq_ok.1 h
  obtain ⟨own, w, hown, h⟩ := bind_eq_ok.1 h
  obtain ⟨others, x, hothers, h⟩ := bind_eq_ok.1 h
  obtain ⟨rfl, -⟩ := pure_eq_ok.1 h
  obtain ⟨lines, y, hlines, rfl⟩ := addIgnoreFile_eq_ok hothers
  have hu : u.SameFiles s := (observes_note _).sameFiles hnote ⟨rfl, rfl⟩
  have hw : w.SameFiles s := (observes_addBlock set _).sameFiles hown
    ((Manifest.observes_findBlock command directory).sameFiles hblock hu)
  obtain ⟨u, hblock⟩ := (Manifest.observes_findBlock command directory).eq_ok_of_files hblock hu
  obtain ⟨v, hlines⟩ := (Manifest.observes_readIgnoreFile root).eq_ok_of_files hlines hw
  refine ⟨block, lines, u, v, hblock, hlines, ?_⟩
  rw [eq_of_addBlock hown, projectSources, List.append_assoc]

/-- What is gathered comes from the caller, and inside a project from its block and ignore file. -/
theorem gather_eq_ok {options : LintOptions} {command : Text} {s t : Session} {found : Gathered}
    (h : options.gather command s = .ok found t) :
    ∃ patterns block others u, options.ignore.toList = .ok patterns ∧
      Manifest.findBlock command found.directory s = .ok block u ∧
      found.ignored = Source.builtIn :: (Source.of? "options" patterns true none).toList ++ others ∧
      found.parser = options.parser.orText (block.bind (·.2.parser)) := by
  obtain ⟨_, patterns, _, v, _, -, -, hlist, hroot, hsources⟩ := gather_eq_sources h
  cases hcase : found.root with
  | none =>
      rw [hcase] at hroot hsources
      obtain ⟨hfound, -⟩ := pure_eq_ok.1 hsources
      obtain ⟨hignored, hparser⟩ := Prod.mk.inj hfound
      refine ⟨patterns, none, [], v, hlist, Manifest.findBlock_of_findRoot command hroot, ?_, ?_⟩
      · rw [List.append_nil, hignored]
      · rw [← hparser]
        cases options.parser <;> rfl
  | some root =>
      rw [hcase] at hsources
      obtain ⟨block, lines, u, _, hblock, -, hfound⟩ := withProject_eq_ok hsources
      obtain ⟨hignored, hparser⟩ := Prod.mk.inj hfound
      exact ⟨patterns, block, _, u, hlist, hblock, hignored, hparser⟩

end LintOptions
end ProjectLint
