import ProjectLint.Proofs.Discovery.Found
import ProjectLint.Proofs.Engine.Run
import ProjectLint.Proofs.Options.ParserFile

/-!
What can be observed of a call that lints files. Its options are put together and its files are
found before anything is shown. Main statement: a call that fails by then shows nothing and fails
for the reason met; any other call shows its files, if it is asked to, and then starts the engine
once on exactly these files in their order, or not at all if there are none.
-/

namespace ProjectLint

open ProjectLint.Action

theorem Setting.isUnusable_orText {setting : Setting} (h : setting.isUnusable = false)
    (other : Option Text) : (setting.orText other).isUnusable = false := by
  cases setting with
  | unset => cases other <;> rfl
  | text _ | other _ => exact h

namespace LintOptions

/-- A parser that is a text where the caller and the configuration give one is a text for the
engine. -/
theorem isUnusable_of_resolve {options : LintOptions} {command : Text} {config : EngineConfig}
    {s t : Session} {resolved : ResolvedOptions} (hcaller : options.parser.isUnusable = false)
    (hconfig : config.parser.isUnusable = false)
    (h : options.resolve command config s = .ok resolved t) :
    resolved.engine.parser.isUnusable = false := by
  obtain ⟨found, u, hfound, -, -, hengine⟩ := resolve_eq_ok h
  obtain ⟨-, block, -, -, -, -, -, hparser⟩ := gather_eq_ok hfound
  have hfound : found.parser.isUnusable = false := hparser ▸ Setting.isUnusable_orText hcaller _
  rw [withParser] at hengine
  split at hengine
  · rw [← (pure_eq_ok.1 hengine).1]
    exact hconfig
  · rw [ParserFile.choose] at hengine
    cases hfile : config.configFile with
    | none =>
        rw [hfile] at hengine
        rw [← (pure_eq_ok.1 hengine).1]
        exact hfound
    | some path =>
        rw [hfile] at hengine
        obtain ⟨copy, v, -, hengine⟩ := bind_eq_ok.1 hengine
        rw [← (pure_eq_ok.1 hengine).1]
        exact hconfig

theorem reportsFiles_of_resolve {options : LintOptions} {command : Text} {config : EngineConfig}
    {s t : Session} {resolved : ResolvedOptions}
    (h : options.resolve command config s = .ok resolved t) :
    resolved.reportsFiles = options.reportsFiles := by
  rw [resolve_eq_gather] at h
  obtain ⟨found, u, -, h⟩ := bind_eq_ok.1 h
  obtain ⟨engine, v, -, h⟩ := bind_eq_ok.1 h
  rw [← (pure_eq_ok.1 h).1]

end LintOptions

namespace Linter

/-- Puts the options of a call together and finds its files. -/
def select (linter : Linter) (patterns : Patterns) (options : LintOptions) :
    Action (ResolvedOptions × List Path) := do
  let resolved ← linter.resolve options
  return (resolved, ← findFiles patterns resolved)

/-- What a call does with the files that it has found. -/
def handOn (linter : Linter) (found : ResolvedOptions × List Path) : Action Report := do
  Action.note (.linting found.2.length found.1.directory)
  if found.1.reportsFiles then Action.event (.filesFound found.2)
  linter.executeOnFiles found.1.engine found.2

theorem lintFiles_eq_select (linter : Linter) (patterns : Patterns) (options : LintOptions) :
    linter.lintFiles patterns options = linter.select patterns options >>= linter.handOn := by
  simp only [lintFiles, lintFound, select, findFiles, bind_assoc, pure_bind]
  rfl

theorem silent_select (linter : Linter) (patterns : Patterns) (options : LintOptions) :
    Silent (linter.select patterns options) := by
  refine shows_bind (LintOptions.silent_resolve options _ _) fun resolved => ?_
  refine shows_bind ?_ fun files => (observes_pure (resolved, files)).shows _
  exact shows_bind ((observes_lift _).shows _) fun listed => silent_findListed listed resolved

theorem select_eq_ok {linter : Linter} {patterns : Patterns} {options : LintOptions}
    {s t : Session} {resolved : ResolvedOptions} {paths : List Path} :
    linter.select patterns options s = .ok (resolved, paths) t ↔
      ∃ u, linter.resolve options s = .ok resolved u ∧
        findFiles patterns resolved u = .ok paths t := by
  constructor
  · intro h
    obtain ⟨found, u, hfound, h⟩ := bind_eq_ok.1 h
    obtain ⟨files, v, hfiles, h⟩ := bind_eq_ok.1 h
    obtain ⟨heq, rfl⟩ := pure_eq_ok.1 h
    cases heq
    exact ⟨u, hfound, hfiles⟩
  · rintro ⟨u, hresolved, hfiles⟩
    exact bind_eq_ok.2 ⟨resolved, u, hresolved, bind_eq_ok.2 ⟨paths, t, hfiles, pure_eq_ok.2
      ⟨rfl, rfl⟩⟩⟩

/-- A call that has no files for the engine failed in putting its options together or in finding
its files. -/
theorem gives_select_eq_error {linter : Linter} {patterns : Patterns} {options : LintOptions}
    {s : Session} {failure : Failure}
    (h : (linter.select patterns options).gives s = .error failure) :
    (linter.resolve options).gives s = .error failure ∨
      ∃ resolved u, linter.resolve options s = .ok resolved u ∧
        (findFiles patterns resolved).gives u = .error failure := by
  rcases gives_bind_eq_error.1 h with h | ⟨resolved, u, hresolved, h⟩
  · exact Or.inl h
  · rcases gives_bind_eq_error.1 h with h | ⟨paths, v, -, h⟩
    · exact Or.inr ⟨resolved, u, hresolved, h⟩
    · cases h

/-- What a call shows of its files before they are linted. -/
def reported (reportsFiles : Bool) (paths : List Path) : List Event :=
  if reportsFiles then [.filesFound paths] else []

theorem handOn_apply (linter : Linter) (resolved : ResolvedOptions) (paths : List Path)
    (s : Session) : linter.handOn (resolved, paths) s =
      linter.executeOnFiles resolved.engine paths
        { s with
          notes := s.notes ++ [.linting paths.length resolved.directory]
          events := s.events ++ reported resolved.reportsFiles paths } := by
  have hnote : Action.note (.linting paths.length resolved.directory) s =
      .ok () { s with notes := s.notes ++ [.linting paths.length resolved.directory] } := rfl
  rw [handOn, bind_apply, hnote]
  cases hreports : resolved.reportsFiles with
  | true => rfl
  | false =>
      have hnone : s.events ++ reported false paths = s.events := List.append_nil _
      rw [hnone]
      rfl

section Engine

variable {linter : Linter} {options : LintOptions} {patterns : Patterns} {config : EngineConfig}
  {s t : Session} {resolved : ResolvedOptions} {paths : List Path}
  (hengine : linter.engine = .eslint)

/-- A call that has no files for the engine fails as it did until then. -/
theorem lintFiles_of_error {failure : Failure}
    (h : linter.select patterns options s = .error failure t) :
    linter.lintFiles patterns options s = .error failure t ∧ t.events = s.events := by
  have hevents := (linter.silent_select patterns options).leaves_events s
  rw [leaves, h] at hevents
  rw [lintFiles_eq_select, bind_apply, h]
  exact ⟨rfl, hevents⟩

include hengine

theorem executeOnFiles_nil (s : Session) :
    linter.executeOnFiles config [] s = .ok .empty s := by
  rw [executeOnFiles, hengine]
  rfl

theorem executeOnFiles_of_ne_nil (h : paths ≠ []) :
    linter.executeOnFiles config paths =
      Engine.run config (config.baseCommand ++ paths.map (·.toText)) none := by
  rw [executeOnFiles, hengine]
  exact if_neg (by simpa using h)

/-- A call without files for the engine ends with the empty report. -/
theorem lintFiles_of_nil (h : linter.select patterns options s = .ok (resolved, []) t) :
    (linter.lintFiles patterns options).gives s = .ok .empty ∧
      ((linter.lintFiles patterns options).leaves s).events =
        s.events ++ reported options.reportsFiles [] := by
  obtain ⟨u, hresolved, -⟩ := select_eq_ok.1 h
  rw [← (linter.silent_select patterns options).events_eq h,
    ← LintOptions.reportsFiles_of_resolve hresolved, gives, leaves, lintFiles_eq_select,
    bind_apply, h]
  simp only [handOn_apply, executeOnFiles_nil hengine, and_self]

/-- A call with files for the engine ends with what the engine is reported to give. -/
theorem lintFiles_of_ne_nil (h : linter.select patterns options s = .ok (resolved, paths) t)
    (hparser : resolved.engine.parser.isUnusable = false) (hpaths : paths ≠ []) :
    (linter.lintFiles patterns options).gives s =
        Engine.report t.host.nesting resolved.engine.executable (t.outcomes.headD .quiet) ∧
      ((linter.lintFiles patterns options).leaves s).events =
        s.events ++ reported options.reportsFiles paths ++
          [.engineStarted (resolved.engine.baseCommand ++ paths.map (·.toText)) none] := by
  obtain ⟨u, hresolved, -⟩ := select_eq_ok.1 h
  rw [← (linter.silent_select patterns options).events_eq h,
    ← LintOptions.reportsFiles_of_resolve hresolved, gives, leaves, lintFiles_eq_select,
    bind_apply, h]
  simp only [handOn_apply, executeOnFiles_of_ne_nil hengine hpaths, Engine.run_eq hparser]
  cases Engine.report t.host.nesting resolved.engine.executable (t.outcomes.headD .quiet) with
  | ok report => exact ⟨rfl, rfl⟩
  | error failure => exact ⟨rfl, rfl⟩

end Engine

/-- What is shown of the files that a call hands to an engine. -/
def HandsOn (config : EngineConfig) (paths : List Path) : Event → Prop
  | .filesFound found => found = paths
  | .engineStarted command input =>
      command = config.baseCommand ++ paths.map (·.toText) ∧ input = none
  | .returned | .callback _ _ | .taskDone | .nextTick => False

theorem shows_executeOnFiles (linter : Linter) (config : EngineConfig) (paths : List Path) :
    Shows (linter.executeOnFiles config paths) (HandsOn config paths) := by
  rw [executeOnFiles]
  cases linter.engine with
  | other onText onFiles => exact (observes_lift _).shows _
  | eslint =>
      dsimp only
      rw [Engine.runOnFiles]
      split
      · exact (observes_pure _).shows _
      · exact Engine.shows_run ⟨rfl, rfl⟩

theorem shows_handOn (linter : Linter) (found : ResolvedOptions × List Path) :
    Shows (linter.handOn found) (HandsOn found.1.engine found.2) := by
  refine shows_bind ((observes_note _).shows _) fun _ => ?_
  split
  · exact shows_bind (shows_event rfl) fun _ => shows_executeOnFiles linter _ _
  · exact shows_executeOnFiles linter _ _

/-- All that a call shows is that it hands on the files that it selects. -/
theorem shows_lintFiles (linter : Linter) (patterns : Patterns) (options : LintOptions)
    (s : Session) :
    ∃ new, ((linter.lintFiles patterns options).leaves s).events = s.events ++ new ∧
      (new = [] ∨ ∃ resolved paths t, linter.select patterns options s = .ok (resolved, paths) t ∧
        ∀ event ∈ new, HandsOn resolved.engine paths event) := by
  cases hselect : linter.select patterns options s with
  | error failure t =>
      obtain ⟨hlint, hevents⟩ := lintFiles_of_error hselect
      refine ⟨[], ?_, Or.inl rfl⟩
      rw [leaves, hlint, List.append_nil]
      exact hevents
  | ok found t =>
      obtain ⟨new, hnew, hshown⟩ := linter.shows_handOn found t
      refine ⟨new, ?_, Or.inr ⟨found.1, found.2, t, rfl, hshown⟩⟩
      rw [lintFiles_eq_select, leaves_bind, hselect, hnew,
        (linter.silent_select patterns options).events_eq hselect]

/-- A call shows nothing and fails for the reason met until its files are found. After that it shows
them, if it is asked to, and starts the engine once on all of them in their order; without files it
gives the empty report and starts nothing. -/
theorem lintFiles_effects {linter : Linter} {options : LintOptions}
    (hengine : linter.engine = .eslint) (hcaller : options.parser.isUnusable = false)
    (hconfig : linter.config.parser.isUnusable = false) (patterns : Patterns) (s : Session) :
    (∃ failure, ((linter.resolve options).gives s = .error failure ∨
        ∃ resolved u, linter.resolve options s = .ok resolved u ∧
          (findFiles patterns resolved).gives u = .error failure) ∧
      (linter.lintFiles patterns options).gives s = .error failure ∧
      ((linter.lintFiles patterns options).leaves s).events = s.events) ∨
    ∃ resolved paths u t, linter.resolve options s = .ok resolved u ∧
      findFiles patterns resolved u = .ok paths t ∧
      ((paths = [] ∧ (linter.lintFiles patterns options).gives s = .ok .empty ∧
          ((linter.lintFiles patterns options).leaves s).events =
            s.events ++ reported options.reportsFiles []) ∨
        (paths ≠ [] ∧
          (linter.lintFiles patterns options).gives s =
            Engine.report t.host.nesting resolved.engine.executable (t.outcomes.headD .quiet) ∧
          ((linter.lintFiles patterns options).leaves s).events =
            s.events ++ reported options.reportsFiles paths ++
              [.engineStarted (resolved.engine.baseCommand ++ paths.map (·.toText)) none])) := by
  cases hselect : linter.select patterns options s with
  | error failure t =>
      obtain ⟨hlint, hevents⟩ := lintFiles_of_error hselect
      have hfails : (linter.select patterns options).gives s = .error failure := by
        rw [gives, hselect]
      refine Or.inl ⟨failure, gives_select_eq_error hfails, ?_, ?_⟩
      · rw [gives, hlint]
      · rw [leaves, hlint]
        exact hevents
  | ok found t =>
      obtain ⟨resolved, paths⟩ := found
      obtain ⟨u, hresolved, hfiles⟩ := select_eq_ok.1 hselect
      refine Or.inr ⟨resolved, paths, u, t, hresolved, hfiles, ?_⟩
      by_cases hpaths : paths = []
      · subst hpaths
        exact Or.inl ⟨rfl, lintFiles_of_nil hengine hselect⟩
      · have hparser := LintOptions.isUnusable_of_resolve hcaller hconfig hresolved
        exact Or.inr ⟨hpaths, lintFiles_of_ne_nil hengine hselect hparser hpaths⟩

/-- A file, and an engine that ends with a bad status. -/
def besideBadStatus : Session where
  files := ⟨[("a.js", .file [])], [], rfl⟩
  temporary := .absolute ["tmp"]
  stamp := "1"
  outcomes := [.finished 2 [] "boom"]

/-- Options of a caller that wants to be told of the files. -/
def toldOfFiles : LintOptions where
  reportsFiles := true

set_option maxRecDepth 4000 in
theorem bad_status_comes_last :
    ({} : Linter).engine = .eslint ∧ toldOfFiles.parser.isUnusable = false ∧
      ({} : Linter).config.parser.isUnusable = false ∧
      (({} : Linter).lintFiles .none toldOfFiles).gives besideBadStatus =
        .error (.engine (.badStatus "eslint" 2) "boom") ∧
      ((({} : Linter).lintFiles .none toldOfFiles).leaves besideBadStatus).events =
        [.filesFound [.absolute ["a.js"]],
          .engineStarted ["eslint", "--format", "json", "--no-eslintrc", "/a.js"] none] := by
  refine ⟨rfl, rfl, rfl, ?_⟩
  obtain ⟨resolved, u, hresolved, t, hfiles, hengine, houtcomes⟩ : ∃ resolved u,
      ({} : Linter).resolve toldOfFiles besideBadStatus = .ok resolved u ∧
        ∃ t, findFiles .none resolved u = .ok [.absolute ["a.js"]] t ∧ resolved.engine = {} ∧
          t.outcomes = besideBadStatus.outcomes := ⟨_, _, rfl, _, rfl, rfl, rfl⟩
  rcases @lintFiles_effects {} toldOfFiles rfl rfl rfl .none besideBadStatus with
    ⟨failure, hfailure, -⟩ | ⟨found, paths, v, w, hfound, hpaths, hshown⟩
  · rcases hfailure with hfailure | ⟨found, v, hfound, hfailure⟩
    · rw [gives, hresolved] at hfailure
      cases hfailure
    · cases hresolved.symm.trans hfound
      rw [gives, hfiles] at hfailure
      cases hfailure
  · cases hresolved.symm.trans hfound
    cases hfiles.symm.trans hpaths
    rw [hengine, houtcomes] at hshown
    rcases hshown with ⟨hnone, -⟩ | ⟨-, hgives, hevents⟩
    · cases hnone
    · exact ⟨hgives, hevents⟩

end Linter
end ProjectLint
