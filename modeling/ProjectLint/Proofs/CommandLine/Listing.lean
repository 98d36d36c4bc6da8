import Mathlib.Data.List.TakeWhile
import ProjectLint.CommandLine.Run
import ProjectLint.Proofs.Lint.Host

/-!
Listing files on the command line. `--list-files` before other arguments changes nothing else in how
these are read. Main statement: a run that lists files and a run that lints them, each on a host of
its own, go on with the same files. What the one prints is what the other starts the engine on, in
the same order and under the same resolved configuration. Where the one finds no files the other
fails as well, before any start, and for the same reason unless searches fail that do not end in the
same order in both.
-/

namespace ProjectLint.CommandLine

open ProjectLint.Action

/-- Arguments with the wish to list the files. -/
def Arguments.listing (arguments : Arguments) : Arguments :=
  { arguments with listFiles := true }

/-- A reading of arguments with the wish to list the files. -/
def Reading.listing : Reading → Reading
  | .run arguments => .run arguments.listing
  | reading => reading

namespace Progress

def listing (progress : Progress) : Progress :=
  { progress with arguments := progress.arguments.listing }

theorem takeFiles_listing (progress : Progress) (files : List Text) :
    progress.listing.takeFiles files = (progress.takeFiles files).listing := by
  obtain ⟨arguments, filesExpected, extras⟩ := progress
  cases files with
  | nil => rfl
  | cons file files => cases filesExpected <;> rfl

theorem give_listing (progress : Progress) (value : Text) (switch : Switch) :
    progress.listing.give value switch = (progress.give value switch).listing := by
  cases switch <;> rfl

end Progress

theorem Arguments.foldl_turnOn_listing (switches : List Switch) (arguments : Arguments) :
    switches.foldl turnOn arguments.listing = (switches.foldl turnOn arguments).listing := by
  induction switches generalizing arguments with
  | nil => rfl
  | cons switch switches ih =>
      have hswitch : arguments.listing.turnOn switch = (arguments.turnOn switch).listing := by
        cases switch <;> rfl
      rw [List.foldl_cons, List.foldl_cons, hswitch, ih]

theorem readClassified_switch {switch : Switch} (h : switch.takesValue = false)
    (progress : Progress) (files : List Text) (t : Text) (short : Bool) (value : Option Text)
    (rest : List (Text × Kind)) :
    readClassified progress files ((t, .switch switch short value) :: rest) =
      match switchedOn switch short value with
      | .error misuse => .misuse misuse
      | .ok switches =>
          if switches.contains .help then .help
          else
            let taken := progress.takeFiles files.reverse
            readClassified
              { taken with arguments := switches.foldl Arguments.turnOn taken.arguments } [] rest := by
  rw [readClassified.eq_def]
  simp only [h]
  rfl

/-- The wish to list the files goes through a reading without a change to the rest. -/
theorem readClassified_listing (progress : Progress) (files : List Text)
    (classified : List (Text × Kind)) :
    readClassified progress.listing files classified =
      (readClassified progress files classified).listing := by
  fun_induction readClassified progress files classified with
  | case1 progress files final hexpected =>
      have hextras : (progress.takeFiles files.reverse).listing.extras.isEmpty = true := hexpected
      simp only [readClassified, Progress.takeFiles_listing, hextras, if_true]
      rfl
  | case2 progress files final hunexpected =>
      have hextras : ¬(progress.takeFiles files.reverse).listing.extras.isEmpty = true :=
        hunexpected
      simp only [readClassified, Progress.takeFiles_listing, hextras]
      rfl
  | case3 progress files t rest ih | case4 progress files t rest ih =>
      rw [readClassified]
      exact ih
  | case5 progress files t rest taken ih =>
      rw [readClassified, Progress.takeFiles_listing]
      exact ih
  | case6 progress files t switch short taken hvalue value rest ih
  | case7 progress files t switch short taken hvalue value rest ih =>
      rw [readClassified]
      simp only [hvalue, if_true, Progress.takeFiles_listing, Progress.give_listing]
      exact ih
  | case8 progress files t switch short rest hvalue hnone =>
      rw [readClassified]
      · simp only [hvalue, if_true]
        rfl
      · exact hnone
  | case9 progress files t switch short value rest hvalue misuse hmisuse =>
      rw [readClassified_switch (Bool.not_eq_true _ ▸ hvalue), hmisuse]
      rfl
  | case10 progress files t switch short value rest hvalue switches hswitches hhelp =>
      rw [readClassified_switch (Bool.not_eq_true _ ▸ hvalue), hswitches]
      exact if_pos hhelp
  | case11 progress files t switch short value rest taken hvalue switches hswitches hhelp ih =>
      rw [readClassified_switch (Bool.not_eq_true _ ▸ hvalue), hswitches, ← ih]
      refine (if_neg hhelp).trans ?_
      simp only [Progress.takeFiles_listing]
      exact congrArg (fun arguments => readClassified { taken.listing with arguments } [] rest)
        (Arguments.foldl_turnOn_listing switches taken.arguments)

/-- The option before other arguments adds the wish to list the files and changes nothing else. -/
theorem read_cons_listFiles (args : List Text) :
    read (Switch.listFiles.long :: args) = (read args).listing := by
  have hkind : classify Switch.listFiles.long = .ok (.switch .listFiles false none) := rfl
  have hmark : Switch.listFiles.long ≠ endMark := by decide
  rw [read, classifyAll, if_neg hmark, hkind, read]
  cases classifyAll args with
  | error misuse => rfl
  | ok classified =>
      show readClassified {} [] ((_, .switch .listFiles false none) :: classified) = _
      rw [readClassified_switch rfl]
      exact readClassified_listing {} [] classified

/-- The run of arguments that fails for a reason. -/
def failedRun (arguments : Arguments) (failure : Failure) (session : Session) : Run :=
  if failure.isReported then
    ⟨.status 2, [], unlines (noteLines arguments session ++ failureLines failure)⟩
  else ⟨.failed failure, [], unlines (noteLines arguments session)⟩

theorem stdout_failedRun (arguments : Arguments) (failure : Failure) (session : Session) :
    (failedRun arguments failure session).stdout = [] := by
  rw [failedRun]
  split <;> rfl

section Runs

variable {arguments : Arguments} {stdin : Text} {s t : Session}

theorem isUnusable_textSetting (value : Option Value) :
    (textSetting value).isUnusable = false := by
  cases value <;> rfl

theorem produce_of_listing (hlists : arguments.listFiles = true) (stdin : Text) :
    produce arguments stdin =
      arguments.linter.select arguments.patterns arguments.options >>= fun found =>
        pure (.files found.2) := by
  simp only [produce, hlists, if_true, Linter.select, bind_assoc, pure_bind]

theorem produce_of_select {resolved : ResolvedOptions} {paths : List Path}
    (hlists : arguments.listFiles = true)
    (h : arguments.linter.select arguments.patterns arguments.options s = .ok (resolved, paths) t)
    (stdin : Text) : produce arguments stdin s = .ok (.files paths) t := by
  rw [produce_of_listing hlists, bind_apply, h]
  rfl

theorem produce_of_select_error {failure : Failure} (hlists : arguments.listFiles = true)
    (h : arguments.linter.select arguments.patterns arguments.options s = .error failure t)
    (stdin : Text) : produce arguments stdin s = .error failure t := by
  rw [produce_of_listing hlists, bind_apply, h]

theorem produce_of_not_listing (hlists : arguments.listFiles = false)
    (hstdin : arguments.stdin = false) (stdin : Text) :
    produce arguments stdin =
      arguments.linter.lintFiles arguments.patterns arguments.options >>= fun found =>
        pure (.report found) := by
  rw [produce, hlists, hstdin]
  rfl

theorem leaves_produce (hlists : arguments.listFiles = false) (hstdin : arguments.stdin = false)
    (stdin : Text) (s : Session) :
    (produce arguments stdin).leaves s =
      (arguments.linter.lintFiles arguments.patterns arguments.options).leaves s := by
  rw [produce_of_not_listing hlists hstdin, leaves_bind, leaves]
  cases arguments.linter.lintFiles arguments.patterns arguments.options s <;> rfl

variable (hversion : arguments.version = false)

include hversion

theorem runArguments_of_error {failure : Failure}
    (h : produce arguments stdin s = .error failure t) :
    runArguments arguments stdin s = (failedRun arguments failure t, t) := by
  simp only [runArguments, hversion, h, failedRun]
  cases failure.isReported <;> rfl

/-- Whether files are listed or linted, a run fails as the search for them does. -/
theorem runArguments_of_select_error {failure : Failure}
    (hselects : arguments.listFiles = true ∨ arguments.stdin = false)
    (h : arguments.linter.select arguments.patterns arguments.options s = .error failure t) :
    runArguments arguments stdin s = (failedRun arguments failure t, t) := by
  refine runArguments_of_error hversion ?_
  cases hlists : arguments.listFiles with
  | true => exact produce_of_select_error hlists h stdin
  | false =>
      have hstdin := hselects.resolve_left (by rw [hlists]; exact Bool.false_ne_true)
      rw [produce_of_not_listing hlists hstdin, bind_apply, (Linter.lintFiles_of_error h).1]

theorem runArguments_of_files {paths : List Path}
    (h : produce arguments stdin s = .ok (.files paths) t) :
    runArguments arguments stdin s =
      (⟨(printLines t.host 0 (paths.map (·.toText))).1,
        (printLines t.host 0 (paths.map (·.toText))).2, unlines (noteLines arguments t)⟩, t) := by
  simp only [runArguments, hversion, h]
  rfl

theorem snd_runArguments :
    (runArguments arguments stdin s).2 = (produce arguments stdin).leaves s := by
  rw [runArguments, hversion, leaves]
  cases produce arguments stdin s with
  | ok found t => cases found <;> rfl
  | error failure t => cases hreported : failure.isReported <;> simp [hreported]

/-- Linting starts the engine once on the files that are found, or not at all without files. -/
theorem events_runArguments {resolved : ResolvedOptions} {paths : List Path}
    (hlists : arguments.listFiles = false) (hstdin : arguments.stdin = false)
    (h : arguments.linter.select arguments.patterns arguments.options s =
      .ok (resolved, paths) t) :
    (runArguments arguments stdin s).2.events = s.events ++
      if paths = [] then []
      else [.engineStarted (resolved.engine.baseCommand ++ paths.map (·.toText)) none] := by
  rw [snd_runArguments hversion, leaves_produce hlists hstdin]
  obtain ⟨u, hresolved, -⟩ := Linter.select_eq_ok.1 h
  have hquiet : Linter.reported arguments.options.reportsFiles paths = [] := rfl
  by_cases hpaths : paths = []
  · subst hpaths
    rw [if_pos rfl, (Linter.lintFiles_of_nil rfl h).2, hquiet]
  · have hparser := LintOptions.isUnusable_of_resolve (isUnusable_textSetting _) rfl hresolved
    rw [if_neg hpaths, (Linter.lintFiles_of_ne_nil rfl h hparser hpaths).2, hquiet,
      List.append_nil]

end Runs

/-- Lines that can be printed are all printed. -/
theorem printLines_of_forall {host : Host} {lines : List Text}
    (h : ∀ line ∈ lines, canPrint host line = true) (code : Nat) :
    printLines host code lines = (.status code, unlines lines) := by
  rw [printLines, if_pos (List.all_eq_true.2 h), List.takeWhile_eq_self_iff.2 h]

/-- Listing files and linting them on another host agree. Either the files are found: then they are
what is printed, as long as they can be, and the engine is started on them once, or not at all
without files. Or both runs fail before any start, and for one reason unless two searches fail that
do not end in the same order. -/
theorem listing_agrees_with_linting {args : List Text} {arguments : Arguments}
    (hread : read args = .run arguments) (hlists : arguments.listFiles = false)
    (hstdin : arguments.stdin = false) (hversion : arguments.version = false) :
    read (Switch.listFiles.long :: args) = .run arguments.listing ∧
      ∀ listed, read listed = .run arguments.listing →
        ∀ (stdin : Text) (s : Session) (host : Host), s.SameFiles (s.on host) →
        (∃ resolved paths u t, arguments.linter.resolve arguments.options s = .ok resolved u ∧
          Linter.findFiles arguments.patterns resolved u = .ok paths t ∧
          ((∀ path ∈ paths, canPrint s.host path.toText = true) →
            (run listed stdin s).1.ending = .status 0 ∧
              (run listed stdin s).1.stdout = unlines (paths.map (·.toText))) ∧
          (run listed stdin s).2.events = s.events ∧
          (run args stdin (s.on host)).2.events = s.events ++
            if paths = [] then []
            else [.engineStarted (resolved.engine.baseCommand ++ paths.map (·.toText)) none]) ∨
        (∃ first second t, (run listed stdin s).1 = failedRun arguments first t ∧
          (run args stdin (s.on host)).1 = failedRun arguments second t ∧
          (run listed stdin s).2.events = s.events ∧
          (run args stdin (s.on host)).2.events = s.events ∧
          (first = second ∨ s.host.finishing ≠ host.finishing ∧
            ∃ resolved u, arguments.linter.resolve arguments.options s = .ok resolved u ∧
              Linter.SearchFails arguments.patterns resolved u first ∧
              Linter.SearchFails arguments.patterns resolved u second)) := by
  refine ⟨by rw [read_cons_listFiles, hread]; rfl, fun listed hlisted stdin s host hfiles => ?_⟩
  have hlist {failure : Failure} {t : Session}
      (h : arguments.linter.select arguments.patterns arguments.options s = .error failure t) :
      runArguments arguments.listing stdin s = (failedRun arguments failure t, t) :=
    @runArguments_of_select_error arguments.listing stdin s t hversion failure (Or.inl rfl) h
  rw [run, hlisted, run, hread]
  dsimp only
  rcases arguments.linter.select_on arguments.patterns arguments.options hfiles with
    hsame | ⟨resolved, t, first, second, hother, hresolved, hfirst, hsecond, hfails⟩
  · cases hselect : arguments.linter.select arguments.patterns arguments.options s with
    | error failure t =>
        have hevents := (Linter.lintFiles_of_error hselect).2
        rw [hlist hselect,
          runArguments_of_select_error hversion (Or.inr hstdin) (hsame.eq_error hselect)]
        exact Or.inr ⟨failure, failure, t, rfl, rfl, hevents, hevents, Or.inl rfl⟩
    | ok found t =>
        obtain ⟨resolved, paths⟩ := found
        obtain ⟨u, hresolved, hfiles⟩ := Linter.select_eq_ok.1 hselect
        have hproduce : produce arguments.listing stdin s = .ok (.files paths) t :=
          @produce_of_select arguments.listing _ _ _ _ rfl hselect stdin
        have hevents := (Linter.silent_select _ _ _).events_eq hselect
        refine Or.inl ⟨resolved, paths, u, t, hresolved, hfiles, ?_, ?_,
          events_runArguments hversion hlists hstdin (hsame.eq_ok hselect)⟩
        · intro hprints
          have hlines := printLines_of_forall (List.forall_mem_map.2 hprints) 0
          rw [@runArguments_of_files arguments.listing _ _ _ hversion _ hproduce,
            Linter.host_of_select hselect, hlines]
          exact ⟨rfl, rfl⟩
        · rw [@runArguments_of_files arguments.listing _ _ _ hversion _ hproduce]
          exact hevents
  · have hevents := (Linter.lintFiles_of_error hfirst).2
    rw [hlist hfirst, runArguments_of_select_error hversion (Or.inr hstdin) hsecond]
    exact Or.inr ⟨first, second, t, rfl, rfl, hevents, hevents,
      Or.inr ⟨hother, resolved, t, hresolved, hfails⟩⟩

set_option maxRecDepth 4000 in
theorem file_listed_is_linted : read ["a.js"] = .run { files := ["a.js"] } ∧
    (run ["--list-files", "a.js"] [] Linter.besideBadStatus).1.stdout = unlines ["/a.js"] ∧
      (run ["a.js"] [] (Linter.besideBadStatus.on { finishing := [1] })).2.events =
        [.engineStarted ["eslint", "--format", "json", "--no-eslintrc", "/a.js"] none] := by
  have hread : read ["a.js"] = .run { files := ["a.js"] } := rfl
  obtain ⟨hlisted, hagree⟩ := listing_agrees_with_linting hread rfl rfl rfl
  refine ⟨hread, ?_⟩
  rcases hagree _ hlisted [] Linter.besideBadStatus { finishing := [1] } ⟨rfl, rfl⟩ with
    ⟨resolved, paths, u, t, hresolved, hfiles, hprinted, -, hevents⟩ | ⟨_, _, _, hfails, -⟩
  · cases (show _ = EStateM.Result.ok resolved u from hresolved)
    cases (show _ = EStateM.Result.ok paths t from hfiles)
    exact ⟨(hprinted (by decide)).2, hevents⟩
  · have hnothing := (congrArg Run.stdout hfails).trans (stdout_failedRun _ _ _)
    cases (show unlines ["/a.js"] = [] from hnothing)

/-- Two links to names that are too long. -/
def unfollowableLinks : Session where
  files := ⟨[("a.js", .link (List.replicate 300 (.scalar 'x'))),
    ("b.jsx", .link (List.replicate 300 (.scalar 'x')))], [], rfl⟩
  temporary := .absolute ["tmp"]
  stamp := "1"

set_option maxRecDepth 8000 in
/-- Where two searches fail it matters which one ends first. -/
theorem first_failure_told :
    (run ["--list-files", "a.js", "b.jsx"] [] unfollowableLinks).1.stderr =
        unlines ["Error: [Errno 36] File name too long: '/a.js'"] ∧
      (run ["a.js", "b.jsx"] [] (unfollowableLinks.on { finishing := [1] })).1.stderr =
        unlines ["Error: [Errno 36] File name too long: '/b.jsx'"] := by
  constructor <;> rfl

end ProjectLint.CommandLine
