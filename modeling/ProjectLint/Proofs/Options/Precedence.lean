import ProjectLint.Proofs.Options.Copy

/-!
The parser of a call, from the caller or the manifest to the command line of the engine. A parser is
carried by an option, or by the configuration file if there is no such option. Main statement: the
parser of a call is carried exactly if the configuration that the call started from has no
configuration file, or no other parser of its own.
-/

namespace ProjectLint

open ProjectLint.Action FileSystem

/-- The arguments right after an option. -/
def argumentsAfter (option : Text) : List Text → List Text
  | first :: second :: rest =>
      if first = option then second :: argumentsAfter option rest
      else argumentsAfter option (second :: rest)
  | [_] | [] => []

theorem argumentsAfter_cons_ne {option first : Text} (h : first ≠ option) (rest : List Text) :
    argumentsAfter option (first :: rest) = argumentsAfter option rest := by
  cases rest with
  | nil => rfl
  | cons second rest => rw [argumentsAfter, if_neg h]

theorem argumentsAfter_cons_self (option second : Text) (rest : List Text) :
    argumentsAfter option (option :: second :: rest) = second :: argumentsAfter option rest := by
  rw [argumentsAfter, if_pos rfl]

namespace EngineConfig

/-- The arguments of an engine, the caller's own ones aside. -/
def ownArguments (config : EngineConfig) : List Text :=
  { config with extraArguments := [] }.baseCommand.tail

/-- Whether an engine is given a parser: every option for a parser names it, and if there is none,
the configuration file does. -/
structure Carries (config : EngineConfig) (parser : Text) (s : Session) : Prop where
  option : ∀ value ∈ argumentsAfter "--parser" config.ownArguments, value = parser
  file : argumentsAfter "--parser" config.ownArguments = [] →
    ∃ path fields, argumentsAfter "--config" config.ownArguments = [path.toText] ∧
      ParserFile.readConfig path s = .ok fields s ∧
      Json.Fields.get? "parser" fields = some (.string parser)

/-- The parsers that a configuration names itself. -/
def ownParser (config : EngineConfig) : List Text :=
  match config.parser with
  | .text name => if name = [] then [] else [name]
  | .unset | .other _ => []

/-- The arguments for a configuration file and for a parser. -/
def choiceArguments (config : EngineConfig) : List Text :=
  (config.configFile.toList.flatMap fun path => [("--config" : Text), path.toText]) ++
    config.ownParser.flatMap fun name => [("--parser" : Text), name]

theorem ownArguments_eq (config : EngineConfig) :
    config.ownArguments = ("--format" : Text) :: ("json" : Text) ::
      ((if config.usesOwnFiles then [] else [("--no-eslintrc" : Text)]) ++
        config.choiceArguments) := by
  obtain ⟨configFile, usesOwnFiles, parser, executable, extraArguments⟩ := config
  rw [choiceArguments, ownParser, ownArguments, baseCommand]
  cases configFile with
  | none | some path =>
      cases parser with
      | unset | other _ => simp
      | text name =>
          by_cases hname : name = []
          · simp [hname]
          · simp [hname]

theorem argumentsAfter_ownArguments {option : Text} (hformat : ("--format" : Text) ≠ option)
    (hjson : ("json" : Text) ≠ option) (hown : ("--no-eslintrc" : Text) ≠ option)
    (config : EngineConfig) :
    argumentsAfter option config.ownArguments = argumentsAfter option config.choiceArguments := by
  rw [ownArguments_eq, argumentsAfter_cons_ne hformat, argumentsAfter_cons_ne hjson]
  cases config.usesOwnFiles with
  | true => rfl
  | false => exact argumentsAfter_cons_ne hown _

theorem ownParser_cases (config : EngineConfig) :
    config.ownParser = [] ∨ ∃ name, config.ownParser = [name] := by
  rw [ownParser]
  split
  next name _ =>
    split
    next => exact Or.inl rfl
    next => exact Or.inr ⟨name, rfl⟩
  next => exact Or.inl rfl
  next => exact Or.inl rfl

theorem mem_ownParser {config : EngineConfig} {name : Text} :
    name ∈ config.ownParser ↔ config.parser = .text name ∧ name ≠ [] := by
  rw [ownParser]
  cases config.parser with
  | unset | other _ => simp
  | text own =>
      simp only [Setting.text.injEq]
      split
      next hnone =>
        rw [hnone]
        simp [eq_comm]
      next hne =>
        rw [List.mem_singleton]
        constructor
        · rintro rfl
          exact ⟨rfl, hne⟩
        · rintro ⟨rfl, -⟩
          rfl

theorem argumentsAfter_parserOption {config : EngineConfig}
    (h : ∀ path, config.configFile = some path → path.toText ≠ ("--parser" : Text)) :
    argumentsAfter "--parser" config.ownArguments = config.ownParser := by
  have hparser : argumentsAfter "--parser"
      (config.ownParser.flatMap fun name => [("--parser" : Text), name]) = config.ownParser := by
    cases config.ownParser_cases with
    | inl hnone => rw [hnone]; rfl
    | inr hone =>
        obtain ⟨name, hone⟩ := hone
        rw [hone]
        exact argumentsAfter_cons_self _ _ _
  rw [argumentsAfter_ownArguments (by decide) (by decide) (by decide), choiceArguments]
  cases hpath : config.configFile with
  | none => exact hparser
  | some path =>
      refine (argumentsAfter_cons_ne (by decide) _).trans ?_
      exact (argumentsAfter_cons_ne (h path hpath) _).trans hparser

theorem argumentsAfter_configOption (config : EngineConfig) :
    argumentsAfter "--config" config.ownArguments =
      config.configFile.toList.map Path.toText := by
  have hparser : argumentsAfter "--config"
      (config.ownParser.flatMap fun name => [("--parser" : Text), name]) = [] := by
    cases config.ownParser_cases with
    | inl hnone => rw [hnone]; rfl
    | inr hone =>
        obtain ⟨name, hone⟩ := hone
        rw [hone]
        exact argumentsAfter_cons_ne (by decide) _
  rw [argumentsAfter_ownArguments (by decide) (by decide) (by decide), choiceArguments]
  cases config.configFile with
  | none => exact hparser
  | some path =>
      refine (argumentsAfter_cons_self _ _ _).trans ?_
      exact congrArg _ hparser

end EngineConfig

namespace LintOptions

/-- The parser that a call asks for: the caller's, or else the one in the block of the manifest. -/
def chosenParser (options : LintOptions) (command : Text) : Action Setting := do
  let directory ← Action.resolve (← options.startDirectory)
  let block ← Manifest.findBlock command directory
  return options.parser.orText (block.bind (·.2.parser))

theorem chosenParser_of_gather {options : LintOptions} {command : Text} {s t : Session}
    {found : Gathered} (h : options.gather command s = .ok found t) :
    ∃ u, options.chosenParser command s = .ok found.parser u := by
  obtain ⟨-, block, -, v, -, hblock, -, hparser⟩ := gather_eq_ok h
  obtain ⟨start, u₁, hstart, h⟩ := bind_eq_ok.1 h
  obtain ⟨directory, u₂, hdirectory, h⟩ := bind_eq_ok.1 h
  have hfound : found.directory = directory := by
    obtain ⟨_, _, -, h⟩ := bind_eq_ok.1 h
    obtain ⟨_, _, -, h⟩ := bind_eq_ok.1 h
    obtain ⟨_, _, -, h⟩ := bind_eq_ok.1 h
    obtain ⟨_, _, -, h⟩ := bind_eq_ok.1 h
    obtain ⟨_, _, -, h⟩ := bind_eq_ok.1 h
    rw [← (pure_eq_ok.1 h).1]
  have hsame : u₂.SameFiles s := (observes_resolve start).sameFiles hdirectory
    ((observes_startDirectory options).sameFiles hstart ⟨rfl, rfl⟩)
  rw [hfound] at hblock
  obtain ⟨w, hw⟩ := (Manifest.observes_findBlock command directory).eq_ok_of_files hblock
    hsame.symm
  refine ⟨w, ?_⟩
  rw [hparser]
  refine bind_eq_ok.2 ⟨start, u₁, hstart, bind_eq_ok.2 ⟨directory, u₂, hdirectory, ?_⟩⟩
  exact bind_eq_ok.2 ⟨block, w, hw, pure_eq_ok.2 ⟨rfl, rfl⟩⟩

/-- The caller's parser counts before the one of the manifest. -/
theorem chosenParser_of_caller {options : LintOptions} {command parser : Text} {s t : Session}
    {chosen : Setting} (hparser : options.parser = .text parser)
    (h : options.chosenParser command s = .ok chosen t) : chosen = .text parser := by
  obtain ⟨start, u, -, h⟩ := bind_eq_ok.1 h
  obtain ⟨directory, v, -, h⟩ := bind_eq_ok.1 h
  obtain ⟨block, w, -, h⟩ := bind_eq_ok.1 h
  rw [← (pure_eq_ok.1 h).1, hparser, Setting.orText.eq_def]

end LintOptions

namespace LintOptions

theorem toText_copy_ne (path : Path) (parser : Text) :
    (path.child (ParserFile.copyName parser)).toText ≠ ("--parser" : Text) := by
  intro h
  have hdot : CodePoint.scalar '.' ∈ ParserFile.copyName parser :=
    List.mem_append_left _ (by decide)
  have hpart : ParserFile.copyName parser ∈ (path.child (ParserFile.copyName parser)).parts :=
    List.mem_append_right _ (List.mem_singleton_self _)
  have hmem := Path.mem_toText hpart hdot
  rw [h] at hmem
  exact absurd hmem (by decide)

/-- With a configuration file, a call's parser is carried if the configuration has no other one. -/
theorem carries_of_file {config engine : EngineConfig} {parser : Text} {source : Path}
    {s t : Session} {place : Place} (hcopies : s.TakesCopies place) (hparser : parser ≠ [])
    (hsource : config.configFile = some source)
    (h : withParser config (.text parser) s = .ok engine t) :
    engine.Carries parser t ↔ ∀ own, config.parser = .text own → own = [] ∨ own = parser := by
  have hcopy : ¬(parser = [] ∨ config.configFile = none) := by simp [hparser, hsource]
  obtain ⟨_, _, fields, hsetting, -, hfound, hread, hengine, hfits, hsystem, hchanged, hfind⟩ :=
    (withParser_eq_ok hcopies h).resolve_left fun hsame => hcopy (hsame.2 parser rfl)
  cases hsetting
  cases hsource.symm.trans hfound
  have hfile : engine.configFile = some (s.temporary.child (ParserFile.copyName parser)) := by
    rw [hengine]
  have hown : engine.ownParser = config.ownParser := by
    rw [hengine, EngineConfig.ownParser, EngineConfig.ownParser]
  have hoptions : argumentsAfter "--parser" engine.ownArguments = config.ownParser := by
    rw [← hown]
    refine EngineConfig.argumentsAfter_parserOption fun path hpath => ?_
    rw [hfile] at hpath
    exact Option.some.inj hpath ▸ toText_copy_ne _ _
  have hconfig := EngineConfig.argumentsAfter_configOption engine
  rw [hfile] at hconfig
  constructor
  · intro hcarries own hparserOf
    by_cases hnone : own = []
    · exact Or.inl hnone
    · refine Or.inr (hcarries.option own ?_)
      rw [hoptions]
      exact EngineConfig.mem_ownParser.2 ⟨hparserOf, hnone⟩
  · intro hsame
    refine ⟨fun value hvalue => ?_, fun _ => ?_⟩
    · rw [hoptions] at hvalue
      obtain ⟨hparserOf, hne⟩ := EngineConfig.mem_ownParser.1 hvalue
      exact (hsame value hparserOf).resolve_left hne
    · have hcopy := ParserFile.isConfig_copyFields (ParserFile.isConfig_of_readConfig hread) hfits
      have hread := ParserFile.readConfig_child (hcopies.stands.changed hchanged)
        (ParserFile.goesIn_of_leadsDown (ParserFile.leadsDown_copyName parser)) hfits
        (hsystem.host ▸ hcopy)
        (by rw [hfind, if_pos rfl])
      refine ⟨_, ParserFile.copyFields parser fields, hconfig, hread, ?_⟩
      rw [ParserFile.copyFields, Json.Fields.get?_set, if_pos rfl]

/-- The parser of a call is carried exactly if the configuration that the call started from has no
configuration file, or no other parser of its own; a call without a parser leaves the configuration
as it is. -/
theorem carries_chosenParser_iff {options : LintOptions} {command : Text} {config : EngineConfig}
    {s t : Session} {resolved : ResolvedOptions} {place : Place}
    (h : options.resolve command config s = .ok resolved t)
    (hcopies : config.configFile ≠ none → s.TakesCopies place) :
    ∃ chosen u, options.chosenParser command s = .ok chosen u ∧
      (chosen.isBlank = true → resolved.engine = config) ∧
      ∀ parser, chosen = .text parser → parser ≠ [] →
        (resolved.engine.Carries parser t ↔ config.configFile = none ∨
          ∀ own, config.parser = .text own → own = [] ∨ own = parser) := by
  obtain ⟨found, u, hfound, -, -, hengine⟩ := resolve_eq_ok h
  obtain ⟨v, hchosen⟩ := chosenParser_of_gather hfound
  obtain ⟨notes, rfl⟩ := (observes_gather options command).session_eq hfound
  refine ⟨found.parser, v, hchosen, fun hblank => ?_, fun parser hparser hne => ?_⟩
  · rw [withParser, if_pos hblank] at hengine
    exact (pure_eq_ok.1 hengine).1.symm
  · rw [hparser] at hengine
    cases hsource : config.configFile with
    | none =>
        have hblank : (Setting.text parser).isBlank = false := List.isEmpty_eq_false_iff.2 hne
        rw [withParser, hblank, if_neg Bool.false_ne_true, ParserFile.choose, hsource] at hengine
        obtain ⟨hengine, -⟩ := pure_eq_ok.1 hengine
        have hfile : resolved.engine.configFile = none := by rw [← hengine]
        have hown : resolved.engine.ownParser = [parser] := by
          rw [← hengine, EngineConfig.ownParser]
          exact if_neg hne
        have hoptions : argumentsAfter "--parser" resolved.engine.ownArguments = [parser] := by
          rw [← hown]
          refine EngineConfig.argumentsAfter_parserOption fun path hpath => ?_
          rw [hfile] at hpath
          cases hpath
        refine ⟨fun _ => Or.inl rfl, fun _ => ⟨fun value hvalue => ?_, fun hnone => ?_⟩⟩
        · rw [hoptions] at hvalue
          exact List.mem_singleton.1 hvalue
        · rw [hoptions] at hnone
          cases hnone
    | some source =>
        have hready := hcopies (by simp [hsource])
        have htakes : ({ s with notes } : Session).TakesCopies place := ⟨hready.stands, hready.free⟩
        rw [carries_of_file htakes hne hsource hengine]
        simp

/-- A configuration file beside an empty temporary directory. -/
def besideConfig : Entries :=
  [("base.json", .file (Utf8.encode "{}")), ("tmp", .directory [])]

theorem wellFormed_besideConfig : Node.entriesWellFormed besideConfig = true := by
  rfl

/-- A session in which that is all there is. -/
def besideConfigSession : Session where
  files := ⟨besideConfig, [], wellFormed_besideConfig⟩
  temporary := .absolute ["tmp"]
  stamp := "1"

theorem takesCopies_besideConfig : besideConfigSession.TakesCopies ["tmp"] :=
  ⟨standsFor_absolute ⟨[], rfl⟩ (by decide), fun _ => rfl⟩

theorem exists_of_passes {α : Type} (result : EStateM.Result Failure Session α) (test : α → Bool)
    (h : (match result with | .ok a _ => test a | .error _ _ => false) = true) :
    ∃ a t, result = .ok a t ∧ test a = true := by
  cases result with
  | ok a t => exact ⟨a, t, rfl, h⟩
  | error failure t => cases h

/-- A caller that asks for a parser. -/
def asksForEspree : LintOptions where
  parser := .text "espree"

/-- An engine that is configured in a file. -/
def usesBaseConfig : EngineConfig where
  configFile := some (.absolute ["base.json"])

theorem espree_carried : ∃ resolved t,
    asksForEspree.resolve "lint" usesBaseConfig besideConfigSession = .ok resolved t ∧
    besideConfigSession.TakesCopies ["tmp"] ∧ resolved.engine.Carries "espree" t := by
  obtain ⟨resolved, t, h, -⟩ := exists_of_passes
    (asksForEspree.resolve "lint" usesBaseConfig besideConfigSession) (fun _ => true)
    (by decide +kernel)
  obtain ⟨chosen, u, hchosen, -, hcarries⟩ :=
    carries_chosenParser_iff h fun _ => takesCopies_besideConfig
  refine ⟨resolved, t, h, takesCopies_besideConfig, ?_⟩
  refine (hcarries "espree" (chosenParser_of_caller rfl hchosen) (by decide)).2 (Or.inr ?_)
  intro own hown
  cases hown

/-- A parser of the configuration's own stays on the command line beside the copy with the caller's
parser. -/
theorem own_parser_kept : ∃ resolved t u,
    asksForEspree.resolve "lint" { usesBaseConfig with parser := .text "acorn" }
      besideConfigSession = .ok resolved t ∧
    asksForEspree.chosenParser "lint" besideConfigSession = .ok (.text "espree") u ∧
    besideConfigSession.TakesCopies ["tmp"] ∧ ¬resolved.engine.Carries "espree" t := by
  obtain ⟨resolved, t, h, hoptions⟩ := exists_of_passes
    (asksForEspree.resolve "lint" { usesBaseConfig with parser := .text "acorn" }
      besideConfigSession)
    (fun found => argumentsAfter "--parser" found.engine.ownArguments = [("acorn" : Text)])
    (by decide +kernel)
  obtain ⟨found, v, hfound, -⟩ := resolve_eq_ok h
  obtain ⟨u, hchosen⟩ := chosenParser_of_gather hfound
  rw [chosenParser_of_caller rfl hchosen] at hchosen
  refine ⟨resolved, t, u, h, hchosen, takesCopies_besideConfig, fun hcarries => ?_⟩
  have hacorn := hcarries.option "acorn" (by
    rw [of_decide_eq_true hoptions]
    exact List.mem_cons_self)
  exact absurd hacorn (by decide)

end LintOptions
end ProjectLint
