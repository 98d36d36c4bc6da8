import ProjectLint.Proofs.Options.Precedence

/-!
Calls that are made one after another and share a temporary directory. The name of a copy comes of
the parser alone, so a call may replace the copy of an earlier one. Main statement: after all calls
the configuration file of a call reads as the last copy that was made under its name.
-/

namespace ProjectLint

open ProjectLint.Action FileSystem ParserFile LintOptions

/-- A call, with what it draws for the names of the files that it writes first. -/
structure Call where
  options : LintOptions
  command : Text
  config : EngineConfig
  stamp : Text

namespace Call

def start (call : Call) (s : Session) : Session :=
  { s with stamp := call.stamp }

def run (call : Call) (s : Session) : EStateM.Result Failure Session ResolvedOptions :=
  call.options.resolve call.command call.config (call.start s)

/-- The session after a call, whether it succeeds or fails. -/
def after (call : Call) (s : Session) : Session :=
  (call.options.resolve call.command call.config).leaves (call.start s)

/-- The fields of the copy that a call makes under a name, if it makes one. -/
def copyUnder? (name : Text) (call : Call) (s : Session) : Option Json.Fields :=
  match call.run s, call.options.chosenParser call.command (call.start s),
      call.config.configFile with
  | .ok _ _, .ok (.text parser) _, some source =>
      if parser ≠ [] ∧ (copyName parser).asName = name then
        match readConfig source (call.start s) with
        | .ok fields _ => some (copyFields parser fields)
        | .error _ _ => none
      else none
  | _, _, _ => none

variable {call : Call} {name : Text} {s t : Session}

theorem copyUnder?_eq_some {copy : Json.Fields} :
    call.copyUnder? name s = some copy ↔ ∃ resolved t parser u source fields,
      call.run s = .ok resolved t ∧
      call.options.chosenParser call.command (call.start s) = .ok (.text parser) u ∧
      parser ≠ [] ∧ (copyName parser).asName = name ∧ call.config.configFile = some source ∧
      readConfig source (call.start s) = .ok fields (call.start s) ∧
      copy = copyFields parser fields := by
  constructor
  · intro h
    rw [copyUnder?] at h
    split at h
    next resolved t parser u source hrun hchosen hsource =>
      split at h
      next hname =>
        split at h
        next fields v hread =>
          obtain ⟨rfl, -⟩ := readConfig_eq_ok.1 hread
          exact ⟨resolved, t, parser, u, source, fields, hrun, hchosen, hname.1, hname.2, hsource,
            hread, (Option.some.inj h).symm⟩
        next => cases h
      next => cases h
    next => cases h
  · rintro ⟨resolved, t, parser, u, source, fields, hrun, hchosen, hne, hname, hsource, hread, rfl⟩
    rw [copyUnder?, hrun, hchosen, hsource]
    simp only [if_pos (And.intro hne hname), hread]

/-- What a call does to the temporary directory: a copy replaces what was under its name, and the
other entries stay. A call that fails may leave a new entry. -/
structure Leaves (call : Call) (place : Place) (s t : Session) : Prop where
  system : s.SameSystem t
  changed : ChangedIn place s.files t.files
  copied : ∀ name copy, call.copyUnder? name s = some copy →
    IsConfig s.host.nesting copy ∧ t.files.find? (place ++ [name]) = some (.file (contentOf copy))
  kept : ∀ name, call.copyUnder? name s = none →
    s.files.find? (place ++ [name]) ≠ none ∨ (∃ resolved, call.run s = .ok resolved t) →
      t.files.find? (place ++ [name]) = s.files.find? (place ++ [name])

/-- A call that succeeds leaves all files as they are, or makes a copy for its parser. -/
theorem run_eq_ok {place : Place} {resolved : ResolvedOptions}
    (hcopies : (call.start s).TakesCopies place) (h : call.run s = .ok resolved t) :
    ∃ setting v, call.options.chosenParser call.command (call.start s) = .ok setting v ∧
      (((∃ notes, t = { call.start s with notes }) ∧
        ∀ parser, setting = .text parser → parser = [] ∨ call.config.configFile = none) ∨
      ∃ parser source fields, setting = .text parser ∧ parser ≠ [] ∧
        call.config.configFile = some source ∧
        readConfig source (call.start s) = .ok fields (call.start s) ∧
        resolved.engine.configFile = some (s.temporary.child (copyName parser)) ∧
        Fits s.temporary (copyName parser) ∧ s.SameSystem t ∧
        ChangedIn place s.files t.files ∧
        ∀ other, t.files.find? (place ++ [other]) =
          if other = (copyName parser).asName then
            some (.file (contentOf (copyFields parser fields)))
          else s.files.find? (place ++ [other])) := by
  obtain ⟨found, u, hfound, -, -, hengine⟩ := resolve_eq_ok h
  obtain ⟨v, hchosen⟩ := chosenParser_of_gather hfound
  obtain ⟨notes, rfl⟩ := (observes_gather call.options call.command).session_eq hfound
  have htakes : ({ call.start s with notes } : Session).TakesCopies place :=
    ⟨hcopies.stands, hcopies.free⟩
  refine ⟨found.parser, v, hchosen, ?_⟩
  cases withParser_eq_ok htakes hengine with
  | inl hsame => exact Or.inl ⟨⟨notes, hsame.1⟩, hsame.2⟩
  | inr hwrite =>
      obtain ⟨parser, source, fields, hsetting, hne, hsource, hread, hfile, hfits, hsystem,
        hchanged, hfind⟩ := hwrite
      obtain ⟨w, hread⟩ := (observes_readConfig source).eq_ok_of_files hread
        (u := call.start s) ⟨rfl, rfl⟩
      obtain ⟨rfl, -⟩ := readConfig_eq_ok.1 hread
      refine Or.inr ⟨parser, source, fields, hsetting, hne, hsource, hread, ?_, hfits,
        ⟨hsystem.temporary, hsystem.host⟩, hchanged, hfind⟩
      rw [hfile]
      rfl

theorem leaves_of_ok {place : Place} {resolved : ResolvedOptions}
    (hcopies : (call.start s).TakesCopies place) (h : call.run s = .ok resolved t) :
    call.Leaves place s t := by
  obtain ⟨setting, v, hchosen, hcases⟩ := run_eq_ok hcopies h
  cases hcases with
  | inl hsame =>
      obtain ⟨⟨notes, rfl⟩, hnone⟩ := hsame
      refine ⟨⟨rfl, rfl⟩, .refl, fun name copy hcopy => ?_, fun _ _ _ => rfl⟩
      obtain ⟨_, _, parser, _, source, _, -, hparser, hne, -, hsource, -⟩ :=
        copyUnder?_eq_some.1 hcopy
      cases hnone parser (EStateM.Result.ok.inj (hchosen.symm.trans hparser)).1 with
      | inl hnil => exact absurd hnil hne
      | inr hfile =>
          rw [hsource] at hfile
          cases hfile
  | inr hwrite =>
      obtain ⟨parser, source, fields, rfl, hne, hsource, hread, -, hfits, hsystem, hchanged,
        hfind⟩ := hwrite
      have hunder : call.copyUnder? (copyName parser).asName s = some (copyFields parser fields) :=
        copyUnder?_eq_some.2
          ⟨resolved, t, parser, v, source, fields, h, hchosen, hne, rfl, hsource, hread, rfl⟩
      refine ⟨hsystem, hchanged, fun name copy hcopy => ?_, fun name hnone _ => ?_⟩
      · obtain ⟨_, _, other, _, _, _, -, hother, -, rfl, -⟩ := copyUnder?_eq_some.1 hcopy
        cases (EStateM.Result.ok.inj (hchosen.symm.trans hother)).1
        rw [hunder] at hcopy
        cases hcopy
        have hconfig := isConfig_of_readConfig hread
        refine ⟨isConfig_copyFields hconfig hfits, ?_⟩
        rw [hfind, if_pos rfl]
      · refine (hfind name).trans (if_neg ?_)
        rintro rfl
        rw [hunder] at hnone
        cases hnone

theorem leaves_of_error {place : Place} {failure : Failure}
    (hcopies : (call.start s).TakesCopies place) (h : call.run s = .error failure t) :
    call.Leaves place s t := by
  have hnone : ∀ name, call.copyUnder? name s = none := by
    intro name
    rw [copyUnder?, h]
  suffices hkept : s.SameSystem t ∧ ChangedIn place s.files t.files ∧
      ∀ other, s.files.find? (place ++ [other]) ≠ none →
        t.files.find? (place ++ [other]) = s.files.find? (place ++ [other]) by
    refine ⟨hkept.1, hkept.2.1, fun name copy hcopy => ?_, fun name _ hold => ?_⟩
    · rw [hnone name] at hcopy
      cases hcopy
    · cases hold with
      | inl hold => exact hkept.2.2 name hold
      | inr hok =>
          obtain ⟨_, hok⟩ := hok
          rw [h] at hok
          cases hok
  rw [run, resolve_eq_gather] at h
  cases bind_eq_error.1 h with
  | inl hgather =>
      obtain ⟨notes, rfl⟩ :=
        (observes_gather call.options call.command).session_eq_of_error hgather
      exact ⟨⟨rfl, rfl⟩, .refl, fun _ _ => rfl⟩
  | inr hrest =>
      obtain ⟨found, u, hfound, hrest⟩ := hrest
      obtain ⟨notes, rfl⟩ := (observes_gather call.options call.command).session_eq hfound
      have htakes : ({ call.start s with notes } : Session).TakesCopies place :=
        ⟨hcopies.stands, hcopies.free⟩
      cases bind_eq_error.1 hrest with
      | inl hengine =>
          obtain ⟨hsystem, hkept⟩ := withParser_eq_error htakes hengine
          exact ⟨⟨hsystem.temporary, hsystem.host⟩, hkept⟩
      | inr hpure =>
          obtain ⟨_, _, -, hpure⟩ := hpure
          cases hpure

theorem after_of_run {resolved : ResolvedOptions} (h : call.run s = .ok resolved t) :
    call.after s = t := by
  rw [run] at h
  rw [after, leaves, h]

theorem leaves_after {place : Place} (hcopies : (call.start s).TakesCopies place) :
    call.Leaves place s (call.after s) := by
  rw [after, leaves]
  cases h : call.options.resolve call.command call.config (call.start s) with
  | ok resolved t => exact leaves_of_ok hcopies h
  | error failure t => exact leaves_of_error hcopies h

end Call

/-- What happens in a run: a call, or a change of the files by someone else. -/
inductive Step
  | call (made : Call)
  | change (files : FileSystem)

namespace Step

def after (s : Session) : Step → Session
  | .call made => made.after s
  | .change files => { s with files }

/-- The fields of the copy that is made under a name, if one is made. -/
def copyUnder? (name : Text) (s : Session) : Step → Option Json.Fields
  | .call made => made.copyUnder? name s
  | .change _ => none

/-- Whether a step leaves the temporary directory to the calls: a call can make a copy there, and
others change nothing in it. -/
def Spares (place : Place) (s : Session) : Step → Prop
  | .call made => (made.start s).TakesCopies place
  | .change files => files.StandsFor s.temporary place ∧
      ∀ name, files.find? (place ++ [name]) = s.files.find? (place ++ [name])

end Step

namespace Run

/-- The session after a run. -/
def after (steps : List Step) (s : Session) : Session :=
  steps.foldl Step.after s

/-- Whether all steps of a run leave the temporary directory to the calls. -/
def Spares (place : Place) : List Step → Session → Prop
  | [], _ => True
  | step :: steps, s => step.Spares place s ∧ Spares place steps (step.after s)

/-- The fields of the last copy that is made under a name in a run. -/
def lastCopy? (name : Text) : List Step → Session → Option Json.Fields
  | [], _ => none
  | step :: steps, s => (lastCopy? name steps (step.after s)).or (step.copyUnder? name s)

theorem after_append (before later : List Step) (s : Session) :
    after (before ++ later) s = after later (after before s) :=
  List.foldl_append

theorem spares_append {place : Place} {before later : List Step} {s : Session} :
    Spares place (before ++ later) s ↔
      Spares place before s ∧ Spares place later (after before s) := by
  induction before generalizing s with
  | nil => exact ⟨fun h => ⟨trivial, h⟩, fun h => h.2⟩
  | cons step steps ih =>
      rw [List.cons_append, Spares, ih, Spares, and_assoc]
      rfl

/-- Whether there is a copy under a name. -/
structure Holds (place : Place) (path : Path) (name : Text) (fields : Json.Fields) (s : Session) :
    Prop where
  temporary : s.temporary = path
  stands : s.files.StandsFor path place
  config : IsConfig s.host.nesting fields
  entry : s.files.find? (place ++ [name]) = some (.file (contentOf fields))

variable {place : Place} {path : Path} {name : Text} {fields : Json.Fields} {s : Session}

/-- A step keeps a copy, or replaces it by the one that it makes. -/
theorem Holds.step (h : Holds place path name fields s) {step : Step}
    (hstep : step.Spares place s) :
    Holds place path name ((step.copyUnder? name s).getD fields) (step.after s) := by
  cases step with
  | call made =>
      have hleaves := Call.leaves_after hstep
      have htemporary := hleaves.system.temporary.trans h.temporary
      have hhost : (Step.after s (.call made)).host = s.host := hleaves.system.host
      have hstands := h.stands.changed hleaves.changed
      rw [Step.copyUnder?]
      cases hcopy : made.copyUnder? name s with
      | some copy =>
          obtain ⟨hconfig, hentry⟩ := hleaves.copied name copy hcopy
          exact ⟨htemporary, hstands, hhost ▸ hconfig, hentry⟩
      | none =>
          refine ⟨htemporary, hstands, hhost ▸ h.config, ?_⟩
          refine (hleaves.kept name hcopy (Or.inl ?_)).trans h.entry
          rw [h.entry]
          exact Option.some_ne_none _
  | change files =>
      exact ⟨h.temporary, h.temporary ▸ hstep.1, h.config, (hstep.2 name).trans h.entry⟩

theorem Holds.run (h : Holds place path name fields s) {steps : List Step}
    (hsteps : Spares place steps s) :
    Holds place path name ((lastCopy? name steps s).getD fields) (after steps s) := by
  induction steps generalizing fields s with
  | nil => exact h
  | cons step steps ih =>
      rw [lastCopy?, Option.getD_or]
      exact ih (h.step hsteps.1) hsteps.2

end Run

/-- Whether a configuration file is read as some fields. -/
def Session.Reads (s : Session) (path : Path) (fields : Json.Fields) : Prop :=
  readConfig path s = .ok fields s

namespace Run

variable {place : Place} {before later : List Step} {call : Call} {s t u : Session}
  {resolved : ResolvedOptions} {parser : Text} {source : Path}

/-- A call that was given a parser and a configuration file has a copy of its own after it. -/
theorem holds_of_run (hcopies : (call.start s).TakesCopies place)
    (hrun : call.run s = .ok resolved t)
    (hchosen : call.options.chosenParser call.command (call.start s) = .ok (.text parser) u)
    (hparser : parser ≠ []) (hsource : call.config.configFile = some source) :
    ∃ fields, (call.start s).Reads source fields ∧ Fits s.temporary (copyName parser) ∧
      resolved.engine.configFile = some (s.temporary.child (copyName parser)) ∧
      Holds place s.temporary (copyName parser).asName (copyFields parser fields) t := by
  obtain ⟨setting, v, hsetting, hcases⟩ := Call.run_eq_ok hcopies hrun
  cases (EStateM.Result.ok.inj (hsetting.symm.trans hchosen)).1
  cases hcases with
  | inl hsame =>
      cases hsame.2 parser rfl with
      | inl hnil => exact absurd hnil hparser
      | inr hnone =>
          rw [hsource] at hnone
          cases hnone
  | inr hwrite =>
      obtain ⟨_, _, fields, hsame, -, hfound, hread, hfile, hfits, hsystem, hchanged, hfind⟩ :=
        hwrite
      cases hsame
      cases hsource.symm.trans hfound
      refine ⟨fields, hread, hfits, hfile, hsystem.temporary, hcopies.stands.changed hchanged, ?_,
        ?_⟩
      · have hconfig := isConfig_of_readConfig hread
        rw [hsystem.host]
        exact isConfig_copyFields hconfig hfits
      · rw [hfind, if_pos rfl]

/-- A name that is written first has another ending than most names. -/
theorem asName_partialName_ne {name other : Text}
    (h : (Utf8.encodeEscaped other).getLast? ≠ (Utf8.encodeEscaped ".partial").getLast?) :
    (partialName s name).asName ≠ other.asName := by
  intro heq
  have hbytes := Text.encodeEscaped_of_asName heq
  have happend : Utf8.encodeEscaped (partialName s name) =
      Utf8.encodeEscaped (name ++ s.stamp) ++ Utf8.encodeEscaped ".partial" :=
    List.flatMap_append
  rw [← hbytes, happend, List.getLast?_append] at h
  exact h rfl

/-- A call that succeeds leaves the directory to the next one if the names that are written first
then are not the name of its copy. -/
theorem takesCopies_next {next : Call} (hcopies : (call.start s).TakesCopies place)
    (hnext : (next.start s).TakesCopies place) (hrun : call.run s = .ok resolved t)
    (hother : ∀ parser,
      call.copyUnder? (partialName (next.start s) (copyName parser)).asName s = none) :
    (next.start t).TakesCopies place := by
  have hleaves := Call.leaves_of_ok hcopies hrun
  refine ⟨?_, fun parser => ?_⟩
  · exact hleaves.system.temporary.symm ▸ hnext.stands.changed hleaves.changed
  · exact (hleaves.kept _ (hother parser) (Or.inr ⟨resolved, hrun⟩)).trans (hnext.free parser)

/-- After all calls the configuration file of a call reads as the last copy that was made under its
name since, and as the one of the call exactly if such a copy has the same fields. -/
theorem reads_after_calls (hspares : Spares place (before ++ .call call :: later) s)
    (hrun : call.run (after before s) = .ok resolved t)
    (hchosen : call.options.chosenParser call.command (call.start (after before s)) =
      .ok (.text parser) u)
    (hparser : parser ≠ []) (hsource : call.config.configFile = some source) :
    ∃ path fields, (call.start (after before s)).Reads source fields ∧
      resolved.engine.configFile = some path ∧
      (after (before ++ .call call :: later) s).Reads path
        ((lastCopy? (copyName parser).asName later t).getD (copyFields parser fields)) ∧
      ((after (before ++ .call call :: later) s).Reads path (copyFields parser fields) ↔
        ∀ copy, lastCopy? (copyName parser).asName later t = some copy →
          copy = copyFields parser fields) := by
  obtain ⟨-, hcall, hlater⟩ := spares_append.1 hspares
  obtain ⟨fields, hread, hfits, hfile, hholds⟩ :=
    holds_of_run hcall hrun hchosen hparser hsource
  have hafter : Step.after (after before s) (.call call) = t := Call.after_of_run hrun
  have hfinal : after (before ++ .call call :: later) s = after later t := by
    rw [after_append, ← hafter]
    rfl
  rw [hafter] at hlater
  have hheld := hholds.run hlater
  have hlast : (after later t).Reads ((after before s).temporary.child (copyName parser))
      ((lastCopy? (copyName parser).asName later t).getD (copyFields parser fields)) :=
    readConfig_child hheld.stands (goesIn_of_leadsDown (leadsDown_copyName parser)) hfits
      hheld.config hheld.entry
  refine ⟨_, fields, hread, hfile, ?_⟩
  rw [hfinal]
  refine ⟨hlast, fun hown copy hcopy => ?_, fun hsame => ?_⟩
  · rw [hcopy, Option.getD_some] at hlast
    exact (EStateM.Result.ok.inj (hlast.symm.trans hown)).1
  · cases hcopy : lastCopy? (copyName parser).asName later t with
    | none =>
        rw [hcopy] at hlast
        exact hlast
    | some copy =>
        rw [hcopy, hsame copy hcopy] at hlast
        exact hlast

/-- A call that asks for a parser, with a configuration file. -/
def asksFor (parser stamp : Text) : Call where
  options := { parser := .text parser }
  command := "lint"
  config := usesBaseConfig
  stamp := stamp

theorem asName_of_asksFor {stamp name : Text} {copy : Json.Fields}
    (h : (asksFor parser stamp).copyUnder? name s = some copy) :
    (copyName parser).asName = name := by
  obtain ⟨_, _, other, _, _, _, -, hchosen, -, hname, -⟩ := Call.copyUnder?_eq_some.1 h
  have hparser : (asksFor parser stamp).options.parser = .text parser := rfl
  cases chosenParser_of_caller hparser hchosen
  exact hname

theorem spares_two {parser other : Text}
    (hlast : (Utf8.encodeEscaped (copyName parser)).getLast? ≠
      (Utf8.encodeEscaped ".partial").getLast?)
    (hrun : (asksFor parser "1").run besideConfigSession = .ok resolved t) :
    Spares ["tmp"] [.call (asksFor parser "1"), .call (asksFor other "2")]
      besideConfigSession := by
  have hcopies : ∀ call : Call, (call.start besideConfigSession).TakesCopies ["tmp"] := fun _ =>
    ⟨takesCopies_besideConfig.stands, fun _ => rfl⟩
  have hafter : (asksFor parser "1").after besideConfigSession = t := Call.after_of_run hrun
  refine ⟨hcopies _, ?_, trivial⟩
  show ((asksFor other "2").start ((asksFor parser "1").after _)).TakesCopies ["tmp"]
  rw [hafter]
  refine takesCopies_next (hcopies _) (hcopies _) hrun fun parser => ?_
  rw [Option.eq_none_iff_forall_ne_some]
  intro copy hcopy
  exact asName_partialName_ne hlast (asName_of_asksFor hcopy).symm

theorem chosenParser_asksFor {stamp : Text} (hrun : (asksFor parser stamp).run s = .ok resolved t) :
    ∃ u, (asksFor parser stamp).options.chosenParser "lint" ((asksFor parser stamp).start s) =
      .ok (.text parser) u := by
  obtain ⟨found, _, hfound, -⟩ := resolve_eq_ok hrun
  obtain ⟨u, hchosen⟩ := chosenParser_of_gather hfound
  have hparser : (asksFor parser stamp).options.parser = .text parser := rfl
  have hsetting : found.parser = .text parser := chosenParser_of_caller hparser hchosen
  rw [hsetting] at hchosen
  exact ⟨u, hchosen⟩

theorem espree_kept : ∃ resolved t path fields,
    (asksFor "espree" "1").run besideConfigSession = .ok resolved t ∧
    ((asksFor "espree" "1").start besideConfigSession).Reads (.absolute ["base.json"]) fields ∧
    resolved.engine.configFile = some path ∧
    (after [.call (asksFor "espree" "1"), .call (asksFor "acorn" "2")] besideConfigSession).Reads
      path (copyFields "espree" fields) := by
  obtain ⟨resolved, t, hrun, -⟩ := exists_of_passes
    ((asksFor "espree" "1").run besideConfigSession) (fun _ => true) (by decide +kernel)
  obtain ⟨u, hchosen⟩ := chosenParser_asksFor hrun
  have hspares : Spares ["tmp"]
      ([] ++ .call (asksFor "espree" "1") :: [.call (asksFor "acorn" "2")])
      besideConfigSession := spares_two (by decide) hrun
  obtain ⟨path, fields, hread, hfile, -, hown⟩ :=
    reads_after_calls hspares hrun hchosen (by decide) rfl
  refine ⟨resolved, t, path, fields, hrun, hread, hfile, hown.2 fun copy hcopy => ?_⟩
  exact absurd (asName_of_asksFor hcopy) (by decide)

/-- Whether the configuration that a call was given reads as one with a parser. -/
def namesParser (parser : Text) (s : Session) (found : ResolvedOptions) : Bool :=
  match found.engine.configFile.map (readConfig · s) with
  | some (.ok fields _) =>
      match Json.Fields.get? "parser" fields with
      | some (.string name) => name = parser
      | _ => false
  | _ => false

/-- The name of a copy does not tell every two parsers apart. -/
theorem slash_parser_replaced : ∃ resolved t u path,
    Spares ["tmp"] [.call (asksFor "a/b" "1"), .call (asksFor "a_b" "2")] besideConfigSession ∧
    (asksFor "a/b" "1").run besideConfigSession = .ok resolved t ∧
    (asksFor "a/b" "1").options.chosenParser "lint"
      ((asksFor "a/b" "1").start besideConfigSession) = .ok (.text "a/b") u ∧
    resolved.engine.configFile = some path ∧
    ∀ fields, ¬(after [.call (asksFor "a/b" "1"), .call (asksFor "a_b" "2")]
      besideConfigSession).Reads path (copyFields "a/b" fields) := by
  obtain ⟨resolved, t, hrun, htest⟩ := exists_of_passes
    ((asksFor "a/b" "1").run besideConfigSession)
    (namesParser "a_b"
      (after [.call (asksFor "a/b" "1"), .call (asksFor "a_b" "2")] besideConfigSession))
    (by decide +kernel)
  rw [namesParser] at htest
  obtain ⟨u, hchosen⟩ := chosenParser_asksFor hrun
  split at htest
  next found v hfound =>
    obtain ⟨path, hfile, hread⟩ := Option.map_eq_some_iff.1 hfound
    refine ⟨resolved, t, u, path, spares_two (by decide) hrun, hrun, hchosen, hfile, ?_⟩
    intro fields hreads
    cases (EStateM.Result.ok.inj (hread.symm.trans hreads)).1
    rw [copyFields, Json.Fields.get?_set, if_pos rfl] at htest
    exact absurd htest (by decide)
  next => cases htest

end Run
end ProjectLint
