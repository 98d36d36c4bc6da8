import ProjectLint.Lint
import ProjectLint.Proofs.Discovery.Found
import ProjectLint.Proofs.Engine.Run
import ProjectLint.Proofs.Options.ParserFile

/-!
Linting a text in sessions that are alike. It looks at the files and at the outcomes that are
prepared for the engine, never at what has been recorded before. Main statements: in sessions that
differ in the record only it gives the same, and in sessions that also differ in one prepared
outcome it gives the same or uses that outcome up.
-/

namespace ProjectLint

open ProjectLint.Action

/-- Sessions with the same files on the same host, whose prepared outcomes and whose events are
related. The notes may be any. -/
structure Session.Alike (outcomes : List EngineOutcome → List EngineOutcome → Prop)
    (events : List Event → List Event → Prop) (s t : Session) : Prop where
  files : t.files = s.files
  temporary : t.temporary = s.temporary
  stamp : t.stamp = s.stamp
  unreadable : t.unreadable = s.unreadable
  host : t.host = s.host
  outcomes : outcomes s.outcomes t.outcomes
  events : events s.events t.events

/-- Sessions that differ in the record only. -/
def Session.SameWorld (s t : Session) : Prop :=
  Alike Eq (fun _ _ => True) s t

variable {outcomes : List EngineOutcome → List EngineOutcome → Prop}
  {events : List Event → List Event → Prop}

theorem Session.Alike.sameFiles {s t : Session} (h : Alike outcomes events s t) :
    s.SameFiles t where
  files := h.files
  document := by
    funext path
    rw [document, document, h.files, h.host]

theorem Action.Observes.respects {α : Type} {a : Action α} (ha : Observes a) :
    Respects a (Session.Alike outcomes events) := by
  intro s t h
  obtain ⟨⟨result, notes⟩, hseen⟩ := ha s
  rw [gives, gives, leaves, leaves, hseen s ⟨rfl, rfl⟩, hseen t h.sameFiles]
  cases result with
  | ok x => exact ⟨rfl, h.files, h.temporary, h.stamp, h.unreadable, h.host, h.outcomes, h.events⟩
  | error failure =>
      exact ⟨rfl, h.files, h.temporary, h.stamp, h.unreadable, h.host, h.outcomes, h.events⟩

/-- An action that respects every relation between prepared outcomes leaves them as they are. -/
theorem Action.outcomes_eq {α : Type} {a : Action α} {s t : Session} {x : α}
    (ha : ∀ outcomes, Respects a (Session.Alike outcomes fun _ _ => True)) (h : a s = .ok x t) :
    t.outcomes = s.outcomes := by
  have halike := (ha (fun prepared _ => prepared = s.outcomes) s s
    ⟨rfl, rfl, rfl, rfl, rfl, rfl, trivial⟩).2.outcomes
  rwa [leaves, h] at halike

namespace ParserFile

theorem respects_writeAtomically (name : Text) (content : Utf8.Bytes) :
    Respects (writeAtomically name content) (Session.Alike outcomes events) := by
  rintro s ⟨files, temporary, stamp, unreadable, host, prepared, notes, shown⟩ h
  obtain ⟨rfl, rfl, rfl, rfl, rfl, houtcomes, hevents⟩ := h
  rw [gives, gives, leaves, leaves, writeAtomically_eq, writeAtomically_eq]
  have hpartial : partialPath
      ⟨s.files, s.temporary, s.stamp, s.unreadable, s.host, prepared, notes, shown⟩ name =
        partialPath s name := rfl
  simp only [hpartial]
  cases s.files.writeFile (partialPath s name) content with
  | error fault => exact ⟨rfl, rfl, rfl, rfl, rfl, rfl, houtcomes, hevents⟩
  | ok files =>
      simp only
      cases files.isDirectory (s.temporary.child name) with
      | error errno => exact ⟨rfl, rfl, rfl, rfl, rfl, rfl, houtcomes, hevents⟩
      | ok found =>
          cases found with
          | true => exact ⟨rfl, rfl, rfl, rfl, rfl, rfl, houtcomes, hevents⟩
          | false =>
              simp only
              cases files.move (partialPath s name) (s.temporary.child name) with
              | error fault => exact ⟨rfl, rfl, rfl, rfl, rfl, rfl, houtcomes, hevents⟩
              | ok moved => exact ⟨rfl, rfl, rfl, rfl, rfl, rfl, houtcomes, hevents⟩

theorem respects_writeSetting (path : Path) (parser : Setting) :
    Respects (writeSetting path parser) (Session.Alike outcomes events) := by
  cases parser with
  | text parser =>
      refine respects_bind (observes_readConfig path).respects fun fields => ?_
      refine respects_bind (respects_writeAtomically _ _) fun goal => ?_
      exact respects_bind (observes_note _).respects fun _ => (observes_pure goal).respects
  | unset | other _ =>
      exact respects_bind (observes_readConfig path).respects fun _ => (observes_throw _).respects

theorem respects_choose (config : EngineConfig) (parser : Setting) :
    Respects (choose config parser) (Session.Alike outcomes events) := by
  rw [choose]
  cases config.configFile with
  | none => exact (observes_pure _).respects
  | some path =>
      exact respects_bind (respects_writeSetting path parser) fun _ => (observes_pure _).respects

end ParserFile

theorem LintOptions.respects_resolve (options : LintOptions) (command : Text)
    (config : EngineConfig) :
    Respects (options.resolve command config) (Session.Alike outcomes events) := by
  rw [resolve_eq_gather]
  refine respects_bind (observes_gather options command).respects fun found => ?_
  refine respects_bind ?_ fun _ => (observes_pure _).respects
  rw [withParser]
  split
  · exact (observes_pure _).respects
  · exact ParserFile.respects_choose config found.parser

namespace Linter

theorem executeOnText_of_eslint {linter : Linter} (hengine : linter.engine = .eslint)
    (config : EngineConfig) (text : Text) :
    linter.executeOnText config text =
      Engine.run config (config.baseCommand ++ [("--stdin" : Text)]) (some text) := by
  rw [executeOnText, hengine]
  simp only [Engine.runOnText, List.append_nil]

/-- Either nothing is started for a text, or the engine is started once and its outcome is
reported. -/
theorem executeOnText_cases (linter : Linter) (config : EngineConfig) (text : Text) :
    Observes (linter.executeOnText config text) ∨
      ∃ command input, ∀ s : Session,
        (linter.executeOnText config text).gives s =
            Engine.report s.host.nesting config.executable (s.outcomes.headD .quiet) ∧
          (linter.executeOnText config text).leaves s =
            { s with
              outcomes := s.outcomes.tail
              notes := s.notes ++ [.engineStarting command]
              events := s.events ++ [.engineStarted command input] } := by
  cases hengine : linter.engine with
  | other onText onFiles =>
      rw [executeOnText, hengine]
      exact Or.inl (observes_lift _)
  | eslint =>
      rw [executeOnText_of_eslint hengine]
      cases hparser : config.parser.isUnusable with
      | true =>
          rw [Engine.run_of_isUnusable hparser]
          exact Or.inl (observes_throw _)
      | false =>
          refine Or.inr ⟨config.baseCommand ++ [("--stdin" : Text)], some text, fun s => ?_⟩
          exact ⟨Engine.gives_run hparser _ _ s, Engine.leaves_run hparser _ _ s⟩

/-- Whether an event is a start of the engine. -/
def IsEngineStart (event : Event) : Prop :=
  ∃ command input, event = .engineStarted command input

theorem shows_lintText (linter : Linter) (text : Text) (options : LintOptions) :
    Shows (linter.lintText text options) IsEngineStart := by
  have hresolve : Silent (linter.resolve options) :=
    LintOptions.silent_resolve options linter.command linter.config
  refine shows_bind (fun s => ?_) fun resolved => ?_
  · exact ⟨[], by rw [hresolve.leaves_events s, List.append_nil], by simp⟩
  · rcases linter.executeOnText_cases resolved.engine text with hobserves | ⟨_, _, hruns⟩
    · exact hobserves.shows _
    · exact fun s => ⟨_, by rw [(hruns s).2], by simp [IsEngineStart]⟩

/-- What linting a text gives does not depend on the record. -/
theorem respects_lintText (linter : Linter) (text : Text) (options : LintOptions)
    (hevents : ∀ xs ys event, events xs ys → events (xs ++ [event]) (ys ++ [event])) :
    Respects (linter.lintText text options) (Session.Alike Eq events) := by
  refine respects_bind (LintOptions.respects_resolve options _ _) fun resolved => ?_
  rcases linter.executeOnText_cases resolved.engine text with hobserves | ⟨_, _, hruns⟩
  · exact hobserves.respects
  · intro s t h
    rw [(hruns s).1, (hruns s).2, (hruns t).1, (hruns t).2, ← h.outcomes, h.host]
    exact ⟨rfl, h.files, h.temporary, h.stamp, h.unreadable, rfl, rfl, hevents _ _ _ h.events⟩

/-- Prepared outcomes that are the same but for one, with the rest after it. -/
def DifferAt (outcome other : EngineOutcome) (rest outcomes others : List EngineOutcome) : Prop :=
  ∃ used, outcomes = used ++ outcome :: rest ∧ others = used ++ other :: rest

/-- Where one prepared outcome differs linting a text gives the same, or it uses that outcome up. -/
theorem lintText_of_differAt {outcome other : EngineOutcome} {rest : List EngineOutcome}
    (linter : Linter) (text : Text) (options : LintOptions) {s t : Session}
    (h : Session.Alike (DifferAt outcome other rest) events s t)
    (hevents : ∀ xs ys event, events xs ys → events (xs ++ [event]) (ys ++ [event])) :
    ((linter.lintText text options).gives t = (linter.lintText text options).gives s ∧
        Session.Alike (DifferAt outcome other rest) events
          ((linter.lintText text options).leaves s) ((linter.lintText text options).leaves t)) ∨
      s.outcomes = outcome :: rest ∧ ((linter.lintText text options).leaves s).outcomes = rest ∧
        Session.Alike Eq events ((linter.lintText text options).leaves s)
          ((linter.lintText text options).leaves t) := by
  rw [lintText, gives_bind, gives_bind, leaves_bind, leaves_bind]
  have hresolve : Respects (linter.resolve options)
      (Session.Alike (DifferAt outcome other rest) events) :=
    LintOptions.respects_resolve options linter.command linter.config
  rcases hresolve.cases h with ⟨resolved, u, v, hs, ht, halike⟩ | ⟨_, u, v, hs, ht, halike⟩
  · have hprepared : u.outcomes = s.outcomes := outcomes_eq
      (fun _ => LintOptions.respects_resolve options linter.command linter.config) hs
    simp only [hs, ht]
    rcases linter.executeOnText_cases resolved.engine text with hobserves | ⟨_, _, hruns⟩
    · exact Or.inl (hobserves.respects u v halike)
    · rw [(hruns u).1, (hruns u).2, (hruns v).1, (hruns v).2, halike.host]
      obtain ⟨used, hu, hv⟩ := halike.outcomes
      rw [← hprepared, hu, hv]
      cases used with
      | nil =>
          exact Or.inr ⟨rfl, rfl, halike.files, halike.temporary, halike.stamp, halike.unreadable,
            rfl, rfl, hevents _ _ _ halike.events⟩
      | cons first used =>
          exact Or.inl ⟨rfl, halike.files, halike.temporary, halike.stamp, halike.unreadable,
            rfl, ⟨used, rfl, rfl⟩, hevents _ _ _ halike.events⟩
  · rw [hs, ht]
    exact Or.inl ⟨rfl, halike⟩

end Linter

end ProjectLint
