import ProjectLint.Engine.Run
import ProjectLint.Proofs.Action

/-!
What a run of an engine comes to. Main statements: a parser that cannot stand in a command ends a
run before the engine is started; any other run starts it exactly once, takes the first outcome that
is prepared, and gives what that outcome is reported as.
-/

namespace ProjectLint.Engine

open ProjectLint.Action

theorem start_eq (command : List Text) (input : Option Text) (s : Session) :
    start command input s = .ok (s.outcomes.headD .quiet)
      { s with outcomes := s.outcomes.tail, events := s.events ++ [.engineStarted command input] }
    := by
  obtain ⟨files, temporary, stamp, unreadable, host, outcomes, notes, shown⟩ := s
  cases outcomes <;> rfl

/-- The session after a start of the engine that is noted. -/
def afterRun (command : List Text) (input : Option Text) (s : Session) : Session :=
  { s with
    outcomes := s.outcomes.tail
    notes := s.notes ++ [.engineStarting command]
    events := s.events ++ [.engineStarted command input] }

variable {config : EngineConfig}

theorem run_of_isUnusable (h : config.parser.isUnusable = true) (command : List Text)
    (input : Option Text) : run config command input = throw .notText := by
  rw [run, h]
  rfl

/-- A run starts the engine once and reports the outcome that it meets. -/
theorem run_eq (h : config.parser.isUnusable = false) (command : List Text) (input : Option Text)
    (s : Session) : run config command input s =
      match report s.host.nesting config.executable (s.outcomes.headD .quiet) with
      | .ok found => .ok found (afterRun command input s)
      | .error failure => .error failure (afterRun command input s) := by
  have hrun : run config command input = (do
      Action.note (.engineStarting command)
      let outcome ← start command input
      Action.lift (report (← get).host.nesting config.executable outcome)) := by
    rw [run, h]
    rfl
  have hnote : Action.note (.engineStarting command) s =
      .ok () { s with notes := s.notes ++ [.engineStarting command] } := rfl
  have hget : ∀ t, (get : Action Session) t = .ok t t := fun _ => rfl
  rw [hrun, bind_apply, hnote]
  simp only [bind_apply, start_eq, hget]
  cases report s.host.nesting config.executable (s.outcomes.headD .quiet) <;> rfl

theorem gives_run (h : config.parser.isUnusable = false) (command : List Text)
    (input : Option Text) (s : Session) :
    (run config command input).gives s =
      report s.host.nesting config.executable (s.outcomes.headD .quiet) := by
  rw [gives, run_eq h]
  cases report s.host.nesting config.executable (s.outcomes.headD .quiet) <;> rfl

theorem leaves_run (h : config.parser.isUnusable = false) (command : List Text)
    (input : Option Text) (s : Session) :
    (run config command input).leaves s = afterRun command input s := by
  rw [leaves, run_eq h]
  cases report s.host.nesting config.executable (s.outcomes.headD .quiet) <;> rfl

/-- All that a run shows is its start of the engine. -/
theorem shows_run {command : List Text} {input : Option Text} {shown : Event → Prop}
    (h : shown (.engineStarted command input)) : Shows (run config command input) shown := by
  cases hparser : config.parser.isUnusable with
  | true =>
      rw [run_of_isUnusable hparser]
      exact (observes_throw _).shows _
  | false =>
      intro s
      refine ⟨[.engineStarted command input], ?_, List.forall_mem_singleton.2 h⟩
      rw [leaves_run hparser]
      rfl

end ProjectLint.Engine
