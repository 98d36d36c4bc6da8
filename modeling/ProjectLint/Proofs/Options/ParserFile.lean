import ProjectLint.Proofs.Options.Gather

/-!
Writing the copy of a configuration file, step by step. Only this part of a call changes files.
-/

namespace ProjectLint.ParserFile

open ProjectLint.Action

/-- The path under which a copy is written first. -/
def partialPath (session : Session) (name : Text) : Path :=
  session.temporary.child (name ++ session.stamp ++ (".partial" : Text))

theorem writeAtomically_eq (name : Text) (content : Utf8.Bytes) (session : Session) :
    writeAtomically name content session =
      match session.files.writeFile (partialPath session name) content with
      | .error fault => .error (.ofPathFault (partialPath session name).toText fault) session
      | .ok files =>
          match files.isDirectory (session.temporary.child name) with
          | .error errno =>
              .error (.refused errno (session.temporary.child name).toText) { session with files }
          | .ok true =>
              .error (.destinationIsDirectory (session.temporary.child name).toText)
                { session with files }
          | .ok false =>
              match files.move (partialPath session name) (session.temporary.child name) with
              | .error fault =>
                  .error (.ofPathFault (session.temporary.child name).toText fault)
                    { session with files }
              | .ok moved => .ok (session.temporary.child name) { session with files := moved } := by
  simp only [writeAtomically, get_bind_apply, ← partialPath.eq_def]
  cases session.files.writeFile (partialPath session name) content with
  | error fault => rfl
  | ok files =>
      simp only [set, MonadStateOf.set]
      cases files.isDirectory (session.temporary.child name) with
      | error errno => rfl
      | ok found =>
          cases found with
          | true => rfl
          | false =>
              simp only
              cases files.move (partialPath session name) (session.temporary.child name) with
              | error fault => rfl
              | ok moved => rfl

/-- What can come of writing a file by way of another one: nothing is written, or only the other file
is, or it is moved to the goal. -/
theorem writeAtomically_cases (name : Text) (content : Utf8.Bytes) (s : Session) :
    (∃ failure, writeAtomically name content s = .error failure s) ∨
    ∃ files, s.files.writeFile (partialPath s name) content = .ok files ∧
      ((∃ failure, writeAtomically name content s = .error failure { s with files }) ∨
      ∃ moved, files.move (partialPath s name) (s.temporary.child name) = .ok moved ∧
        writeAtomically name content s =
          .ok (s.temporary.child name) { s with files := moved }) := by
  simp only [writeAtomically_eq]
  cases s.files.writeFile (partialPath s name) content with
  | error fault => exact Or.inl ⟨_, rfl⟩
  | ok files =>
      refine Or.inr ⟨files, rfl, ?_⟩
      simp only
      cases files.isDirectory (s.temporary.child name) with
      | error errno => exact Or.inl ⟨_, rfl⟩
      | ok found =>
          cases found with
          | true => exact Or.inl ⟨_, rfl⟩
          | false =>
              simp only
              cases files.move (partialPath s name) (s.temporary.child name) with
              | error fault => exact Or.inl ⟨_, rfl⟩
              | ok moved => exact Or.inr ⟨moved, rfl, rfl⟩

theorem observes_readConfig (path : Path) : Observes (readConfig path) := by
  refine observes_get (fun s t h => by rw [h.document]) fun s => ?_
  split
  · exact observes_throw _
  · exact observes_throw _
  · exact observes_throw _
  · exact observes_throw _
  · exact observes_throw _
  · exact observes_pure _
  · exact observes_throw _

theorem silent_writeAtomically (name : Text) (content : Utf8.Bytes) :
    Silent (writeAtomically name content) := by
  intro session
  refine ⟨[], ?_, by simp⟩
  rw [leaves, List.append_nil]
  obtain ⟨_, h⟩ | ⟨_, -, ⟨_, h⟩ | ⟨_, -, h⟩⟩ := writeAtomically_cases name content session <;>
    rw [h]

theorem silent_write (path : Path) (parser : Text) : Silent (write path parser) := by
  refine shows_bind ((observes_readConfig path).shows _) fun fields => ?_
  refine shows_bind (silent_writeAtomically _ _) fun goal => ?_
  exact shows_bind ((observes_note _).shows _) fun _ => (observes_pure goal).shows _

theorem silent_writeSetting (path : Path) (parser : Setting) :
    Silent (writeSetting path parser) := by
  cases parser with
  | text parser => exact silent_write path parser
  | unset | other _ =>
      exact shows_bind ((observes_readConfig path).shows _) fun _ => (observes_throw _).shows _

theorem silent_choose (config : EngineConfig) (parser : Setting) :
    Silent (choose config parser) := by
  rw [choose]
  cases config.configFile with
  | none => exact (observes_pure _).shows _
  | some path =>
      exact shows_bind (silent_writeSetting path parser) fun _ => (observes_pure _).shows _

end ProjectLint.ParserFile

namespace ProjectLint.LintOptions

open ProjectLint.Action

theorem silent_withParser (config : EngineConfig) (parser : Setting) :
    Silent (withParser config parser) := by
  rw [withParser]
  split
  · exact (observes_pure _).shows _
  · exact ParserFile.silent_choose config parser

/-- Putting the options of a call together shows nothing outside. -/
theorem silent_resolve (options : LintOptions) (command : Text) (config : EngineConfig) :
    Silent (options.resolve command config) := by
  rw [resolve_eq_gather]
  refine shows_bind ((observes_gather options command).shows _) fun found => ?_
  exact shows_bind (silent_withParser config found.parser) fun _ => (observes_pure _).shows _

/-- The directory and the sources of a call are those that were gathered. -/
theorem resolve_eq_ok {options : LintOptions} {command : Text} {config : EngineConfig}
    {s t : Session} {resolved : ResolvedOptions}
    (h : options.resolve command config s = .ok resolved t) :
    ∃ found u, options.gather command s = .ok found u ∧ resolved.directory = found.directory ∧
      resolved.ignored = found.ignored ∧
      withParser config found.parser u = .ok resolved.engine t := by
  rw [resolve_eq_gather] at h
  obtain ⟨found, u, hfound, h⟩ := bind_eq_ok.1 h
  obtain ⟨engine, v, hengine, h⟩ := bind_eq_ok.1 h
  obtain ⟨rfl, rfl⟩ := pure_eq_ok.1 h
  exact ⟨found, u, hfound, rfl, rfl, hengine⟩

end ProjectLint.LintOptions
