import ProjectLint.Proofs.Discovery.Found
import ProjectLint.Proofs.Lint.Effects

/-!
Finding the files of a call on another host. Options are put together from the files and their
documents, so it matters only that the host reads the same documents. Of what the searches come to a
host decides which failure is met first. Main statement: where the documents are the same a call
selects the same files on every host, and fails for the same reason, unless searches for several of
its patterns fail and do not end in the same order.
-/

namespace ProjectLint

open ProjectLint.Action

/-- The session as it is on another host. -/
def Session.on (session : Session) (host : Host) : Session :=
  { session with host }

theorem Session.on_host (s : Session) : s.on s.host = s :=
  rfl

namespace Action

variable {α β : Type} {host : Host} {s : Session}

/-- What an action comes to, with the session that it leaves as it is on another host. -/
def onHost (host : Host) : EStateM.Result Failure Session α → EStateM.Result Failure Session α
  | .ok x session => .ok x (session.on host)
  | .error failure session => .error failure (session.on host)

/-- Whether an action comes to the same on another host. -/
def SameOn (a : Action α) (host : Host) (s : Session) : Prop :=
  a (s.on host) = onHost host (a s)

theorem Observes.sameOn {a : Action α} (ha : Observes a) (h : s.SameFiles (s.on host)) :
    SameOn a host s := by
  obtain ⟨⟨result, notes⟩, hseen⟩ := ha s
  rw [SameOn, hseen s ⟨rfl, rfl⟩, hseen (s.on host) h]
  cases result <;> rfl

theorem sameOn_bind {a : Action α} {f : α → Action β} (ha : SameOn a host s)
    (hf : ∀ x t, a s = .ok x t → SameOn (f x) host t) : SameOn (a >>= f) host s := by
  rw [SameOn, bind_apply, bind_apply, ha]
  cases h : a s with
  | ok x t => exact hf x t h
  | error failure t => rfl

theorem SameOn.eq_ok {a : Action α} (ha : SameOn a host s) {x : α} {t : Session}
    (h : a s = .ok x t) : a (s.on host) = .ok x (t.on host) := by
  rw [ha, h]
  rfl

theorem SameOn.eq_error {a : Action α} (ha : SameOn a host s) {failure : Failure} {t : Session}
    (h : a s = .error failure t) : a (s.on host) = .error failure (t.on host) := by
  rw [ha, h]
  rfl

/-- An action leaves the host as it is if it comes to the same on that host. -/
theorem SameOn.host_eq {a : Action α} (ha : SameOn a s.host s) {x : α} {t : Session}
    (h : a s = .ok x t) : t.host = s.host := by
  have hcarried := ha.eq_ok h
  rw [Session.on_host, h] at hcarried
  injection hcarried with _ ht
  rw [ht]
  rfl

end Action

variable {host : Host} {s : Session}

namespace ParserFile

theorem sameOn_writeAtomically (name : Text) (content : Utf8.Bytes) :
    SameOn (writeAtomically name content) host s := by
  have hpartial : partialPath (s.on host) name = partialPath s name := rfl
  have hfiles : (s.on host).files = s.files := rfl
  have htemporary : (s.on host).temporary = s.temporary := rfl
  rw [SameOn, writeAtomically_eq, writeAtomically_eq, hpartial, hfiles, htemporary]
  cases s.files.writeFile (partialPath s name) content with
  | error fault => rfl
  | ok files =>
      dsimp only
      cases files.isDirectory (s.temporary.child name) with
      | error errno => rfl
      | ok found =>
          cases found with
          | true => rfl
          | false =>
              dsimp only
              cases files.move (partialPath s name) (s.temporary.child name) <;> rfl

theorem sameOn_choose (config : EngineConfig) (parser : Setting)
    (h : s.SameFiles (s.on host)) : SameOn (choose config parser) host s := by
  rw [choose]
  cases config.configFile with
  | none => exact (observes_pure _).sameOn h
  | some path =>
      refine sameOn_bind ?_ fun _ _ _ => rfl
      cases parser with
      | text parser =>
          refine sameOn_bind ((observes_readConfig path).sameOn h) fun fields t _ => ?_
          refine sameOn_bind (sameOn_writeAtomically _ _) fun goal u _ => ?_
          exact sameOn_bind rfl fun _ _ _ => rfl
      | unset | other _ =>
          exact sameOn_bind ((observes_readConfig path).sameOn h) fun _ _ _ => rfl

end ParserFile

/-- Options are put together alike on every host that reads the same documents. -/
theorem LintOptions.sameOn_resolve (options : LintOptions) (command : Text) (config : EngineConfig)
    (h : s.SameFiles (s.on host)) : SameOn (options.resolve command config) host s := by
  rw [resolve_eq_gather]
  refine sameOn_bind ((observes_gather options command).sameOn h) fun found t hfound => ?_
  refine sameOn_bind ?_ fun _ _ _ => rfl
  rw [withParser]
  split
  · rfl
  · refine ParserFile.sameOn_choose config found.parser ?_
    obtain ⟨notes, rfl⟩ := (observes_gather options command).session_eq hfound
    exact ⟨h.files, h.document⟩

/-- A search from a directory comes to the same on another host, or several of its patterns fail and
these searches end in another order there. -/
theorem Discovery.find_on (directory : Path) (set : IgnoreSet) (patterns : List Pattern)
    (host : Host) (s : Session) :
    SameOn (find directory set patterns) host s ∨
      ∃ canonical first second, s.host.finishing ≠ host.finishing ∧
        s.files.resolve directory = .ok canonical ∧
        find directory set patterns s = .error first s ∧
        find directory set patterns (s.on host) = .error second (s.on host) ∧
        Fails (scopeIn s set canonical) patterns first ∧
        Fails (scopeIn s set canonical) patterns second := by
  have hfiles : (s.on host).files = s.files := rfl
  rw [SameOn, find_apply, find_apply, hfiles]
  cases s.files.resolve directory with
  | error fault => exact Or.inl rfl
  | ok canonical =>
      have hscope : scopeIn (s.on host) set canonical = scopeIn s set canonical := rfl
      have hfinishing : (s.on host).host.finishing = host.finishing := rfl
      dsimp only
      rw [hscope, hfinishing]
      by_cases hsame : s.host.finishing = host.finishing
      · rw [hsame]
        refine Or.inl ?_
        cases discover (scopeIn s set canonical) host.finishing patterns <;> rfl
      · rcases discover_of_other (scopeIn s set canonical) s.host.finishing host.finishing patterns
          with hother | ⟨first, second, hfirst, hsecond, hfails⟩
        · rw [hother]
          refine Or.inl ?_
          cases discover (scopeIn s set canonical) s.host.finishing patterns <;> rfl
        · rw [hfirst, hsecond]
          exact Or.inr ⟨canonical, first, second, hsame, rfl, rfl, rfl, hfails⟩

namespace Linter

/-- Whether the search for one of the patterns of a call fails for a reason. -/
def SearchFails (patterns : Patterns) (resolved : ResolvedOptions) (s : Session)
    (failure : Failure) : Prop :=
  ∃ listed directory, patterns.toList = .ok listed ∧
    s.files.resolve resolved.directory = .ok directory ∧
    Discovery.Fails (Discovery.scopeIn s resolved.ignored directory) (searched listed) failure

/-- The files of a call are found alike on another host, or searches fail that end in another order
there. -/
theorem findFiles_on (patterns : Patterns) (resolved : ResolvedOptions) (host : Host)
    (s : Session) :
    SameOn (findFiles patterns resolved) host s ∨
      ∃ first second, s.host.finishing ≠ host.finishing ∧
        findFiles patterns resolved s = .error first s ∧
        findFiles patterns resolved (s.on host) = .error second (s.on host) ∧
        SearchFails patterns resolved s first ∧ SearchFails patterns resolved s second := by
  cases hlisted : patterns.toList with
  | error failure =>
      refine Or.inl ?_
      rw [findFiles, hlisted]
      rfl
  | ok listed =>
      have hfiles : findFiles patterns resolved = findListed listed resolved := by
        rw [findFiles, hlisted]
        rfl
      rw [hfiles]
      rcases Discovery.find_on resolved.directory resolved.ignored (searched listed) host s with
        hfound | ⟨canonical, first, second, hother, hresolve, hfirst, hsecond, hfails⟩
      · exact Or.inl (sameOn_bind hfound fun _ _ _ => rfl)
      · refine Or.inr ⟨first, second, hother, ?_, ?_,
          ⟨listed, canonical, hlisted, hresolve, hfails.1⟩,
          ⟨listed, canonical, hlisted, hresolve, hfails.2⟩⟩
        · rw [findListed, bind_apply, hfirst]
        · rw [findListed, bind_apply, hsecond]

/-- A call selects the same files on every host that reads the same documents and fails there for
the same reason, unless searches fail that end in another order there. -/
theorem select_on (linter : Linter) (patterns : Patterns) (options : LintOptions) {host : Host}
    {s : Session} (h : s.SameFiles (s.on host)) :
    SameOn (linter.select patterns options) host s ∨
      ∃ resolved t first second, s.host.finishing ≠ host.finishing ∧
        linter.resolve options s = .ok resolved t ∧
        linter.select patterns options s = .error first t ∧
        linter.select patterns options (s.on host) = .error second (t.on host) ∧
        SearchFails patterns resolved t first ∧ SearchFails patterns resolved t second := by
  have hsame : SameOn (linter.resolve options) host s :=
    LintOptions.sameOn_resolve options linter.command linter.config h
  cases hresolved : linter.resolve options s with
  | error failure t =>
      refine Or.inl (sameOn_bind hsame fun resolved u hother => ?_)
      cases hresolved.symm.trans hother
  | ok resolved t =>
      rcases findFiles_on patterns resolved host t with
        hfound | ⟨first, second, hother, hfirst, hsecond, hfails⟩
      · refine Or.inl (sameOn_bind hsame fun other u hother => ?_)
        cases hresolved.symm.trans hother
        exact sameOn_bind hfound fun _ _ _ => rfl
      · have hhost : t.host = s.host :=
          SameOn.host_eq (LintOptions.sameOn_resolve options _ _ ⟨rfl, rfl⟩) hresolved
        refine Or.inr ⟨resolved, t, first, second, hhost ▸ hother, rfl, ?_, ?_, hfails⟩
        · rw [select, bind_apply, hresolved]
          dsimp only
          rw [bind_apply, hfirst]
        · rw [select, bind_apply, hsame.eq_ok hresolved]
          dsimp only
          rw [bind_apply, hsecond]

theorem host_of_select {linter : Linter} {patterns : Patterns} {options : LintOptions}
    {found : ResolvedOptions × List Path} {s t : Session}
    (h : linter.select patterns options s = .ok found t) : t.host = s.host := by
  have hsame : s.SameFiles (s.on s.host) := ⟨rfl, rfl⟩
  rcases select_on linter patterns options hsame with hsame | ⟨_, _, _, _, hother, _⟩
  · exact hsame.host_eq h
  · exact absurd rfl hother

end Linter
end ProjectLint
