import ProjectLint.Glob.Expand

/-!
What is kept of the paths that an expansion reached. Each path is looked at by itself: it is
dropped, it is kept in its canonical form, or it ends the expansion. Main statements: if the
expansion ends well then the canonical forms of exactly those files are kept that are not ignored,
and otherwise it fails for one of the paths.
-/

namespace ProjectLint.Glob

variable {scope : Scope} {path file : Path} {paths kept : List Path} {failure : Failure}

/-- What becomes of one path that an expansion reached: a file that is kept, or nothing. -/
def keepOne (scope : Scope) (path : Path) : Except Failure (Option Path) :=
  match scope.files.isFile path with
  | .error errno => .error (.refused errno (some path.toText))
  | .ok false => .ok none
  | .ok true =>
      match scope.ignored.ignoresWhileGlobbing scope.viewpoint path with
      | .error failure => .error failure
      | .ok true => .ok none
      | .ok false =>
          match scope.files.resolve path with
          | .error fault => .error (Failure.ofResolveFault fault)
          | .ok resolved => .ok (some resolved)

theorem keepOne_eq_some : keepOne scope path = .ok (some file) ↔
    scope.files.isFile path = .ok true ∧
      scope.ignored.ignoresWhileGlobbing scope.viewpoint path = .ok false ∧
        scope.files.resolve path = .ok file := by
  rw [keepOne]
  cases scope.files.isFile path with
  | error errno => simp
  | ok found =>
      cases found with
      | false => simp
      | true =>
          cases scope.ignored.ignoresWhileGlobbing scope.viewpoint path with
          | error failure => simp
          | ok ignored =>
              cases ignored with
              | true => simp
              | false => cases scope.files.resolve path <;> simp

/-- A path ends an expansion if it is not known to be a file, or to be ignored, or if it has no
canonical form. -/
theorem keepOne_eq_error : keepOne scope path = .error failure ↔
    (∃ errno, scope.files.isFile path = .error errno ∧
      failure = .refused errno (some path.toText)) ∨
    scope.files.isFile path = .ok true ∧
      (scope.ignored.ignoresWhileGlobbing scope.viewpoint path = .error failure ∨
        scope.ignored.ignoresWhileGlobbing scope.viewpoint path = .ok false ∧
          ∃ fault, scope.files.resolve path = .error fault ∧
            failure = Failure.ofResolveFault fault) := by
  rw [keepOne]
  cases scope.files.isFile path with
  | error errno => simp [eq_comm]
  | ok found =>
      cases found with
      | false => simp
      | true =>
          cases scope.ignored.ignoresWhileGlobbing scope.viewpoint path with
          | error failure => simp
          | ok ignored =>
              cases ignored with
              | true => simp
              | false => cases scope.files.resolve path <;> simp [eq_comm]

/-- The file that is kept for a path, if there is one. -/
def kept? (scope : Scope) (path : Path) : Option Path :=
  match keepOne scope path with
  | .ok kept => kept
  | .error _ => none

theorem kept?_of_keepOne {one : Option Path} (h : keepOne scope path = .ok one) :
    kept? scope path = one := by
  rw [kept?, h]

theorem kept?_eq_some : kept? scope path = some file ↔ keepOne scope path = .ok (some file) := by
  rw [kept?]
  cases keepOne scope path <;> simp

theorem keepFiles_cons (path : Path) (paths : List Path) :
    keepFiles scope (path :: paths) =
      match keepOne scope path with
      | .error failure => .error failure
      | .ok none => keepFiles scope paths
      | .ok (some resolved) =>
          match keepFiles scope paths with
          | .error failure => .error failure
          | .ok kept => .ok (resolved :: kept) := by
  rw [keepFiles, keepOne]
  cases scope.files.isFile path with
  | error errno => rfl
  | ok found =>
      cases found with
      | false => rfl
      | true =>
          simp only
          cases scope.ignored.ignoresWhileGlobbing scope.viewpoint path with
          | error failure => rfl
          | ok ignored =>
              cases ignored with
              | true => rfl
              | false =>
                  simp only
                  cases scope.files.resolve path <;> rfl

theorem keepFiles_cons_eq_ok : keepFiles scope (path :: paths) = .ok kept ↔
    ∃ one others, keepOne scope path = .ok one ∧ keepFiles scope paths = .ok others ∧
      kept = one.toList ++ others := by
  rw [keepFiles_cons]
  cases keepOne scope path with
  | error failure => simp
  | ok one =>
      cases one with
      | none => simp
      | some file => cases keepFiles scope paths <;> simp [eq_comm]

theorem keepFiles_cons_eq_error : keepFiles scope (path :: paths) = .error failure ↔
    keepOne scope path = .error failure ∨
      (∃ one, keepOne scope path = .ok one) ∧ keepFiles scope paths = .error failure := by
  rw [keepFiles_cons]
  cases keepOne scope path with
  | error failure => simp
  | ok one =>
      cases one with
      | none => simp
      | some file => cases keepFiles scope paths <;> simp

/-- Files are kept if no path ends the expansion, and then each path is kept by itself. -/
theorem keepFiles_eq_ok : keepFiles scope paths = .ok kept ↔
    (∀ p ∈ paths, keepOne scope p = .ok (kept? scope p)) ∧ kept = paths.filterMap (kept? scope) := by
  induction paths generalizing kept with
  | nil => simp [keepFiles, eq_comm]
  | cons path paths ih =>
      have hcons : (path :: paths).filterMap (kept? scope) =
          (kept? scope path).toList ++ paths.filterMap (kept? scope) := by
        rw [List.filterMap_cons]
        cases kept? scope path <;> rfl
      rw [keepFiles_cons_eq_ok, List.forall_mem_cons, hcons]
      constructor
      · rintro ⟨one, others, hone, hothers, rfl⟩
        obtain ⟨hall, rfl⟩ := ih.1 hothers
        rw [kept?_of_keepOne hone]
        exact ⟨⟨hone, hall⟩, rfl⟩
      · rintro ⟨⟨hone, hall⟩, rfl⟩
        exact ⟨_, _, hone, ih.2 ⟨hall, rfl⟩, rfl⟩

/-- The paths of kept files are canonical forms of paths that are files and not ignored. -/
theorem mem_keepFiles (h : keepFiles scope paths = .ok kept) : file ∈ kept ↔
    ∃ candidate ∈ paths, scope.files.isFile candidate = .ok true ∧
      scope.ignored.ignoresWhileGlobbing scope.viewpoint candidate = .ok false ∧
      scope.files.resolve candidate = .ok file := by
  obtain ⟨-, rfl⟩ := keepFiles_eq_ok.1 h
  simp only [List.mem_filterMap, kept?_eq_some, keepOne_eq_some]

theorem of_keepFiles_eq_error (h : keepFiles scope paths = .error failure) :
    ∃ p ∈ paths, keepOne scope p = .error failure := by
  induction paths with
  | nil => cases h
  | cons path paths ih =>
      rcases keepFiles_cons_eq_error.1 h with hone | ⟨-, hrest⟩
      · exact ⟨path, List.mem_cons_self, hone⟩
      · obtain ⟨p, hp, hone⟩ := ih hrest
        exact ⟨p, List.mem_cons_of_mem _ hp, hone⟩

end ProjectLint.Glob
