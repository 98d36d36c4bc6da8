import ProjectLint.Session

/-!
How actions are taken apart. An action that succeeds has succeeded in each of its steps. An action
that only observes looks at nothing but the files and the documents in them, and all that it changes
is that it adds notes; what it gives depends on these alone. Other actions are compared by what they
give and leave in related sessions.
-/

namespace ProjectLint

/-- Sessions with the same files, in which the same documents are read from them. -/
structure Session.SameFiles (s t : Session) : Prop where
  files : t.files = s.files
  document : t.document = s.document

theorem Session.SameFiles.symm {s t : Session} (h : s.SameFiles t) : t.SameFiles s :=
  ⟨h.files.symm, h.document.symm⟩

namespace Action

variable {α β : Type}

theorem bind_eq_ok {a : Action α} {f : α → Action β} {s t : Session} {y : β} :
    (a >>= f) s = .ok y t ↔ ∃ x u, a s = .ok x u ∧ f x u = .ok y t := by
  show EStateM.bind a f s = _ ↔ _
  unfold EStateM.bind
  cases a s with
  | ok x u =>
      constructor
      · intro h
        exact ⟨x, u, rfl, h⟩
      · rintro ⟨_, _, ⟨rfl, rfl⟩, h⟩
        exact h
  | error failure u =>
      constructor
      · intro h
        cases h
      · rintro ⟨_, _, h, _⟩
        cases h

theorem bind_eq_error {a : Action α} {f : α → Action β} {s t : Session} {failure : Failure} :
    (a >>= f) s = .error failure t ↔
      a s = .error failure t ∨ ∃ x u, a s = .ok x u ∧ f x u = .error failure t := by
  show EStateM.bind a f s = _ ↔ _
  unfold EStateM.bind
  cases a s with
  | ok x u =>
      constructor
      · intro h
        exact Or.inr ⟨x, u, rfl, h⟩
      · rintro (h | ⟨_, _, ⟨rfl, rfl⟩, h⟩)
        · cases h
        · exact h
  | error other u => simp

theorem pure_eq_ok {x y : α} {s t : Session} :
    (pure x : Action α) s = .ok y t ↔ x = y ∧ s = t := by
  show EStateM.Result.ok x s = .ok y t ↔ _
  simp

theorem lift_eq_ok {e : Except Failure α} {y : α} {s t : Session} :
    lift e s = .ok y t ↔ e = .ok y ∧ s = t := by
  cases e with
  | ok x =>
      rw [lift, pure_eq_ok]
      simp
  | error failure =>
      show EStateM.Result.error failure s = .ok y t ↔ _
      simp

theorem note_eq_ok {n : Note} {s t : Session} {u : Unit} :
    note n s = .ok u t ↔ t = { s with notes := s.notes ++ [n] } := by
  show EStateM.Result.ok () { s with notes := s.notes ++ [n] } = .ok u t ↔ _
  simp [eq_comm]

theorem bind_apply (a : Action α) (f : α → Action β) (s : Session) :
    (a >>= f) s =
      match a s with
      | .ok x u => f x u
      | .error failure u => .error failure u := by
  show EStateM.bind a f s = _
  rw [EStateM.bind]
  cases a s <;> rfl

/-- An action that looks at the session goes on with what it sees. -/
theorem get_bind_apply (f : Session → Action β) (s : Session) :
    ((get : Action Session) >>= f) s = f s s :=
  rfl

theorem resolve_eq_ok {path goal : Path} {s t : Session} :
    resolve path s = .ok goal t ↔ s.files.resolve path = .ok goal ∧ s = t := by
  rw [resolve, get_bind_apply]
  cases s.files.resolve path with
  | ok found =>
      rw [pure_eq_ok]
      simp
  | error fault =>
      show EStateM.Result.error _ s = _ ↔ _
      simp

theorem workingPath_eq_ok {goal : Path} {s t : Session} :
    workingPath s = .ok goal t ↔ s.files.workingPath = .ok goal ∧ s = t := by
  rw [workingPath, get_bind_apply]
  cases s.files.workingPath with
  | ok found =>
      rw [pure_eq_ok]
      simp
  | error errno =>
      show EStateM.Result.error _ s = _ ↔ _
      simp

/-- What an action that saw something of the files comes to: a result or a failure, and the notes
that it adds. -/
def conclude (seen : Except Failure α × List Note) (session : Session) :
    EStateM.Result Failure Session α :=
  let session := { session with notes := session.notes ++ seen.2 }
  match seen.1 with
  | .ok x => .ok x session
  | .error failure => .error failure session

/-- An action that looks at the files and their documents only, and changes nothing but the
notes. -/
def Observes (a : Action α) : Prop :=
  ∀ s : Session, ∃ seen : Except Failure α × List Note,
    ∀ t, s.SameFiles t → a t = conclude seen t

theorem observes_pure (x : α) : Observes (pure x : Action α) := by
  refine fun _ => ⟨(.ok x, []), fun t _ => ?_⟩
  simp only [conclude, List.append_nil]
  rfl

theorem observes_throw (failure : Failure) : Observes (throw failure : Action α) := by
  refine fun _ => ⟨(.error failure, []), fun t _ => ?_⟩
  simp only [conclude, List.append_nil]
  rfl

theorem observes_note (n : Note) : Observes (note n) :=
  fun _ => ⟨(.ok (), [n]), fun _ _ => rfl⟩

theorem observes_lift (e : Except Failure α) : Observes (lift e) := by
  cases e with
  | ok x => exact observes_pure x
  | error failure => exact observes_throw failure

theorem observes_bind {a : Action α} {f : α → Action β} (ha : Observes a)
    (hf : ∀ x, Observes (f x)) : Observes (a >>= f) := by
  intro s
  obtain ⟨⟨result, first⟩, ha⟩ := ha s
  cases result with
  | error failure =>
      refine ⟨(.error failure, first), fun t ht => ?_⟩
      show EStateM.bind a f t = _
      rw [EStateM.bind, ha t ht]
      rfl
  | ok x =>
      obtain ⟨⟨result, next⟩, hf⟩ := hf x s
      refine ⟨(result, first ++ next), fun t ht => ?_⟩
      show EStateM.bind a f t = _
      rw [EStateM.bind, ha t ht]
      refine (hf { t with notes := t.notes ++ first } ⟨ht.files, ht.document⟩).trans ?_
      simp only [conclude, List.append_assoc]

/-- An action that goes on from the session observes if it comes down to one that does, and to the
same one in sessions with the same files. -/
theorem observes_get {f : Session → Action α} (hsame : ∀ s t, Session.SameFiles s t → f t = f s)
    (hrest : ∀ s, Observes (f s)) : Observes (do f (← get)) := by
  intro s
  obtain ⟨seen, hseen⟩ := hrest s s
  refine ⟨seen, fun t ht => ?_⟩
  show f t t = _
  rw [hsame s t ht, hseen t ht]

/-- An action that observes gives the same in every session with the same files. -/
theorem Observes.eq_ok_of_files {a : Action α} (ha : Observes a) {s t u : Session} {x : α}
    (h : a s = .ok x t) (hfiles : s.SameFiles u) : ∃ v, a u = .ok x v := by
  obtain ⟨⟨result, notes⟩, hseen⟩ := ha s
  rw [hseen s ⟨rfl, rfl⟩] at h
  rw [hseen u hfiles]
  cases result with
  | ok y =>
      simp only [conclude, EStateM.Result.ok.injEq] at h
      exact ⟨_, by rw [← h.1]; rfl⟩
  | error failure => cases h

/-- All that an action that observes changes is that it adds notes. -/
theorem Observes.session_eq {a : Action α} (ha : Observes a) {s t : Session} {x : α}
    (h : a s = .ok x t) : ∃ notes, t = { s with notes } := by
  obtain ⟨⟨result, notes⟩, hseen⟩ := ha s
  rw [hseen s ⟨rfl, rfl⟩] at h
  cases result with
  | ok y =>
      simp only [conclude, EStateM.Result.ok.injEq] at h
      exact ⟨_, h.2.symm⟩
  | error failure => cases h

theorem Observes.session_eq_of_error {a : Action α} (ha : Observes a) {s t : Session}
    {failure : Failure} (h : a s = .error failure t) : ∃ notes, t = { s with notes } := by
  obtain ⟨⟨result, notes⟩, hseen⟩ := ha s
  rw [hseen s ⟨rfl, rfl⟩] at h
  cases result with
  | ok y => cases h
  | error other =>
      simp only [conclude, EStateM.Result.error.injEq] at h
      exact ⟨_, h.2.symm⟩

/-- The files and documents are the same after an action that observes. -/
theorem Observes.sameFiles {a : Action α} (ha : Observes a) {r s t : Session} {x : α}
    (h : a s = .ok x t) (hs : s.SameFiles r) : t.SameFiles r := by
  obtain ⟨notes, rfl⟩ := ha.session_eq h
  exact ⟨hs.files, hs.document⟩

theorem observes_resolve (path : Path) : Observes (resolve path) := by
  refine observes_get (fun s t h => by rw [h.files]) fun s => ?_
  split
  · exact observes_pure _
  · exact observes_throw _

theorem observes_workingPath : Observes workingPath := by
  refine observes_get (fun s t h => by rw [h.files]) fun s => ?_
  split
  · exact observes_pure _
  · exact observes_throw _

/-- The session that an action leaves, whether it succeeds or fails. -/
def leaves (a : Action α) (s : Session) : Session :=
  match a s with
  | .ok _ t => t
  | .error _ t => t

/-- What an action gives: its result or its failure. -/
def gives (a : Action α) (s : Session) : Except Failure α :=
  match a s with
  | .ok x _ => .ok x
  | .error failure _ => .error failure

/-- An action that adds only events of some kind, whether it succeeds or fails. -/
def Shows (a : Action α) (shown : Event → Prop) : Prop :=
  ∀ s : Session, ∃ new, (a.leaves s).events = s.events ++ new ∧ ∀ event ∈ new, shown event

theorem leaves_bind (a : Action α) (f : α → Action β) (s : Session) :
    (a >>= f).leaves s =
      match a s with
      | .ok x u => (f x).leaves u
      | .error _ u => u := by
  show leaves (EStateM.bind a f) s = _
  simp only [leaves, EStateM.bind]
  cases a s <;> rfl

theorem gives_bind (a : Action α) (f : α → Action β) (s : Session) :
    (a >>= f).gives s =
      match a s with
      | .ok x u => (f x).gives u
      | .error failure _ => .error failure := by
  show gives (EStateM.bind a f) s = _
  simp only [gives, EStateM.bind]
  cases a s <;> rfl

theorem gives_bind_of_error {a : Action α} {f : α → Action β} {s : Session} {failure : Failure}
    (h : a.gives s = .error failure) : (a >>= f).gives s = .error failure := by
  rw [gives_bind]
  rw [gives] at h
  cases hs : a s with
  | ok x u => simp [hs] at h
  | error other u =>
      simp only [hs, Except.error.injEq] at h
      exact congrArg _ h

theorem gives_bind_eq_error {a : Action α} {f : α → Action β} {s : Session} {failure : Failure} :
    (a >>= f).gives s = .error failure ↔
      a.gives s = .error failure ∨ ∃ x u, a s = .ok x u ∧ (f x).gives u = .error failure := by
  rw [gives_bind, gives]
  cases a s with
  | ok x u => simp [and_assoc]
  | error other u => simp

/-- Whether an action gives something in every session with some files in which values may be nested
to some depth. -/
def GivesFrom (fs : FileSystem) (nesting : Nat) (a : Action α) (result : Except Failure α) : Prop :=
  ∀ s : Session, s.files = fs → s.host.nesting = nesting → a.gives s = result

section GivesFrom

variable {fs : FileSystem} {nesting : Nat}

theorem givesFrom_bind {a : Action α} {f : α → Action β} {x : α} {result : Except Failure β}
    (ha : Observes a) (h : GivesFrom fs nesting a (.ok x))
    (hf : GivesFrom fs nesting (f x) result) : GivesFrom fs nesting (a >>= f) result := by
  intro s hs hnesting
  have hx := h s hs hnesting
  rw [gives] at hx
  rw [gives_bind]
  cases heq : a s with
  | ok y u =>
      obtain ⟨notes, rfl⟩ := ha.session_eq heq
      simp only [heq, Except.ok.injEq] at hx
      subst hx
      exact hf _ hs hnesting
  | error failure u => simp [heq] at hx

theorem givesFrom_bind_of_error {a : Action α} {f : α → Action β} {failure : Failure}
    (h : GivesFrom fs nesting a (.error failure)) :
    GivesFrom fs nesting (a >>= f) (.error failure) :=
  fun s hs hnesting => gives_bind_of_error (h s hs hnesting)

theorem gives_resolve (path : Path) (s : Session) :
    (resolve path).gives s =
      match s.files.resolve path with
      | .ok goal => .ok goal
      | .error fault => .error (.ofResolveFault fault) := by
  rw [gives, resolve, get_bind_apply]
  cases s.files.resolve path <;> rfl

theorem givesFrom_resolve {path goal : Path} (h : fs.resolve path = .ok goal) :
    GivesFrom fs nesting (resolve path) (.ok goal) := by
  rintro s rfl -
  rw [gives_resolve, h]

/-- What an action gives from some files is one thing. -/
theorem GivesFrom.unique {a : Action α} {first second : Except Failure α}
    (hfirst : GivesFrom fs nesting a first) (hsecond : GivesFrom fs nesting a second) :
    first = second :=
  (hfirst { files := fs, temporary := .absolute [], stamp := [], host := { nesting } } rfl
    rfl).symm.trans (hsecond _ rfl rfl)

end GivesFrom

/-- An action that gives the same in related sessions and leaves related ones. -/
def Respects (a : Action α) (related : Session → Session → Prop) : Prop :=
  ∀ s t, related s t → a.gives t = a.gives s ∧ related (a.leaves s) (a.leaves t)

theorem Respects.cases {a : Action α} {related : Session → Session → Prop}
    (ha : Respects a related) {s t : Session} (h : related s t) :
    (∃ x u v, a s = .ok x u ∧ a t = .ok x v ∧ related u v) ∨
      ∃ failure u v, a s = .error failure u ∧ a t = .error failure v ∧ related u v := by
  obtain ⟨hgives, hleaves⟩ := ha s t h
  simp only [gives, leaves] at hgives hleaves
  cases hs : a s with
  | ok x u =>
      cases ht : a t with
      | ok y v =>
          simp only [hs, ht, Except.ok.injEq] at hgives hleaves
          exact Or.inl ⟨x, u, v, rfl, by rw [hgives], hleaves⟩
      | error failure v => simp [hs, ht] at hgives
  | error failure u =>
      cases ht : a t with
      | ok y v => simp [hs, ht] at hgives
      | error other v =>
          simp only [hs, ht, Except.error.injEq] at hgives hleaves
          exact Or.inr ⟨failure, u, v, rfl, by rw [hgives], hleaves⟩

theorem respects_bind {a : Action α} {f : α → Action β} {related : Session → Session → Prop}
    (ha : Respects a related) (hf : ∀ x, Respects (f x) related) :
    Respects (a >>= f) related := by
  intro s t h
  rw [gives_bind, gives_bind, leaves_bind, leaves_bind]
  rcases ha.cases h with ⟨x, u, v, hs, ht, hleaves⟩ | ⟨failure, u, v, hs, ht, hleaves⟩
  · rw [hs, ht]
    exact hf x u v hleaves
  · rw [hs, ht]
    exact ⟨rfl, hleaves⟩

theorem Observes.shows {a : Action α} (ha : Observes a) (shown : Event → Prop) :
    Shows a shown := by
  intro s
  refine ⟨[], ?_, by simp⟩
  rw [leaves]
  cases h : a s with
  | ok x t =>
      obtain ⟨_, rfl⟩ := ha.session_eq h
      simp
  | error failure t =>
      obtain ⟨_, rfl⟩ := ha.session_eq_of_error h
      simp

theorem shows_event {e : Event} {shown : Event → Prop} (h : shown e) : Shows (event e) shown :=
  fun _ => ⟨[e], rfl, by simpa using h⟩

theorem shows_bind {a : Action α} {f : α → Action β} {shown : Event → Prop} (ha : Shows a shown)
    (hf : ∀ x, Shows (f x) shown) : Shows (a >>= f) shown := by
  intro s
  obtain ⟨first, hfirst, hshown⟩ := ha s
  rw [leaves_bind]
  rw [leaves] at hfirst
  cases h : a s with
  | ok x u =>
      rw [h] at hfirst
      obtain ⟨later, hlater, hrest⟩ := hf x u
      refine ⟨first ++ later, ?_, ?_⟩
      · rw [hlater, hfirst, List.append_assoc]
      · intro event hevent
        rcases List.mem_append.1 hevent with hevent | hevent
        · exact hshown event hevent
        · exact hrest event hevent
  | error failure u =>
      rw [h] at hfirst
      exact ⟨first, hfirst, hshown⟩

/-- An action that adds no event. -/
def Silent (a : Action α) : Prop :=
  Shows a fun _ => False

theorem Silent.leaves_events {a : Action α} (ha : Silent a) (s : Session) :
    (a.leaves s).events = s.events := by
  obtain ⟨new, hnew, hnone⟩ := ha s
  rw [hnew, List.eq_nil_iff_forall_not_mem.2 hnone, List.append_nil]

theorem Silent.events_eq {a : Action α} (ha : Silent a) {s t : Session} {x : α}
    (h : a s = .ok x t) : t.events = s.events := by
  have hs := ha.leaves_events s
  rw [leaves, h] at hs
  exact hs

end Action
end ProjectLint
