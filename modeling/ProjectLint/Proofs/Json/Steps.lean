import ProjectLint.Json.Reader

/-!
The steps of the reader. Main statements: what was read of a value, and where a value stops the
reader, by the way that its text starts; what was read of the first field of an object; and a
document is read as the one value in it.
-/

namespace ProjectLint.Json

section Except

variable {ε α β : Type} {x : Except ε α} {stop : ε}

theorem exists_of_map_eq_ok {f : α → β} {b : β} (h : x.map f = .ok b) :
    ∃ a, x = .ok a ∧ f a = b := by
  cases x with
  | error stop => cases h
  | ok a => exact ⟨a, rfl, Except.ok.inj h⟩

theorem exists_of_bind_eq_ok {f : α → Except ε β} {b : β} (h : (x >>= f) = .ok b) :
    ∃ a, x = .ok a ∧ f a = .ok b := by
  cases x with
  | error stop => cases h
  | ok a => exact ⟨a, rfl, h⟩

theorem eq_error_of_map {f : α → β} (h : x.map f = .error stop) : x = .error stop := by
  cases x with
  | error other =>
      cases h
      rfl
  | ok a => cases h

theorem bind_eq_error {f : α → Except ε β} (h : (x >>= f) = .error stop) :
    x = .error stop ∨ ∃ a, x = .ok a ∧ f a = .error stop := by
  cases x with
  | error other =>
      cases h
      exact Or.inl rfl
  | ok a => exact Or.inr ⟨a, rfl, h⟩

end Except

/-- What was read of a value, and what was left of its text. -/
inductive Gives (limits : Limits) (size : Nat) : (depth : Nat) → Text → Json → Text → Prop
  | string {depth : Nat} {inside t left : Text}
      (reads : readString (.scalar '"' :: inside) none inside = .ok (t, left)) :
      Gives limits size depth (.scalar '"' :: inside) (string t) left
  | noItems {depth : Nat} {inside left : Text} (close : skipGap inside = .scalar ']' :: left) :
      Gives limits size (depth + 1) (.scalar '[' :: inside) (array []) left
  | items {depth : Nat} {inside left : Text} {items : List Json}
      (reads : readItems (readValue limits size depth) size (skipGap inside) = .ok (items, left)) :
      Gives limits size (depth + 1) (.scalar '[' :: inside) (array items) left
  | noFields {depth : Nat} {inside left : Text} (close : skipGap inside = .scalar '\x7d' :: left) :
      Gives limits size (depth + 1) (.scalar '\x7b' :: inside) (object []) left
  | fields {depth : Nat} {inside left : Text} {fields : List (Text × Json)}
      (reads : readFields (readValue limits size depth) size (skipGap inside) =
        .ok (fields, left)) :
      Gives limits size (depth + 1) (.scalar '\x7b' :: inside) (object (Fields.ofPairs fields)) left
  | atom {depth : Nat} {t left : Text} {v : Json} (reads : readAtom limits t = .ok (v, left)) :
      Gives limits size depth t v left

/-- Where a value stops the reader. -/
inductive Halts (limits : Limits) (size : Nat) : (depth : Nat) → Text → Stop → Prop
  | string {depth : Nat} {inside : Text} {stop : Stop}
      (reads : readString (.scalar '"' :: inside) none inside = .error stop) :
      Halts limits size depth (.scalar '"' :: inside) stop
  | deep {c : CodePoint} {inside : Text} (opens : c = .scalar '[' ∨ c = .scalar '\x7b') :
      Halts limits size 0 (c :: inside) .tooDeep
  | items {depth : Nat} {inside : Text} {stop : Stop}
      (reads : readItems (readValue limits size depth) size (skipGap inside) = .error stop) :
      Halts limits size (depth + 1) (.scalar '[' :: inside) stop
  | fields {depth : Nat} {inside : Text} {stop : Stop}
      (reads : readFields (readValue limits size depth) size (skipGap inside) = .error stop) :
      Halts limits size (depth + 1) (.scalar '\x7b' :: inside) stop
  | atom {depth : Nat} {t : Text} {stop : Stop} (reads : readAtom limits t = .error stop) :
      Halts limits size depth t stop

variable {limits : Limits} {size depth : Nat} {t left document : Text} {v : Json} {stop : Stop}

theorem gives_of_readValue (h : readValue limits size depth t = .ok (v, left)) :
    Gives limits size depth t v left := by
  rw [readValue.eq_def] at h
  split at h
  next inside =>
    obtain ⟨⟨s, rest⟩, hread, hpair⟩ := exists_of_map_eq_ok h
    cases hpair
    exact .string hread
  next => cases h
  next => cases h
  next below inside =>
    split at h
    next hclose =>
      cases h
      exact .noItems hclose
    next =>
      obtain ⟨⟨items, rest⟩, hread, hpair⟩ := exists_of_map_eq_ok h
      cases hpair
      exact .items hread
  next below inside =>
    split at h
    next hclose =>
      cases h
      exact .noFields hclose
    next =>
      obtain ⟨⟨fields, rest⟩, hread, hpair⟩ := exists_of_map_eq_ok h
      cases hpair
      exact .fields hread
  next => exact .atom h

theorem halts_of_readValue (h : readValue limits size depth t = .error stop) :
    Halts limits size depth t stop := by
  rw [readValue.eq_def] at h
  split at h
  next => exact .string (eq_error_of_map h)
  next =>
    cases h
    exact .deep (Or.inl rfl)
  next =>
    cases h
    exact .deep (Or.inr rfl)
  next =>
    split at h
    next => cases h
    next => exact .items (eq_error_of_map h)
  next =>
    split at h
    next => cases h
    next => exact .fields (eq_error_of_map h)
  next => exact .atom h

/-- The first field of an object is a name, a colon and a value; then a brace ends the object, or
after a comma come the other fields. -/
theorem of_readFields_eq_ok {read : Text → Except Stop (Json × Text)} {fuel : Nat}
    {fields : List (Text × Json)} (h : readFields read (fuel + 1) t = .ok (fields, left)) :
    ∃ inside name afterName beforeValue value rest, t = .scalar '"' :: inside ∧
      readString t none inside = .ok (name, afterName) ∧
      skipGap afterName = .scalar ':' :: beforeValue ∧
      read (skipGap beforeValue) = .ok (value, rest) ∧
      (skipGap rest = .scalar '\x7d' :: left ∧ fields = [(name, value)] ∨
        ∃ more others, skipGap rest = .scalar ',' :: more ∧
          readFields read fuel (skipGap more) = .ok (others, left) ∧
          fields = (name, value) :: others) := by
  rw [readFields.eq_def] at h
  simp only at h
  split at h
  next inside =>
    obtain ⟨⟨name, afterName⟩, hname, h⟩ := exists_of_bind_eq_ok h
    simp only at h
    split at h
    next beforeValue hcolon =>
      obtain ⟨⟨value, rest⟩, hvalue, h⟩ := exists_of_bind_eq_ok h
      refine ⟨inside, name, afterName, beforeValue, value, rest, rfl, hname, hcolon, hvalue, ?_⟩
      simp only at h
      split at h
      next more hcomma =>
        obtain ⟨⟨others, last⟩, hothers, h⟩ := exists_of_bind_eq_ok h
        cases h
        exact Or.inr ⟨more, others, hcomma, hothers, rfl⟩
      next hclose =>
        cases h
        exact Or.inl ⟨hclose, rfl⟩
      next => cases h
    next => cases h
  next => cases h

theorem exists_of_read_eq_ok (h : read limits document = .ok v) :
    ∃ left, readValue limits document.length limits.depth (skipGap document) = .ok (v, left) := by
  rw [read] at h
  split at h
  next value hvalue =>
    cases h
    rw [readDocument] at hvalue
    split at hvalue
    next => cases hvalue
    next =>
      split at hvalue
      next => cases hvalue
      next left hread =>
        split at hvalue
        next =>
          cases hvalue
          exact ⟨_, hread⟩
        next => cases hvalue
  next => cases h
  next => cases h
  next => cases h

/-- A document has a defect of its own, or the value in it stops the reader. -/
theorem of_readDocument_eq_error (h : readDocument limits document = .error stop) :
    (∃ defect remaining, stop = .defect defect remaining) ∨
      readValue limits document.length limits.depth (skipGap document) = .error stop := by
  rw [readDocument] at h
  split at h
  next =>
    cases h
    exact Or.inl ⟨_, _, rfl⟩
  next =>
    split at h
    next hvalue =>
      cases h
      exact Or.inr hvalue
    next =>
      split at h
      next => cases h
      next =>
        cases h
        exact Or.inl ⟨_, _, rfl⟩

end ProjectLint.Json
