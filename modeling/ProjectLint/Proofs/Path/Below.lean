import ProjectLint.Proofs.Path.Plain

/-!
How what lies below a directory is seen from another place. If the directory lies above that place,
or is that place, it is seen as a number of `..` alone. Otherwise whatever lies below it is seen as
the directory is, with more components after it. From the directory itself what lies below it is
seen by the components that lead down to it, and everything else is seen through `..` first. The
components through which one place is seen from another lead from there to it.
-/

namespace ProjectLint.Path

/-- Components without `..` are added as they are. -/
theorem collapse_append {parts more : List Text} (h : parentPart ∉ more) :
    collapse (parts ++ more) = collapse parts ++ more := by
  rw [collapse, List.foldl_append, foldl_enter_of_not_parent h]
  rfl

theorem collapse_concat_parentPart (parts : List Text) :
    collapse (parts ++ [parentPart]) = (collapse parts).dropLast := by
  rw [collapse, List.foldl_append]
  rfl

theorem collapse_collapse_append {parts more : List Text} (h : parentPart ∉ more) :
    collapse (collapse parts ++ more) = collapse (parts ++ more) := by
  rw [collapse_append h, collapse_append h, collapse_eq_self (parentPart_not_mem_collapse parts)]

/-- Two ways part after the components that they share. -/
theorem exists_sharedLength_eq (start goal : List Text) : ∃ common left entered,
    start = common ++ left ∧ goal = common ++ entered ∧
      sharedLength start goal = common.length := by
  induction start generalizing goal with
  | nil => exact ⟨[], [], goal, rfl, rfl, rfl⟩
  | cons a start ih =>
      cases goal with
      | nil => exact ⟨[], a :: start, [], rfl, rfl, rfl⟩
      | cons b goal =>
          by_cases hab : a = b
          · subst hab
            obtain ⟨common, left, entered, rfl, rfl, hshared⟩ := ih goal
            refine ⟨a :: common, left, entered, rfl, rfl, ?_⟩
            rw [sharedLength, if_pos rfl, hshared, List.length_cons]
          · refine ⟨[], a :: start, b :: goal, rfl, rfl, ?_⟩
            rw [sharedLength, if_neg hab, List.length_nil]

theorem sharedLength_le (start goal : List Text) : sharedLength start goal ≤ goal.length := by
  obtain ⟨common, left, entered, -, hgoal, hshared⟩ := exists_sharedLength_eq start goal
  rw [hshared, hgoal, List.length_append]
  exact Nat.le_add_right _ _

theorem sharedLength_append {start goal : List Text} (h : sharedLength start goal < goal.length)
    (more : List Text) : sharedLength start (goal ++ more) = sharedLength start goal := by
  induction start generalizing goal with
  | nil => simp [sharedLength]
  | cons a start ih =>
      cases goal with
      | nil => simp at h
      | cons b goal =>
          simp only [List.cons_append, sharedLength] at h ⊢
          by_cases hab : a = b
          · simp only [if_pos hab, List.length_cons, Nat.add_lt_add_iff_right] at h ⊢
            rw [ih h]
          · simp only [if_neg hab]

theorem steps_append {start goal : List Text} (h : sharedLength start goal < goal.length)
    (more : List Text) : steps (goal ++ more) start = steps goal start ++ more := by
  simp only [steps, sharedLength_append h]
  rw [List.drop_append_of_le_length (Nat.le_of_lt h), List.append_assoc]

theorem steps_ne_nil {start goal : List Text} (h : sharedLength start goal < goal.length) :
    steps goal start ≠ [] := by
  simp only [steps, ne_eq, List.append_eq_nil_iff, List.drop_eq_nil_iff, not_and, Nat.not_le]
  exact fun _ => h

theorem sharedLength_self_append (start more : List Text) :
    sharedLength start (start ++ more) = start.length := by
  induction start with
  | nil => cases more <;> rfl
  | cons part start ih => simp only [List.cons_append, sharedLength, if_true, ih, List.length_cons]

theorem isPrefix_of_sharedLength {start goal : List Text}
    (h : start.length ≤ sharedLength start goal) : List.IsPrefix start goal := by
  obtain ⟨common, left, entered, hstart, hgoal, hshared⟩ := exists_sharedLength_eq start goal
  have hcommon : common = start :=
    (hstart ▸ List.prefix_append common left).eq_of_length_le (hshared ▸ h)
  exact ⟨entered, hcommon ▸ hgoal.symm⟩

/-- From a directory what lies below it is seen by the components that lead down to it. -/
theorem steps_self_append (start more : List Text) : steps (start ++ more) start = more := by
  simp only [steps, sharedLength_self_append, Nat.sub_self, List.replicate_zero, List.nil_append]
  exact List.drop_left

/-- From a directory what does not lie below it is seen through `..` first. -/
theorem head?_steps_of_not_isPrefix {start goal : List Text} (h : ¬List.IsPrefix start goal) :
    (steps goal start).head? = some parentPart := by
  have hshared : sharedLength start goal < start.length :=
    Nat.lt_of_not_le fun hle => h (isPrefix_of_sharedLength hle)
  obtain ⟨n, hn⟩ := Nat.exists_eq_add_one_of_ne_zero (Nat.sub_ne_zero_of_lt hshared)
  rw [steps]
  simp only [hn, List.replicate_succ, List.cons_append, List.head?_cons]

/-- What leads from one place to another goes up to where their ways part, and down from there. -/
theorem exists_steps_eq (start goal : List Text) : ∃ common left entered,
    start = common ++ left ∧ goal = common ++ entered ∧
      steps goal start = List.replicate left.length parentPart ++ entered := by
  obtain ⟨common, left, entered, hstart, hgoal, hshared⟩ := exists_sharedLength_eq start goal
  have hleft : start.length - common.length = left.length := by
    rw [hstart, List.length_append, Nat.add_sub_cancel_left]
  refine ⟨common, left, entered, hstart, hgoal, ?_⟩
  rw [steps, hshared, hleft, hgoal, List.drop_left]

/-- Each `..` takes the last component away, as long as there is one. -/
theorem foldl_enter_parents (start : List Text) (n : Nat) :
    (List.replicate n parentPart).foldl enter start = start.take (start.length - n) := by
  induction n generalizing start with
  | zero => simp
  | succ n ih =>
      rw [List.replicate_succ, List.foldl_cons, enter, if_pos rfl, ih, List.length_dropLast,
        List.dropLast_eq_take, List.take_take, Nat.min_eq_left (Nat.sub_le _ _), Nat.sub_sub,
        Nat.add_comm 1 n]

/-- What leads from one place to another, taken from there, comes to it. -/
theorem collapse_append_steps {start goal : List Text} (hstart : parentPart ∉ start)
    (hgoal : parentPart ∉ goal) : collapse (start ++ steps goal start) = goal := by
  obtain ⟨common, left, entered, rfl, rfl, hsteps⟩ := exists_steps_eq start goal
  have hentered : parentPart ∉ entered := fun hmem => hgoal (List.mem_append_right _ hmem)
  have hup : (common ++ left).take ((common ++ left).length - left.length) = common := by
    rw [List.length_append, Nat.add_sub_cancel, List.take_left]
  rw [hsteps, ← List.append_assoc, collapse_append hentered, collapse, List.foldl_append,
    ← collapse, collapse_eq_self hstart, foldl_enter_parents, hup]

/-- From below a directory it is seen as a number of `..`. -/
theorem steps_of_shared {start goal : List Text} (h : sharedLength start goal = goal.length) :
    steps goal start = List.replicate (start.length - goal.length) parentPart := by
  simp [steps, h]

/-- The text of a relative path that goes on from components. -/
theorem toText_append {parts more : List Text} (hparts : parts ≠ []) (hmore : more ≠ []) :
    (Path.mk .relative (parts ++ more)).toText =
      (Path.mk .relative parts).toText ++ .scalar '/' :: Text.join [.scalar '/'] more := by
  have hboth : parts ++ more ≠ [] := by simp [hparts]
  simp only [toText, List.isEmpty_iff, if_neg hparts, if_neg hboth]
  clear hboth
  induction parts with
  | nil => exact absurd rfl hparts
  | cons part parts ih =>
      cases parts with
      | nil =>
          cases more with
          | nil => exact absurd rfl hmore
          | cons other more => simp [Text.join]
      | cons other parts =>
          have hrest := ih (by simp)
          simp only [List.cons_append, Text.join] at hrest ⊢
          rw [hrest]
          simp

/-- The text of a number of `..`. -/
def parents (n : Nat) : Text :=
  (Path.mk .relative (List.replicate n parentPart)).toText

/-- The components through which an absolute path is seen from a base. -/
def seenParts (directory path base : Path) : List Text :=
  steps (collapse path.parts) (collapse (directory.under base).parts)

theorem under_of_isAbsolute {directory path : Path} (h : path.isAbsolute = true) :
    directory.under path = path := by
  rw [under, if_pos h]

theorem relativeTo_of_isAbsolute {directory path : Path} (base : Path)
    (h : path.isAbsolute = true) :
    relativeTo directory path base = (Path.mk .relative (seenParts directory path base)).toText := by
  rw [relativeTo, under_of_isAbsolute h]
  rfl

theorem plain_seenParts {directory path : Path} (base : Path) (hpath : path.Plain) :
    (Path.mk .relative (seenParts directory path base)).Plain :=
  plain_steps fun part hpart => hpath part (mem_of_mem_collapse hpart)

/-- A directory is seen as a number of `..`, or what lies below it is seen below it. -/
theorem seenParts_below (directory base path : Path) {below : List Text}
    (hbelow : parentPart ∉ below) :
    (∃ n, seenParts directory path base = List.replicate n parentPart) ∨
      (seenParts directory path base ≠ [] ∧
        seenParts directory ⟨path.anchor, path.parts ++ below⟩ base =
          seenParts directory path base ++ below) := by
  simp only [seenParts, collapse_append hbelow]
  rcases Nat.eq_or_lt_of_le (sharedLength_le (collapse (directory.under base).parts)
    (collapse path.parts)) with hshared | hshared
  · exact Or.inl ⟨_, steps_of_shared hshared⟩
  · exact Or.inr ⟨steps_ne_nil hshared, steps_append hshared below⟩

/-- A path is seen as it is with every `..` taken together with the component before it. -/
theorem relativeTo_collapse (directory base : Path) {anchor : Anchor} {above more : List Text}
    (habsolute : (Path.mk anchor above).isAbsolute = true) (hmore : parentPart ∉ more) :
    relativeTo directory ⟨anchor, collapse above ++ more⟩ base =
      relativeTo directory ⟨anchor, above ++ more⟩ base := by
  have habs : ∀ parts, (Path.mk anchor parts).isAbsolute = true := fun _ => habsolute
  rw [relativeTo_of_isAbsolute base (habs _), relativeTo_of_isAbsolute base (habs _)]
  simp only [seenParts, collapse_collapse_append hmore]

end ProjectLint.Path
