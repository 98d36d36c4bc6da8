import ProjectLint.Text.Basic

/-!
Marks on a text. There is one mark for what is left of a text after each number of its code points,
and it tells whether something holds of that rest. A pattern is matched from its last part to its
first by moving the marks once for each part, so the time it takes grows with the length of the text
and not with the number of ways to cut it. Main statements: each way of moving marks gives the marks
of what it stands for.
-/

namespace ProjectLint.Text

/-- A text and what is left of it after each of its code points. -/
def suffixes : Text → List Text
  | [] => [[]]
  | c :: rest => (c :: rest) :: suffixes rest

/-- For each suffix of a text, from the whole to the empty one, whether something holds of it. -/
def marks (holds : Text → Bool) (t : Text) : List Bool :=
  (suffixes t).map holds

/-- What is left of a text after one code point that passes a test. -/
def afterOne (test : CodePoint → Bool) : Text → List Text
  | [] => []
  | c :: rest => if test c then [rest] else []

/-- What can be left of a text after any number of code points that pass a test. -/
def afterMany (test : CodePoint → Bool) : Text → List Text
  | [] => [[]]
  | c :: rest => (c :: rest) :: if test c then afterMany test rest else []

/-- The marks for one code point that passes a test and then a marked suffix. -/
def markOne (test : CodePoint → Bool) : Text → List Bool → List Bool
  | c :: rest, _ :: later => (test c && later.headD false) :: markOne test rest later
  | _, _ => [false]

/-- The marks for any number of code points that pass a test and then a marked suffix. -/
def markMany (test : CodePoint → Bool) : Text → List Bool → List Bool
  | c :: rest, here :: later =>
      let moved := markMany test rest later
      (here || (test c && moved.headD false)) :: moved
  | _, later => later

def markEither (first second : List Bool) : List Bool :=
  List.zipWith (· || ·) first second

def markBoth (first second : List Bool) : List Bool :=
  List.zipWith (· && ·) first second

theorem marks_headD (holds : Text → Bool) (t : Text) (b : Bool) :
    (marks holds t).headD b = holds t := by
  cases t <;> rfl

theorem marks_cons (holds : Text → Bool) (c : CodePoint) (rest : Text) :
    marks holds (c :: rest) = holds (c :: rest) :: marks holds rest :=
  rfl

theorem markOne_marks (test : CodePoint → Bool) (holds : Text → Bool) (t : Text) :
    markOne test t (marks holds t) = marks (fun s => (afterOne test s).any holds) t := by
  induction t with
  | nil => rfl
  | cons c rest ih =>
      rw [marks_cons, marks_cons, markOne, ih, marks_headD]
      by_cases h : test c <;> simp [afterOne, h]

theorem markMany_marks (test : CodePoint → Bool) (holds : Text → Bool) (t : Text) :
    markMany test t (marks holds t) = marks (fun s => (afterMany test s).any holds) t := by
  induction t with
  | nil => simp [markMany, marks, suffixes, afterMany]
  | cons c rest ih =>
      rw [marks_cons, marks_cons, markMany, ih, marks_headD]
      by_cases h : test c <;> simp [afterMany, h]

theorem markEither_marks (first second : Text → Bool) (t : Text) :
    markEither (marks first t) (marks second t) = marks (fun s => first s || second s) t := by
  induction t with
  | nil => rfl
  | cons c rest ih =>
      simp only [marks_cons, markEither, List.zipWith_cons_cons] at ih ⊢
      rw [ih]

theorem markBoth_marks (first second : Text → Bool) (t : Text) :
    markBoth (marks first t) (marks second t) = marks (fun s => first s && second s) t := by
  induction t with
  | nil => rfl
  | cons c rest ih =>
      simp only [marks_cons, markBoth, List.zipWith_cons_cons] at ih ⊢
      rw [ih]

end ProjectLint.Text
