import ProjectLint.Text.Ranges
import ProjectLint.Text.Suffix

/-!
The elements that compiled ignore patterns are made of, and how they match. An element takes some
of the code points at the start of a text; `rests` lists what can be left. Main statement: a
sequence of elements matches the start of a text if the first can leave a rest that the others match
the start of.
-/

namespace ProjectLint

/-- A test of one code point. -/
inductive Single where
  | exactly (c : CodePoint)
  | notSlash
  | oneOf (negated : Bool) (ranges : Ranges)
deriving DecidableEq

def Single.accepts : Single → CodePoint → Bool
  | exactly c, d => c == d
  | notSlash, d => d != .scalar '/'
  | oneOf negated ranges, d => ranges.has d.toNat != negated

/-- An element of a pattern. -/
inductive Element where
  /-- One code point. -/
  | single (test : Single)
  /-- Any number of code points other than a slash. -/
  | run
  /-- One code point or more, none of them a slash. -/
  | name
  /-- A slash. -/
  | slash
  /-- Nothing, or one code point or more and a slash, all on one line. -/
  | leadingFolders
  /-- Nothing, or a slash and one code point or more, all on one line. -/
  | innerFolders
  /-- A slash, or the end of the path. -/
  | nameEnd
  /-- The end of the path, with or without a slash before it. -/
  | lastNameEnd
deriving DecidableEq

namespace Element

/-- Whether a text is at its end: nothing is left, or only a line feed. -/
def atEnd (t : Text) : Bool :=
  t == [] || t == [.scalar '\n']

def isSlash (c : CodePoint) : Bool :=
  c == .scalar '/'

/-- Whether a code point stays on its line. -/
def onLine (c : CodePoint) : Bool :=
  c != .scalar '\n'

/-- What can be left of a text after an element. -/
def rests : Element → Text → List Text
  | single test, t => t.afterOne test.accepts
  | run, t => t.afterMany Single.notSlash.accepts
  | name, t => (t.afterOne Single.notSlash.accepts).flatMap (Text.afterMany Single.notSlash.accepts)
  | slash, t => t.afterOne isSlash
  | leadingFolders, t =>
      t :: ((t.afterOne onLine).flatMap (Text.afterMany onLine)).flatMap (Text.afterOne isSlash)
  | innerFolders, t =>
      t :: ((t.afterOne isSlash).flatMap (Text.afterOne onLine)).flatMap (Text.afterMany onLine)
  | nameEnd, t => (if atEnd t then [t] else []) ++ t.afterOne isSlash
  | lastNameEnd, t => (t :: t.afterOne isSlash).filter atEnd

def mark (t : Text) (later : List Bool) : Element → List Bool
  | single test => Text.markOne test.accepts t later
  | run => Text.markMany Single.notSlash.accepts t later
  | name =>
      Text.markOne Single.notSlash.accepts t (Text.markMany Single.notSlash.accepts t later)
  | slash => Text.markOne isSlash t later
  | leadingFolders =>
      Text.markEither later
        (Text.markOne onLine t (Text.markMany onLine t (Text.markOne isSlash t later)))
  | innerFolders =>
      Text.markEither later
        (Text.markOne isSlash t (Text.markOne onLine t (Text.markMany onLine t later)))
  | nameEnd =>
      Text.markEither (Text.markBoth (t.marks atEnd) later) (Text.markOne isSlash t later)
  | lastNameEnd =>
      let ends := Text.markBoth (t.marks atEnd) later
      Text.markEither ends (Text.markOne isSlash t ends)

def sequenceMarks (t : Text) (elements : List Element) : List Bool :=
  elements.foldr (fun element later => element.mark t later) (t.marks fun _ => true)

/-- Whether elements match the start of a text. -/
def sequenceMatches (elements : List Element) (t : Text) : Bool :=
  (sequenceMarks t elements).headD false

theorem mark_marks (element : Element) (holds : Text → Bool) (t : Text) :
    element.mark t (t.marks holds) = t.marks fun s => (element.rests s).any holds := by
  cases element <;>
    simp only [mark, rests, Text.markOne_marks, Text.markMany_marks, Text.markEither_marks,
      Text.markBoth_marks, List.any_flatMap, List.any_cons, List.any_append, List.any_filter]
  case nameEnd =>
    congr 1
    funext s
    cases atEnd s <;> simp

theorem sequenceMarks_eq (elements : List Element) (t : Text) :
    sequenceMarks t elements = t.marks (sequenceMatches elements) := by
  induction elements generalizing t with
  | nil =>
      refine congrArg t.marks (funext fun s => ?_)
      exact (Text.marks_headD (fun _ => true) s false).symm
  | cons element elements ih =>
      have hmark : ∀ s : Text, sequenceMarks s (element :: elements) =
          s.marks fun r => (element.rests r).any (sequenceMatches elements) := by
        intro s
        rw [sequenceMarks, List.foldr_cons, ← sequenceMarks, ih, mark_marks]
      rw [hmark]
      refine congrArg t.marks (funext fun s => ?_)
      rw [sequenceMatches, hmark, Text.marks_headD]

theorem sequenceMatches_nil (t : Text) : sequenceMatches [] t = true :=
  Text.marks_headD _ t false

/-- One element can leave a rest that the others match the start of. -/
theorem sequenceMatches_cons (element : Element) (elements : List Element) (t : Text) :
    sequenceMatches (element :: elements) t =
      (element.rests t).any (sequenceMatches elements) := by
  rw [sequenceMatches, sequenceMarks, List.foldr_cons, ← sequenceMarks, sequenceMarks_eq,
    mark_marks, Text.marks_headD]

end Element
end ProjectLint
