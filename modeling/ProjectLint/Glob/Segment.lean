import ProjectLint.Text.Ranges
import ProjectLint.Text.Suffix

/-!
One component of a glob. `*` stands for any run of code points, `?` for any one, and brackets for
one of those inside. There is no escape. A component without any of these names itself. Main
statement: parts match a name if the first can leave a rest of it that the others match.
-/

namespace ProjectLint.Glob

/-- A part of a component pattern. -/
inductive Piece where
  | exactly (c : CodePoint)
  | any
  | many
  | oneOf (negated : Bool) (ranges : Ranges)
deriving DecidableEq

def hasWildcard (segment : Text) : Bool :=
  segment.any fun c => c == .scalar '*' || c == .scalar '?' || c == .scalar '['

/-- Cuts what stands in brackets at the hyphens that make ranges: such a hyphen has a code point
before it, and two between it and the next one. `wait` counts those still to come. -/
def rangeChunks (wait : Nat) : Text → List Text
  | [] => [[]]
  | c :: rest =>
      if wait = 0 && c = .scalar '-' then [] :: rangeChunks 2 rest
      else
        match rangeChunks (wait - 1) rest with
        | [] => [[c]]
        | chunk :: chunks => (c :: chunk) :: chunks

/-- A hyphen at the very end stands for itself. -/
def mendFinalHyphen : List Text → List Text
  | [chunk, []] => [chunk ++ [.scalar '-']]
  | chunk :: chunks => chunk :: mendFinalHyphen chunks
  | [] => []

/-- Leaves out the ranges that run backwards, each with both its ends. -/
def dropBackwards : List Text → List Text
  | [] => []
  | chunk :: chunks =>
      match dropBackwards chunks with
      | [] => [chunk]
      | next :: rest =>
          match chunk.getLast?, next.head? with
          | some low, some high =>
              if high.toNat < low.toNat then (chunk.dropLast ++ next.drop 1) :: rest
              else chunk :: next :: rest
          | _, _ => chunk :: next :: rest

/-- The code points of chunks one by one, and a range from the end of each chunk to the start of the
next. -/
def chunkRanges : List Text → Ranges
  | [] => []
  | chunk :: chunks =>
      let range :=
        match chunk.getLast?, chunks.head?.bind (·.head?) with
        | some low, some high => [(low.toNat, high.toNat)]
        | _, _ => []
      chunk.map (fun c => (c.toNat, c.toNat)) ++ range ++ chunkRanges chunks

/-- What stands in brackets, without them. A `!` at its start negates; it is looked for when the
ranges that run backwards are gone, and a hyphen right after it stands for itself. -/
def bracketPiece (inside : Text) : Piece :=
  let wait := if inside.head? = some (.scalar '!') then 2 else 1
  match dropBackwards (mendFinalHyphen (rangeChunks wait inside)) with
  | [.scalar '!'] :: next :: chunks => .oneOf true (chunkRanges ((.scalar '-' :: next) :: chunks))
  | (.scalar '!' :: chunk) :: chunks => .oneOf true (chunkRanges (chunk :: chunks))
  | chunks => .oneOf false (chunkRanges chunks)

/-- Cuts a text after an opening bracket into what stands in the brackets and what follows the
closing one. A closing bracket right at the start, or after a `!` there, stands for itself. -/
def bracket? (t : Text) : Option (Text × Text) :=
  let (mark, inside) :=
    match t with
    | .scalar '!' :: rest => ([CodePoint.scalar '!'], rest)
    | rest => ([], rest)
  let (first, rest) :=
    match inside with
    | .scalar ']' :: rest => ([CodePoint.scalar ']'], rest)
    | rest => ([], rest)
  match rest.dropWhile (· != .scalar ']') with
  | [] => none
  | _ :: left => some (mark ++ first ++ rest.takeWhile (· != .scalar ']'), left)

/-- The parts of a component. A bracket that is not closed stands for itself. -/
def pieces (segment : Text) : List Piece :=
  go segment.length segment
where
  go : (fuel : Nat) → Text → List Piece
    | 0, _ | _, [] => []
    | fuel + 1, c :: rest =>
        if c = .scalar '*' then .many :: go fuel rest
        else if c = .scalar '?' then .any :: go fuel rest
        else if c = .scalar '[' then
          match bracket? rest with
          | none => .exactly c :: go fuel rest
          | some (inside, left) => bracketPiece inside :: go fuel left
        else .exactly c :: go fuel rest

/-- What can be left of a name after a part. -/
def Piece.rests : Piece → Text → List Text
  | exactly c, name => name.afterOne (c == ·)
  | any, name => name.afterOne fun _ => true
  | many, name => name.afterMany fun _ => true
  | oneOf negated ranges, name => name.afterOne fun d => ranges.has d.toNat != negated

def Piece.mark (name : Text) (later : List Bool) : Piece → List Bool
  | exactly c => Text.markOne (c == ·) name later
  | any => Text.markOne (fun _ => true) name later
  | many => Text.markMany (fun _ => true) name later
  | oneOf negated ranges => Text.markOne (fun d => ranges.has d.toNat != negated) name later

/-- The marks for parts that match all that is left of a name. -/
def pieceMarks (name : Text) (parts : List Piece) : List Bool :=
  parts.foldr (fun part later => part.mark name later) (name.marks List.isEmpty)

def matchesAll (parts : List Piece) (name : Text) : Bool :=
  (pieceMarks name parts).headD false

theorem Piece.mark_marks (part : Piece) (holds : Text → Bool) (name : Text) :
    part.mark name (name.marks holds) = name.marks fun s => (part.rests s).any holds := by
  cases part <;> simp only [mark, rests, Text.markOne_marks, Text.markMany_marks]

theorem pieceMarks_eq (parts : List Piece) (name : Text) :
    pieceMarks name parts = name.marks (matchesAll parts) := by
  induction parts generalizing name with
  | nil =>
      refine congrArg name.marks (funext fun s => ?_)
      exact (Text.marks_headD _ s false).symm
  | cons part parts ih =>
      have hmark : ∀ s : Text, pieceMarks s (part :: parts) =
          s.marks fun r => (part.rests r).any (matchesAll parts) := by
        intro s
        rw [pieceMarks, List.foldr_cons, ← pieceMarks, ih, Piece.mark_marks]
      rw [hmark]
      refine congrArg name.marks (funext fun s => ?_)
      rw [matchesAll, hmark, Text.marks_headD]

theorem matchesAll_nil (name : Text) : matchesAll [] name = name.isEmpty :=
  Text.marks_headD _ name false

/-- One part can leave a rest of the name that the others match. -/
theorem matchesAll_cons (part : Piece) (parts : List Piece) (name : Text) :
    matchesAll (part :: parts) name = (part.rests name).any (matchesAll parts) := by
  rw [matchesAll, pieceMarks, List.foldr_cons, ← pieceMarks, pieceMarks_eq, Piece.mark_marks,
    Text.marks_headD]

/-- Whether a name starts with a dot. -/
def isHidden (name : Text) : Bool :=
  name.head? == some (.scalar '.')

/-- Whether a component with wildcards matches a name. Hidden names are matched only by a component
that starts with a dot itself. -/
def matchesName (segment name : Text) : Bool :=
  (isHidden segment || !isHidden name) && matchesAll (pieces segment) name

end ProjectLint.Glob
