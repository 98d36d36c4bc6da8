import ProjectLint.Pattern
import ProjectLint.Ignore.Element

/-!
One line of an ignore file as a rule. A line is cut at its slashes; what each piece means depends
on its place, and a line with no slash but the last is looked for at every depth. The last rule
that matches a path decides about it.
-/

namespace ProjectLint

/-- What a rule looks for. -/
inductive Target where
  /-- Any path with a code point other than a line feed. -/
  | anything
  /-- Any path with a slash. -/
  | inFolder
  /-- Paths that elements match from the start. -/
  | elements (sequence : List Element)
deriving DecidableEq

/-- A rule: what it looks for, and whether it takes paths back from the rules before it. -/
structure Rule where
  negated : Bool
  target : Target
deriving DecidableEq

namespace Target

/-- Whether a path is one that a rule looks for. -/
def selects (path : Text) : Target → Bool
  | anything => path.any Element.onLine
  | inFolder => path.contains (.scalar '/')
  | elements sequence => Element.sequenceMatches sequence path

end Target

namespace Rule

/-- The ranges of a bracket expression. A hyphen between two code points makes a range. -/
def bracketRanges : Text → Ranges
  | a :: .scalar '-' :: b :: rest => (a.toNat, b.toNat) :: bracketRanges rest
  | a :: rest => (a.toNat, a.toNat) :: bracketRanges rest
  | [] => []

/-- What stands in brackets: whether it is negated, the code points in it, and what follows the
closing bracket. A closing bracket right at the start stands for itself. -/
def bracket? (t : Text) : Option (Bool × Text × Text) :=
  let (negated, inside) :=
    match t with
    | .scalar '!' :: rest => (true, rest)
    | .scalar '^' :: rest => (true, rest)
    | rest => (false, rest)
  let (first, rest) :=
    match inside with
    | .scalar ']' :: rest => ([CodePoint.scalar ']'], rest)
    | rest => ([], rest)
  match rest.dropWhile (· != .scalar ']') with
  | [] => none
  | _ :: left => some (negated, first ++ rest.takeWhile (· != .scalar ']'), left)

/-- The elements of one piece of a line. A backslash takes the special meaning from what follows,
and something must follow. A bracket that is not closed stands for itself. -/
def segmentElements? (piece : Text) : Option (List Element) :=
  go piece.length piece
where
  go : (fuel : Nat) → Text → Option (List Element)
    | _, [] => some []
    | 0, _ :: _ => none
    | fuel + 1, c :: rest =>
        if c = .scalar '\\' then
          match rest with
          | [] => none
          | d :: rest => (go fuel rest).map (.single (.exactly d) :: ·)
        else if c = .scalar '*' then (go fuel rest).map (.run :: ·)
        else if c = .scalar '?' then (go fuel rest).map (.single .notSlash :: ·)
        else if c = .scalar '[' then
          match bracket? rest with
          | none => (go fuel rest).map (.single (.exactly c) :: ·)
          | some (negated, inside, left) =>
              (go fuel left).map (.single (.oneOf negated (bracketRanges inside)) :: ·)
        else (go fuel rest).map (.single (.exactly c) :: ·)

/-- The piece of a line that stands for any number of folders. -/
def anyDepth : Text := [.scalar '*', .scalar '*']

/-- The piece of a line that stands for any one name. -/
def anyName : Text := [.scalar '*']

/-- The pieces without those for any number of folders that directly follow another one. -/
def mergeDepths : List Text → List Text
  | [] => []
  | piece :: pieces =>
      match mergeDepths pieces with
      | [] => [piece]
      | next :: rest =>
          if piece = anyDepth && next = anyDepth then next :: rest else piece :: next :: rest

/-- The pieces of a line, so that each says for itself what it means. A slash at the start is
dropped; without one, a line of one piece is looked for at every depth. A slash at the end asks for
what lies below. -/
def pieces (line : Text) : List Text :=
  let raw := line.split '/'
  let rooted :=
    match raw with
    | [] :: rest => rest
    | [piece] => if piece = anyDepth then [piece] else [anyDepth, piece]
    | [piece, []] => if piece = anyDepth then [piece, []] else [anyDepth, piece, []]
    | pieces => pieces
  mergeDepths (match rooted.getLast? with
    | some [] => rooted.dropLast ++ [anyDepth]
    | _ => rooted)

/-- The elements of the pieces after the first. `slash` tells whether the next name needs a slash
before it. -/
def innerElements? (slash : Bool) : List Text → Option (List Element)
  | [] => some []
  | piece :: rest =>
      if piece = anyDepth then
        if rest.isEmpty then some [.slash]
        else (innerElements? true rest).map (.innerFolders :: ·)
      else do
        let named ← if piece = anyName then some [.name] else segmentElements? piece
        let others ← innerElements? true rest
        let closing := if piece = anyName then .lastNameEnd else .nameEnd
        return (if slash then [.slash] else []) ++ named ++
          (if rest.isEmpty then [closing] else others)

/-- The elements of all pieces. Any number of folders at the start may be none. -/
def pieceElements? : List Text → Option (List Element)
  | [] => none
  | piece :: rest =>
      if piece = anyDepth && !rest.isEmpty then
        (innerElements? false rest).map (.leadingFolders :: ·)
      else innerElements? false (piece :: rest)

/-- Whether no range of an element runs backwards. -/
def rangesInOrder : Element → Bool
  | .single (.oneOf _ ranges) => ranges.all fun range => range.1 ≤ range.2
  | _ => true

/-- Why a line is no rule: it is not a pattern at all, or a range in brackets runs backwards. -/
inductive Fault where
  | badPattern
  | badRange
deriving DecidableEq

/-- Whether a line ends with a slash; the slash alone does not count. -/
def endsWithSlash (line : Text) : Bool :=
  (line.split '/').getLast? == some [] && line != [.scalar '/']

/-- What a line without its mark of negation looks for. -/
def targetOf (line : Text) : Except Fault Target :=
  let all := pieces line
  if all = [anyDepth] then .ok (if endsWithSlash line then .inFolder else .anything)
  else if all = [anyDepth, anyName] then .ok .anything
  else if all = [anyDepth, anyName, anyDepth] then .ok .inFolder
  else
    match pieceElements? all with
    | none => .error .badPattern
    | some sequence =>
        if sequence.all rangesInOrder then .ok (.elements sequence) else .error .badRange

/-- A line without the blanks at its end, unless the last one has a backslash before it. -/
def trimLine (line : Text) : Text :=
  match line.reverse with
  | .scalar ' ' :: .scalar '\\' :: _ => line
  | _ => line.trimRight

/-- The rule of a line; none for a blank line and a comment. -/
def ofLine (line : Text) : Except Failure (Option Rule) :=
  let (negated, body) :=
    match trimLine line with
    | .scalar '!' :: rest => (true, some rest)
    | .scalar '#' :: _ => (false, none)
    | [] => (false, none)
    | body => (false, some body)
  match body with
  | none => .ok none
  | some body =>
      match targetOf body with
      | .ok target => .ok (some ⟨negated, target⟩)
      | .error .badPattern => .error (.badPattern line)
      | .error .badRange => .error .badRange

/-- The rule of a pattern; none if it is blank. Another value that is no text has none and fails. -/
def ofPattern : Pattern → Except Failure (Option Rule)
  | .text line => ofLine line
  | .other value => if value.isBlank then .ok none else .error .notText

def ofPatterns : List Pattern → Except Failure (List Rule)
  | [] => .ok []
  | pattern :: patterns =>
      match ofPattern pattern with
      | .error failure => .error failure
      | .ok rule =>
          match ofPatterns patterns with
          | .error failure => .error failure
          | .ok rules => .ok (rule.toList ++ rules)

/-- A path as rules see it: without one slash, or else one `./`, at its start. -/
def subject : Text → Text
  | .scalar '/' :: rest => rest
  | .scalar '.' :: .scalar '/' :: rest => rest
  | path => path

/-- Whether rules ignore a path: the last rule that matches decides, and without one it is kept. -/
def decides (rules : List Rule) (path : Text) : Bool :=
  match (rules.filter fun rule => rule.target.selects (subject path)).getLast? with
  | some rule => !rule.negated
  | none => false

end Rule
end ProjectLint
