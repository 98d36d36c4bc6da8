import ProjectLint.FileSystem.Lookup

/-!
Text files: UTF-8, with every line ending read as a line feed.
-/

namespace ProjectLint

/-- A text in which a carriage return, alone or before a line feed, has become a line feed. -/
def Text.unifyLineEndings : Text → Text
  | .scalar '\r' :: .scalar '\n' :: rest => .scalar '\n' :: unifyLineEndings rest
  | c :: rest => (if c = .scalar '\r' then .scalar '\n' else c) :: unifyLineEndings rest
  | [] => []

/-- Why a file gives no text: it cannot be reached, or its bytes are not UTF-8. -/
inductive TextFault where
  | path (fault : PathFault)
  | undecodable (fault : Utf8.Fault)
deriving DecidableEq

def FileSystem.readText (fs : FileSystem) (path : Path) : Except TextFault Text :=
  match fs.readBytes path with
  | .error fault => .error (.path fault)
  | .ok bytes =>
      match Utf8.decode bytes with
      | .error fault => .error (.undecodable fault)
      | .ok text => .ok text.unifyLineEndings

end ProjectLint
