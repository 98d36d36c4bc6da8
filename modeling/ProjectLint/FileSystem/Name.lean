import ProjectLint.Path.Relative
import ProjectLint.Text.Utf8.Escaped

/-!
Names of files as the system takes them. A name is passed on as bytes in UTF-8. A surrogate half
from U+DC80 to U+DCFF stands for one byte; the other halves and the zero byte cannot be passed on.
Texts with the same bytes name the same file, and the system gives back the one that its bytes are
read as.
-/

namespace ProjectLint

/-- Why the system refuses an operation on a path. -/
inductive Errno where
  | notFound
  | exists
  | notDirectory
  | isDirectory
  | nameTooLong
  | tooManyLinks
deriving DecidableEq

namespace Errno

def number : Errno → Nat
  | notFound => 2
  | «exists» => 17
  | notDirectory => 20
  | isDirectory => 21
  | nameTooLong => 36
  | tooManyLinks => 40

def phrase : Errno → Text
  | notFound => "No such file or directory"
  | «exists» => "File exists"
  | notDirectory => "Not a directory"
  | isDirectory => "Is a directory"
  | nameTooLong => "File name too long"
  | tooManyLinks => "Too many levels of symbolic links"

end Errno

/-- Why a path names nothing that can be used: the system refuses, or the path cannot be passed to
the system because it holds a zero byte or a surrogate half. -/
inductive PathFault where
  | refused (errno : Errno)
  | zeroByte
  | surrogate
deriving DecidableEq

/-- The number of bytes that a text has as a name. -/
def Text.nameLength (t : Text) : Nat :=
  (Utf8.encodeEscaped t).length

/-- A text as the system gives it back. Without code points that stand for bytes it is the same. -/
def Text.asName (t : Text) : Text :=
  if t.any fun c => c.rawByte?.isSome then Utf8.decodeEscaped (Utf8.encodeEscaped t) else t

/-- The greatest length of a name in bytes. -/
def maxNameBytes : Nat := 255

/-- The greatest length of a path in bytes. -/
def maxPathBytes : Nat := 4095

def isTooLong (t : Text) : Bool :=
  maxPathBytes < t.nameLength

/-- Whether a text can be passed to the system as a path. -/
def checkSpelling (t : Text) : Except PathFault Unit :=
  if t.any fun c => 0xD800 ≤ c.toNat && c.toNat < 0xE000 && c.rawByte?.isNone then .error .surrogate
  else if t.contains (.scalar '\x00') then .error .zeroByte
  else .ok ()

/-- Whether a text is one component that leads down: it is not empty, neither `.` nor `..`, and has
no slash. -/
def leadsDown (name : Text) : Bool :=
  name != [] && name != selfPart && name != parentPart && !name.contains (.scalar '/')

/-- Whether an entry of a directory can have a name: it leads down, can be passed to the system, is
not too long, and is given back as it is. -/
def isEntryName (name : Text) : Bool :=
  leadsDown name && (checkSpelling name).isOk && name.nameLength ≤ maxNameBytes &&
    name.asName == name

end ProjectLint
