import ProjectLint.Text.Hex
import ProjectLint.Text.Printable
import ProjectLint.Text.Word

/-!
Quoted text for messages. A text stands between single quotes, or between double quotes if it holds
a single quote and no double one. Inside, the quote in use and the backslash get a backslash, and
whatever is not printable is written as an escape, so that the written form stays on one line and
can be read back. Where a text is plain enough to be told from the words around it, quotes can be
left out.
-/

namespace ProjectLint.Text

/-- The quotation mark that a text is written in. -/
def quotationMark (t : Text) : CodePoint :=
  if t.contains (.scalar '\'') && !t.contains (.scalar '"') then '"' else '\''

/-- One code point inside quotation marks `mark`. -/
def escapeQuoted (mark c : CodePoint) : Text :=
  if c = mark || c = .scalar '\\' then [.scalar '\\', c]
  else if c = .scalar '\n' then ['\\', 'n']
  else if c = .scalar '\r' then ['\\', 'r']
  else if c = .scalar '\t' then ['\\', 't']
  else if c.isPrintable then [c]
  else if c.toNat < 0x100 then .scalar '\\' :: .scalar 'x' :: hexDigits 2 c.toNat
  else if c.toNat < 0x10000 then .scalar '\\' :: .scalar 'u' :: hexDigits 4 c.toNat
  else .scalar '\\' :: .scalar 'U' :: hexDigits 8 c.toNat

/-- A text as it is quoted in messages. -/
def quoted (t : Text) : Text :=
  let mark := t.quotationMark
  mark :: t.flatMap (escapeQuoted mark) ++ [mark]

/-- The marks that may stand in a text without quotes. -/
def plainMarks : Text := "@%+=:,./~-"

/-- Whether a text can stand without quotes: it is not empty and made of word characters and plain
marks. -/
def isPlain (t : Text) : Bool :=
  t != [] && t.all fun c => c.isWord || plainMarks.contains c

/-- A text as it is written in messages that leave out quotes where they can. -/
def quotedIfNeeded (t : Text) : Text :=
  if t.isPlain then t else t.quoted

end ProjectLint.Text
