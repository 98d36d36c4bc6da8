import ProjectLint.Text.Ranges

/-!
Blank code points, as Unicode and the information separators define them, and trimming. A code
point is blank if its bidirectional class is B, S or WS or its category is Zs.
-/

namespace ProjectLint

def blankRanges : Ranges :=
  [(0x09, 0x0D), (0x1C, 0x20), (0x85, 0x85), (0xA0, 0xA0), (0x1680, 0x1680), (0x2000, 0x200A),
    (0x2028, 0x2029), (0x202F, 0x202F), (0x205F, 0x205F), (0x3000, 0x3000)]

def CodePoint.isBlank (c : CodePoint) : Bool :=
  blankRanges.has c.toNat

namespace Text

def trimLeft (t : Text) : Text :=
  t.dropWhile CodePoint.isBlank

def trimRight (t : Text) : Text :=
  (t.reverse.dropWhile CodePoint.isBlank).reverse

end Text
end ProjectLint
