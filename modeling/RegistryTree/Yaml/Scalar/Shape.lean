import RegistryTree.Yaml.Character

/-!
# What a text looks like as a scalar

Whether a text can be written without quotes, or between apostrophes, depends on a few of its
features: the characters that could be taken for indicators, the white space at its ends, and the
white space that meets line breaks. `Shape.ofText` collects them in one pass.
-/

namespace RegistryTree.Yaml.Scalar

/-- The features of a text that decide how it can be written. -/
structure Shape where
  /-- A character could be taken for an indicator. -/
  indicators : Bool := false
  /-- A line ends somewhere. -/
  breaks : Bool := false
  /-- A character must be escaped. -/
  special : Bool := false
  /-- A space or a line break stands at the start or at the end. -/
  ragged : Bool := false
  /-- A space follows a line break. -/
  breakSpace : Bool := false
  /-- A space stands before a line break. -/
  spaceBreak : Bool := false
  deriving DecidableEq, Repr

/-- The characters that are indicators at the start of a text. -/
def startIndicators : List Char := "#,[]\x7b\x7d&*!|>'\"%@`".toList

/-- Whether a character can be written as it is. -/
def isWritable (c : Char) : Bool :=
  let n := c.toNat
  c = '\n' || (0x20 ≤ n && n ≤ 0x7E) ||
    ((n = 0x85 || (0xA0 ≤ n && n ≤ 0xD7FF) || (0xE000 ≤ n && n ≤ 0xFFFD) ||
      (0x10000 ≤ n && n < 0x10FFFF)) && c ≠ byteOrderMark)

/-- Whether the first character of a text could be taken for an indicator. -/
def startsLikeIndicator (c after : Char) : Bool :=
  startIndicators.contains c ||
    ((c = '?' || c = ':' || c = '-') && isWhiteOrEnd after)

/-- Whether a later character of a text could be taken for an indicator. -/
def looksLikeIndicator (before c after : Char) : Bool :=
  (c = ':' && isWhiteOrEnd after) || (c = '#' && isWhiteOrEnd before)

/-- The features of the rest of a text, behind the character `before`. -/
def shapeFrom (before : Char) : List Char → Shape
  | [] => { ragged := before = ' ' || isLineEnd before }
  | c :: rest =>
    let s := shapeFrom c rest
    { indicators := s.indicators || looksLikeIndicator before c (rest.headD endMark)
      breaks := s.breaks || isLineEnd c
      special := s.special || !isWritable c
      ragged := s.ragged
      breakSpace := s.breakSpace || (isLineEnd before && c = ' ')
      spaceBreak := s.spaceBreak || (before = ' ' && isLineEnd c) }

/-- The features of a text that is not empty. -/
def Shape.ofText : List Char → Shape
  | [] => {}
  | c :: rest =>
    let s := shapeFrom c rest
    { indicators := s.indicators || startsLikeIndicator c (rest.headD endMark) ||
        "---".toList.isPrefixOf (c :: rest) || "...".toList.isPrefixOf (c :: rest)
      breaks := s.breaks || isLineEnd c
      special := s.special || !isWritable c
      ragged := s.ragged || c = ' ' || isLineEnd c
      breakSpace := s.breakSpace
      spaceBreak := s.spaceBreak }

/-- Whether a text of this shape can be written without quotes. -/
def Shape.plain (s : Shape) : Bool :=
  !s.indicators && !s.breaks && !s.special && !s.ragged && !s.breakSpace && !s.spaceBreak

/-- Whether a text of this shape can be written between apostrophes. -/
def Shape.single (s : Shape) : Bool := !s.special && !s.breakSpace && !s.spaceBreak

end RegistryTree.Yaml.Scalar
