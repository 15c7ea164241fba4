/-!
# Characters of YAML text

The classes of characters that the reader and the writer of YAML share. The end of the text counts
as a character of its own, `endMark`, which cannot stand inside a text that is read.
-/

namespace RegistryTree.Yaml

/-- What is read past the end of a text. -/
def endMark : Char := '\x00'

/-- The characters that end a line on their own, the carriage return left out. -/
def isLineEnd (c : Char) : Bool :=
  c = '\n' || c = '\u0085' || c = '\u2028' || c = '\u2029'

/-- The characters that a line break consists of. -/
def isBreak (c : Char) : Bool := c = '\r' || isLineEnd c

/-- A line break or the end of the text. -/
def isBreakOrEnd (c : Char) : Bool := c = endMark || isBreak c

/-- A space, a line break or the end of the text. -/
def isSpaceOrEnd (c : Char) : Bool := c = ' ' || isBreakOrEnd c

/-- A space, a tab, a line break or the end of the text. -/
def isWhiteOrEnd (c : Char) : Bool := c = '\t' || isSpaceOrEnd c

/-- A space or a tab. -/
def isTabOrSpace (c : Char) : Bool := c = ' ' || c = '\t'

/-- The characters that names of anchors, directives and tag handles are made of. -/
def isNameChar (c : Char) : Bool :=
  ('0' ≤ c && c ≤ '9') || ('A' ≤ c && c ≤ 'Z') || ('a' ≤ c && c ≤ 'z') || c = '-' || c = '_'

/-- The characters that the rest of a tag is made of; the percent sign starts an escape. -/
def isTagChar (c : Char) : Bool :=
  isNameChar c || ";/?:@&=+$,.!~*'()[]%".toList.contains c

/-- The characters that may stand in a text at all. -/
def isReadable (c : Char) : Bool :=
  let n := c.toNat
  n = 0x09 || n = 0x0A || n = 0x0D || (0x20 ≤ n && n ≤ 0x7E) || n = 0x85 ||
    (0xA0 ≤ n && n ≤ 0xD7FF) || (0xE000 ≤ n && n ≤ 0xFFFD) || 0x10000 ≤ n

/-- The mark of byte order, which takes no room on its line. -/
def byteOrderMark : Char := '\uFEFF'

end RegistryTree.Yaml
