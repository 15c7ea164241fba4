import RegistryTree.Text.Digit
import RegistryTree.Text.Printable

/-!
# Quoted text in messages

Messages show a file name or another piece of foreign text between quotes, so that blanks, line
breaks and invisible characters can be told apart. The apostrophe is the quote unless the text
holds apostrophes and no quotation mark. The quote and the backslash get a backslash before them,
the tab and the line ends have letters of their own, and every other character that is not
printable is written by its number.

Some messages also ask whether they hold a text already, so as not to say it twice.
-/

namespace RegistryTree.Text

/-- The quote that encloses a text. -/
def quoteMark (s : List Char) : Char :=
  if s.contains '\'' && !s.contains '"' then '"' else '\''

/-- How one character is shown between the given quotes. -/
def quotedChar (mark c : Char) : List Char :=
  if c = mark ∨ c = '\\' then ['\\', c]
  else if c = '\n' then ['\\', 'n']
  else if c = '\r' then ['\\', 'r']
  else if c = '\t' then ['\\', 't']
  else if isPrintable c then [c]
  else if c.toNat < 0x100 then ['\\', 'x'] ++ hexNumeral .lower 2 c.toNat
  else if c.toNat < 0x10000 then ['\\', 'u'] ++ hexNumeral .lower 4 c.toNat
  else ['\\', 'U'] ++ hexNumeral .lower 8 c.toNat

/-- A text between quotes. -/
def quoteChars (s : List Char) : List Char :=
  quoteMark s :: s.flatMap (quotedChar (quoteMark s)) ++ [quoteMark s]

/-- A text between quotes. -/
def quote (s : String) : String := String.ofList (quoteChars s.toList)

/-- Whether a text occurs in another. -/
def occursIn (s : List Char) : List Char → Bool
  | [] => s = []
  | c :: rest => s.isPrefixOf (c :: rest) || occursIn s rest

end RegistryTree.Text
