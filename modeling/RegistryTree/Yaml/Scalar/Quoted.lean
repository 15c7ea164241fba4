import RegistryTree.Text.Digit
import RegistryTree.Yaml.Cursor
import RegistryTree.Yaml.Fault

/-!
# Reading quoted scalars

A scalar between apostrophes holds an apostrophe as two; one between quotation marks has escapes
that begin with a backslash. In both, white space around a line break is dropped, a single line feed
counts as a space, and every further line break counts as itself.

> `readQuoted`: the text of a quoted scalar and the cursor after its closing quote.
-/

namespace RegistryTree.Yaml.Scalar

open RegistryTree.Text

/-- The two quotes. -/
inductive Quote where
  | single
  | double
  deriving DecidableEq, Repr

/-- The character of a quote. -/
def Quote.char : Quote → Char
  | .single => '\''
  | .double => '"'

/-- The characters that single letters after a backslash stand for. -/
def escapes : List (Char × Char) := [
  ('0', '\x00'), ('a', '\x07'), ('b', '\x08'), ('t', '\t'), ('\t', '\t'), ('n', '\n'),
  ('v', '\x0B'), ('f', '\x0C'), ('r', '\r'), ('e', '\x1B'), (' ', ' '), ('"', '"'), ('\\', '\\'),
  ('/', '/'), ('N', '\u0085'), ('_', '\u00A0'), ('L', '\u2028'), ('P', '\u2029')]

/-- The number of hexadecimal digits after the letter of a numeric escape. -/
def escapeWidth? : Char → Option Nat
  | 'x' => some 2
  | 'u' => some 4
  | 'U' => some 8
  | _ => none

/-- The character of a number. The numbers of surrogates are those of no character, and have a fault
of their own. -/
def charOfNumber (n : Nat) : Except Fault Char :=
  if 0x7FFFFFFF < n then .error .wideCharacterNumber
  else if 0x10FFFF < n then .error .characterNumber
  else if 0xD800 ≤ n ∧ n ≤ 0xDFFF then .error .surrogate
  else .ok (Char.ofNat n)

/-- The line breaks inside a quoted scalar, with the white space around them dropped. A mark between
documents may not stand at the start of a line. -/
def quotedBreaks : Nat → Cursor → Except Fault (List Char × Cursor)
  | 0, _ => .error .malformed
  | fuel + 1, c =>
    if c.atDocumentMark then .error ((c.skip 3).fault .malformed)
    else
      let c := c.skipWhile isTabOrSpace
      if isBreak c.peek then do
        let (br, c) := c.lineBreak
        let (more, c) ← quotedBreaks fuel c
        return (br ++ more, c)
      else .ok ([], c)

/-- The white space at the cursor: kept when it stands inside a line, folded when a line ends. -/
def quotedSpaces (c : Cursor) : Except Fault (List Char × Cursor) :=
  let (blanks, c) := c.spanWhile isTabOrSpace
  if c.peek = endMark then .error (c.fault .malformed)
  else if isBreak c.peek then do
    let (br, c) := c.lineBreak
    let (breaks, c) ← quotedBreaks (c.rest.length + 1) c
    let folded := if br ≠ ['\n'] then br else if breaks = [] then [' '] else []
    return (folded ++ breaks, c)
  else .ok (blanks, c)

/-- An escape; the cursor is behind the backslash. -/
def readEscape (c : Cursor) : Except Fault (List Char × Cursor) :=
  match escapes.lookup c.peek with
  | some ch => .ok ([ch], c.next)
  | none =>
    match escapeWidth? c.peek with
    | some width =>
      let c := c.next
      let digits := c.rest.take width
      match hexRead? digits with
      | some n =>
        if digits.length < width then .error ((c.skip width).fault .malformed)
        else do
          let ch ← charOfNumber n
          return ([ch], c.skip width)
      | none => .error (c.fault .malformed)
    | none =>
      if isBreak c.peek then
        let c := c.lineBreak.2
        quotedBreaks (c.rest.length + 1) c
      else .error (c.fault .malformed)

/-- The text up to the closing quote, and the cursor behind the quote. -/
def quotedText (quote : Quote) : Nat → Cursor → Except Fault (List Char × Cursor)
  | 0, _ => .error .malformed
  | fuel + 1, c => do
    let ch := c.peek
    if ch = quote.char then
      if quote = .single ∧ c.peekAt 1 = '\'' then
        let (more, c) ← quotedText quote fuel (c.skip 2)
        return ('\'' :: more, c)
      else return ([], c.next)
    else if quote = .double ∧ ch = '\\' then
      let (part, c) ← readEscape c.next
      let (more, c) ← quotedText quote fuel c
      return (part ++ more, c)
    else if isWhiteOrEnd ch then
      let (part, c) ← quotedSpaces c
      let (more, c) ← quotedText quote fuel c
      return (part ++ more, c)
    else
      let (more, c) ← quotedText quote fuel c.next
      return (ch :: more, c)

/-- Reads a quoted scalar; the cursor is at its opening quote. -/
def readQuoted (quote : Quote) (c : Cursor) : Except Fault (List Char × Cursor) :=
  quotedText quote (c.rest.length + 1) c.next

end RegistryTree.Yaml.Scalar
