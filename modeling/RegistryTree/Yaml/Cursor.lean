import RegistryTree.Yaml.Character
import RegistryTree.Yaml.Fault

/-!
# Positions in a text

A cursor is what is left of a text together with the place that has been reached: how many
characters have been read, how many lines have ended, and the column in the current line. Only the
column matters for the shape of a document; the other two bound how long a key may be. A text may be
known in part, and then what is wrong behind the known part belongs to the cursor.

> `Cursor.rest_next`, `Cursor.rest_skip`: reading takes characters off the front.
-/

namespace RegistryTree.Yaml

/-- A place in a text and what is left from there. -/
structure Cursor where
  rest : List Char
  index : Nat := 0
  line : Nat := 0
  column : Nat := 0
  /-- What is wrong behind the text, where it could not be read any further. -/
  ending : Option Fault := none
  deriving Repr

namespace Cursor

/-- The start of a text. -/
def start (text : List Char) (ending : Option Fault) : Cursor := { rest := text, ending }

/-- The next character. -/
def peek (c : Cursor) : Char := c.rest.headD endMark

/-- The character after so many others. -/
def peekAt (c : Cursor) (n : Nat) : Char := (c.rest.drop n).headD endMark

/-- Moves past one character. A carriage return before a line feed does not end the line yet, and a
mark of byte order takes no column. -/
def next (c : Cursor) : Cursor :=
  match c.rest with
  | [] => c
  | ch :: rest =>
    if isLineEnd ch || (ch = '\r' && rest.head? ≠ some '\n') then
      { c with rest, index := c.index + 1, line := c.line + 1, column := 0 }
    else
      { c with
        rest, index := c.index + 1
        column := if ch = byteOrderMark then c.column else c.column + 1 }

/-- Moves past so many characters. -/
def skip (c : Cursor) : Nat → Cursor
  | 0 => c
  | n + 1 => c.next.skip n

/-- Moves past all characters of a class. -/
def skipWhile (p : Char → Bool) (c : Cursor) : Cursor := c.skip (c.rest.takeWhile p).length

/-- The characters of a class at the front, and the cursor after them. -/
def spanWhile (p : Char → Bool) (c : Cursor) : List Char × Cursor :=
  let run := c.rest.takeWhile p
  (run, c.skip run.length)

/-- Whether the text goes on with the given one. -/
def startsWith (c : Cursor) (s : List Char) : Bool := s.isPrefixOf c.rest

/-- Moves past a line break, if there is one, and gives the break as it counts in a scalar: the line
feed for every way to end a line but the two separators. -/
def lineBreak (c : Cursor) : List Char × Cursor :=
  if c.startsWith ['\r', '\n'] then (['\n'], c.skip 2)
  else if c.peek = '\r' || c.peek = '\n' || c.peek = '\u0085' then (['\n'], c.next)
  else if c.peek = '\u2028' || c.peek = '\u2029' then ([c.peek], c.next)
  else ([], c)

/-- Moves past the rest of a comment: everything up to the end of the line. -/
def skipLine (c : Cursor) : Cursor := c.skipWhile fun ch => !isBreakOrEnd ch

/-- Whether one of the two marks between documents stands here, followed by white space. -/
def atDocumentMark (c : Cursor) : Bool :=
  (c.startsWith ['-', '-', '-'] || c.startsWith ['.', '.', '.']) && isWhiteOrEnd (c.peekAt 3)

/-- The fault that shows at the cursor: the given one, unless the text could not be read to here. -/
def fault (c : Cursor) (fault : Fault) : Fault :=
  if c.rest = [] then c.ending.getD fault else fault

/-- What is wrong behind the text, when no more than one of its characters is left. One character
is looked at in advance. -/
def cutOff? (c : Cursor) : Option Fault :=
  if c.rest.length < 2 then c.ending else none

theorem rest_next (c : Cursor) : c.next.rest = c.rest.tail := by
  unfold next
  split
  · next h => simp [h]
  · next h => split <;> simp [h]

theorem rest_skip (c : Cursor) (n : Nat) : (c.skip n).rest = c.rest.drop n := by
  induction n generalizing c with
  | zero => rfl
  | succ n ih => rw [skip, ih, rest_next, List.drop_tail]

end Cursor

end RegistryTree.Yaml
