import RegistryTree.Yaml.Character

/-!
# The sheet that is written on

A sheet is the text written so far, with the column that has been reached and two facts about the
end of the text that decide where white space is wanted. The operations add to the text and never
take anything back.

> `Sheet.text_put`, `Sheet.text_lineBreak`: what the operations add.
-/

namespace RegistryTree.Yaml

/-- The text written so far and the place that has been reached. -/
structure Sheet where
  /-- The characters written, the last first. -/
  backward : List Char := []
  column : Nat := 0
  /-- Whether no space is needed before the next word. -/
  spaced : Bool := true
  /-- Whether the line so far holds nothing but indentation and block indicators. -/
  indenting : Bool := true

namespace Sheet

/-- The text written so far. -/
def text (p : Sheet) : List Char := p.backward.reverse

/-- Writes characters as they are. -/
def put (s : List Char) (p : Sheet) : Sheet :=
  { p with backward := s.reverse ++ p.backward, column := p.column + s.length }

/-- Ends the line with the given character. -/
def lineBreak (c : Char) (p : Sheet) : Sheet :=
  { backward := c :: p.backward, column := 0, spaced := true, indenting := true }

/-- Says what the end of the text is like. -/
def mark (spaced indenting : Bool) (p : Sheet) : Sheet := { p with spaced, indenting }

/-- Writes an indicator. `apart` puts a space before it where one is needed, `spaced` tells that
none is needed after it, and `block` that it belongs to the indentation. -/
def indicator (s : List Char) (apart : Bool) (spaced block : Bool) (p : Sheet) : Sheet :=
  (p.put (if p.spaced || !apart then s else ' ' :: s)).mark spaced (p.indenting && block)

/-- Goes on at the given column, on a new line unless the present one is still empty enough. -/
def toColumn (indent : Nat) (p : Sheet) : Sheet :=
  let p :=
    if !p.indenting || indent < p.column || (p.column = indent && !p.spaced) then p.lineBreak '\n'
    else p
  if p.column < indent then
    (p.put (List.replicate (indent - p.column) ' ')).mark true p.indenting
  else p

theorem text_put (s : List Char) (p : Sheet) : (p.put s).text = p.text ++ s := by
  simp [text, put]

theorem text_lineBreak (c : Char) (p : Sheet) : (p.lineBreak c).text = p.text ++ [c] := by
  simp [text, lineBreak]

theorem text_mark (spaced indenting : Bool) (p : Sheet) : (p.mark spaced indenting).text = p.text :=
  rfl

end Sheet

end RegistryTree.Yaml
