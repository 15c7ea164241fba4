import RegistryTree.Text.Digit
import RegistryTree.Yaml.Token

/-!
# Reading directives, anchors and aliases

A directive takes a whole line that begins with a percent sign. An anchor or an alias is an
indicator with a name.
-/

namespace RegistryTree.Yaml

open RegistryTree.Number RegistryTree.Text

/-- A name of at least one character, and the cursor behind it. -/
def readName (c : Cursor) : Except Fault (List Char × Cursor) :=
  let (name, c) := c.spanWhile isNameChar
  if name = [] then .error (c.fault .malformed) else .ok (name, c)

/-- Reads the name of an anchor or an alias; the cursor is at its indicator. -/
def readAnchorName (c : Cursor) : Except Fault (List Char × Cursor) := do
  let (name, c) ← readName c.next
  if isWhiteOrEnd c.peek || "?:,]\x7d%@`".toList.contains c.peek then return (name, c)
  else .error .malformed

/-- Moves past spaces. -/
def skipSpaces (c : Cursor) : Cursor := c.skipWhile (· = ' ')

/-- A number of a version. -/
def readVersionNumber (c : Cursor) : Except Fault (Nat × Cursor) :=
  let (digits, c) := c.spanWhile Char.isDigit
  if digits = [] then .error (c.fault .malformed)
  else if digitLimit < digits.length then
    .error (c.fault (.numeral (.tooLong digits.length)))
  else .ok (digitsValue digits, c)

/-- The version that a directive names: two numbers with a point between them. -/
def readVersion (c : Cursor) : Except Fault (Directive × Cursor) := do
  let (major, c) ← readVersionNumber (skipSpaces c)
  if c.peek ≠ '.' then .error (c.fault .malformed)
  else
    let (_, c) ← readVersionNumber c.next
    if isSpaceOrEnd c.peek then return (.version major, c) else .error .malformed

/-- The handle that a directive defines and what it stands for. -/
def readHandleDefinition (c : Cursor) : Except Fault (Directive × Cursor) := do
  let (name, c) ← readTagHandle (skipSpaces c)
  if c.peek ≠ ' ' then .error (c.fault .malformed)
  else
    let (stem, c) ← readTagSuffix (skipSpaces c)
    if isSpaceOrEnd c.peek then return (.handle name stem, c) else .error .malformed

/-- The rest of the line of a directive: a comment at most. -/
def readDirectiveEnd (c : Cursor) : Except Fault Cursor :=
  let c := skipSpaces c
  let c := if c.peek = '#' then c.skipLine else c
  if isBreakOrEnd c.peek then .ok c.lineBreak.2 else .error .malformed

/-- Reads a directive; the cursor is at its percent sign. -/
def readDirective (c : Cursor) : Except Fault (Directive × Cursor) := do
  let (name, c) ← readName c.next
  if !isSpaceOrEnd c.peek then .error .malformed
  else
    let (directive, c) ←
      if name = "YAML".toList then readVersion c
      else if name = "TAG".toList then readHandleDefinition c
      else pure (.unknown, c.skipLine)
    let c ← readDirectiveEnd c
    return (directive, c)

end RegistryTree.Yaml
