import RegistryTree.Yaml.Cursor
import RegistryTree.Yaml.Fault

/-!
# Reading block scalars

A block scalar is the lines that are indented deeper than the collection it belongs to. The header
says whether its line breaks are kept or folded, may give the indentation, and may say what becomes
of the line breaks at the end: one is kept if nothing is said.

> `readBlock`: the text of a block scalar and the cursor behind it.
-/

namespace RegistryTree.Yaml.Scalar

/-- What becomes of the line breaks at the end of a block scalar. -/
inductive Chomping where
  /-- All are dropped. -/
  | strip
  /-- The first is kept. -/
  | clip
  /-- All are kept. -/
  | keep
  deriving DecidableEq, Repr

/-- The header of a block scalar. -/
structure BlockHeader where
  chomping : Chomping
  /-- The indentation against the enclosing collection. -/
  increment : Option Nat

/-- The sign that says what becomes of the line breaks at the end. -/
def chomping? (ch : Char) : Option Chomping :=
  if ch = '+' then some .keep else if ch = '-' then some .strip else none

/-- The digit that gives the indentation. -/
def increment? (ch : Char) : Option Nat :=
  if '0' ≤ ch ∧ ch ≤ '9' then some (ch.toNat - 0x30) else none

/-- Reads the two signs of a header, which may come in either order. -/
def blockIndicators (c : Cursor) : BlockHeader × Cursor :=
  match chomping? c.peek with
  | some chomping =>
    let c := c.next
    match increment? c.peek with
    | some n => (⟨chomping, some n⟩, c.next)
    | none => (⟨chomping, none⟩, c)
  | none =>
    match increment? c.peek with
    | some n =>
      let c := c.next
      match chomping? c.peek with
      | some chomping => (⟨chomping, some n⟩, c.next)
      | none => (⟨.clip, some n⟩, c)
    | none => (⟨.clip, none⟩, c)

/-- The rest of the line of a header: a comment at most. -/
def blockHeaderEnd (c : Cursor) : Except Fault Cursor :=
  let c := c.skipWhile (· = ' ')
  let c := if c.peek = '#' then c.skipLine else c
  if isBreakOrEnd c.peek then .ok c.lineBreak.2 else .error .malformed

/-- Reads the header of a block scalar; the cursor is behind its indicator. -/
def blockHeader (c : Cursor) : Except Fault (BlockHeader × Cursor) :=
  let (header, c) := blockIndicators c
  if header.increment = some 0 then .error .malformed
  else if isSpaceOrEnd c.peek then do
    let c ← blockHeaderEnd c
    return (header, c)
  else .error .malformed

/-- The empty lines in front of the text, and the deepest column among them and the first line of
the text. -/
def leadingLines : Nat → Nat → Cursor → List Char × Nat × Cursor
  | 0, deepest, c => ([], deepest, c)
  | fuel + 1, deepest, c =>
    if c.peek = ' ' then
      let c := c.next
      leadingLines fuel (max deepest c.column) c
    else if isBreak c.peek then
      let (br, c) := c.lineBreak
      let (more, deepest, c) := leadingLines fuel deepest c
      (br ++ more, deepest, c)
    else ([], deepest, c)

/-- Moves past the indentation of a line, up to the given column. -/
def skipIndent (indent : Nat) (c : Cursor) : Cursor :=
  c.skip ((c.rest.take (indent - c.column)).takeWhile (· = ' ')).length

/-- The empty lines between two lines of the text. -/
def emptyLines (indent : Nat) : Nat → Cursor → List Char × Cursor
  | 0, c => ([], c)
  | fuel + 1, c =>
    let c := skipIndent indent c
    if isBreak c.peek then
      let (br, c) := c.lineBreak
      let (more, c) := emptyLines indent fuel c
      (br ++ more, c)
    else ([], c)

/-- The lines of the text from the cursor on; `breaks` are the empty lines in front. At the end the
last line break and the empty lines behind it are given apart. -/
def blockLines (folded : Bool) (indent : Nat) :
    Nat → List Char → List Char → Cursor → List Char × List Char × List Char × Cursor
  | 0, last, breaks, c => ([], last, breaks, c)
  | fuel + 1, last, breaks, c =>
    if c.column = indent ∧ c.peek ≠ endMark then
      let startsWithText := !isTabOrSpace c.peek
      let (line, c) := c.spanWhile fun ch => !isBreakOrEnd ch
      let (br, c) := c.lineBreak
      let (empty, c) := emptyLines indent (c.rest.length + 1) c
      if c.column = indent ∧ c.peek ≠ endMark then
        let joint :=
          if folded ∧ br = ['\n'] ∧ startsWithText ∧ !isTabOrSpace c.peek then
            if empty = [] then [' '] else []
          else br
        let (more, last, breaks', c) := blockLines folded indent fuel br empty c
        (breaks ++ line ++ joint ++ more, last, breaks', c)
      else (breaks ++ line, br, empty, c)
    else ([], last, breaks, c)

/-- Reads a block scalar; the cursor is at its indicator, and `parent` is the column of the
enclosing collection. -/
def readBlock (folded : Bool) (parent : Int) (c : Cursor) :
    Except Fault (List Char × Cursor) := do
  let (header, c) ← blockHeader c.next
  let least := max 1 (parent + 1).toNat
  let (indent, breaks, c) := match header.increment with
    | some n =>
      let indent := least + n - 1
      let (breaks, c) := emptyLines indent (c.rest.length + 1) c
      (indent, breaks, c)
    | none =>
      let (breaks, deepest, c) := leadingLines (c.rest.length + 1) 0 c
      (max least deepest, breaks, c)
  let (text, last, breaks, c) := blockLines folded indent (c.rest.length + 1) [] breaks c
  let tail := match header.chomping with
    | .strip => []
    | .clip => last
    | .keep => last ++ breaks
  return (text ++ tail, c)

end RegistryTree.Yaml.Scalar
