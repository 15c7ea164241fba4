import RegistryTree.Text.Digit
import RegistryTree.Yaml.Scalar.Shape
import RegistryTree.Yaml.Sheet

/-!
# Writing scalars

A scalar is written in the first of three styles that its shape and its place admit: without
quotes, between apostrophes, or between quotation marks with escapes, which admits everything. Lines
that have grown beyond the width are broken at a space where the style allows that; binary data is
written as the lines of a block.

> `writeScalar`: the sheet with a scalar written in a style.
-/

namespace RegistryTree.Yaml.Scalar

open RegistryTree.Text

/-- The ways to write a scalar. -/
inductive Style where
  | plain
  | single
  | double
  /-- A block of lines, for binary data. -/
  | literal
  deriving DecidableEq, Repr

/-- The column beyond which lines are broken. -/
def width : Nat := 80

/-- The white space of a text that is still to be written. -/
inductive Pending where
  | none
  /-- So many spaces, and whether the text begins with them. -/
  | spaces (count : Nat) (leading : Bool)
  /-- Line ends, the last first. -/
  | breaks (ends : List Char)

/-- Writes spaces; a single space inside a text gives way to a line break on a line that is too
long. -/
def putSpaces (split : Bool) (indent count : Nat) (inside : Bool) (p : Sheet) : Sheet :=
  if count = 1 && width < p.column && split && inside then p.toColumn indent
  else p.put (List.replicate count ' ')

/-- Writes line ends: one more where the first is a line feed, since a single one counts as a
space. -/
def putBreaks (indent : Nat) (ends : List Char) (p : Sheet) : Sheet :=
  let p := if ends.head? = some '\n' then p.lineBreak '\n' else p
  (ends.foldl (fun p c => p.lineBreak c) p).toColumn indent

/-- Writes the white space that is pending in front of another character. -/
def putPending (split : Bool) (indent : Nat) (pending : Pending) (p : Sheet) : Sheet :=
  match pending with
  | .none => p
  | .spaces count leading => putSpaces split indent count (!leading) p
  | .breaks ends => putBreaks indent ends.reverse p

/-- Writes the white space that is pending at the end of a text. -/
def putLastPending (indent : Nat) (pending : Pending) (p : Sheet) : Sheet :=
  match pending with
  | .none => p
  | .spaces count _ => p.put (List.replicate count ' ')
  | .breaks ends => putBreaks indent ends.reverse p

/-- Writes the text between two apostrophes. -/
def putSingle (split : Bool) (indent : Nat) : Bool → Pending → List Char → Sheet → Sheet
  | _, pending, [], p => putLastPending indent pending p
  | first, pending, c :: rest, p =>
    if c = ' ' then
      match pending with
      | .spaces count leading => putSingle split indent false (.spaces (count + 1) leading) rest p
      | _ => putSingle split indent false (.spaces 1 first) rest (putPending split indent pending p)
    else if isLineEnd c then
      match pending with
      | .breaks ends => putSingle split indent false (.breaks (c :: ends)) rest p
      | _ => putSingle split indent false (.breaks [c]) rest (putPending split indent pending p)
    else
      let p := putPending split indent pending p
      putSingle split indent false .none rest (p.put (if c = '\'' then ['\'', '\''] else [c]))

/-- Writes a text without quotes: it has no line ends and no spaces at its ends. -/
def putPlain (split : Bool) (indent : Nat) : Nat → List Char → Sheet → Sheet
  | spaces, [], p => p.put (List.replicate spaces ' ')
  | spaces, c :: rest, p =>
    if c = ' ' then putPlain split indent (spaces + 1) rest p
    else
      let p :=
        if spaces = 1 && width < p.column && split then (p.toColumn indent).mark false false
        else p.put (List.replicate spaces ' ')
      putPlain split indent 0 rest (p.put [c])

/-- The characters that are escaped with a letter of their own. -/
def escapeLetters : List (Char × Char) := [
  ('\x00', '0'), ('\x07', 'a'), ('\x08', 'b'), ('\t', 't'), ('\n', 'n'), ('\x0B', 'v'),
  ('\x0C', 'f'), ('\r', 'r'), ('\x1B', 'e'), ('"', '"'), ('\\', '\\'), ('\u0085', 'N'),
  ('\u00A0', '_'), ('\u2028', 'L'), ('\u2029', 'P')]

/-- Whether a character is escaped between quotation marks. -/
def needsEscape (c : Char) : Bool :=
  let n := c.toNat
  c = '"' || c = '\\' || c = '\u0085' || c = '\u2028' || c = '\u2029' || c = byteOrderMark ||
    !((0x20 ≤ n && n ≤ 0x7E) || (0xA0 ≤ n && n ≤ 0xD7FF) || (0xE000 ≤ n && n ≤ 0xFFFD))

/-- The escape of a character. -/
def escapeOf (c : Char) : List Char :=
  match escapeLetters.lookup c with
  | some l => ['\\', l]
  | none =>
    if c.toNat ≤ 0xFF then '\\' :: 'x' :: hexNumeral .upper 2 c.toNat
    else if c.toNat ≤ 0xFFFF then '\\' :: 'u' :: hexNumeral .upper 4 c.toNat
    else '\\' :: 'U' :: hexNumeral .upper 8 c.toNat

/-- Breaks the line inside a text between quotation marks: a backslash ends the line, and another
keeps a space in front of the next. -/
def breakDouble (indent : Nat) (next : Char) (p : Sheet) : Sheet :=
  let p := ((p.put ['\\']).toColumn indent).mark false false
  if next = ' ' then p.put ['\\'] else p

/-- Writes the text between two quotation marks. `held` are the characters, the last first, that are
not yet written. -/
def putDouble (split : Bool) (indent : Nat) : Bool → List Char → List Char → Sheet → Sheet
  | _, held, [], p => p.put held.reverse
  | first, held, c :: rest, p =>
    let inside := !first && split
    match rest with
    | [] =>
      if needsEscape c then (p.put held.reverse).put (escapeOf c) else p.put (c :: held).reverse
    | next :: _ =>
      if needsEscape c then
        let p := (p.put held.reverse).put (escapeOf c)
        let p := if inside && width < p.column - 1 then breakDouble indent next p else p
        putDouble split indent false [] rest p
      else if inside && (c = ' ' || held = []) && width < p.column + held.length then
        putDouble split indent false [c] rest (breakDouble indent c (p.put held.reverse))
      else putDouble split indent false (c :: held) rest p

/-- Writes the lines of a block. -/
def putLiteral (indent : Nat) (lines : List (List Char)) (p : Sheet) : Sheet :=
  lines.foldl (fun p line => ((p.toColumn indent).put line).lineBreak '\n') (p.lineBreak '\n')

/-- The lines of a text that ends with a line feed. -/
def linesOf (s : List Char) : List (List Char) :=
  s.foldr (fun c lines =>
    if c = '\n' then [] :: lines
    else match lines with
      | line :: rest => (c :: line) :: rest
      | [] => [[c]]) []

/-- Writes a scalar. `split` tells whether its lines may be broken, and `indent` where they go
on. -/
def writeScalar (style : Style) (split : Bool) (indent : Nat) (s : List Char) (p : Sheet) : Sheet :=
  match style with
  | .plain =>
    let p := if p.spaced then p else p.put [' ']
    putPlain split indent 0 s (p.mark false false)
  | .single =>
    (putSingle split indent true .none s (p.indicator ['\''] true false false)).indicator ['\'']
      false false false
  | .double =>
    (putDouble split indent true [] s (p.indicator ['"'] true false false)).indicator ['"']
      false false false
  | .literal => putLiteral indent (linesOf s) (p.indicator ['|'] true false false)

end RegistryTree.Yaml.Scalar
