import RegistryTree.Yaml.Cursor

/-!
# Reading plain scalars

A plain scalar has no quotes. It ends before a colon or a number sign that white space sets apart,
inside brackets also before the characters that structure them, and at the end of the lines that
are indented deeper than the collection it belongs to. Its lines are folded as in a quoted scalar.

> `readPlain`: the text of a plain scalar, the cursor behind it, and whether a line break has been
> read with it.
-/

namespace RegistryTree.Yaml.Scalar

/-- Whether a plain scalar stops in front of a character; the second is the one after it. -/
def endsPlain (inFlow : Bool) (ch after : Char) : Bool :=
  isWhiteOrEnd ch ||
    (ch = ':' && (isWhiteOrEnd after || (inFlow && ",[]\x7b\x7d".toList.contains after))) ||
    (inFlow && ",?[]\x7b\x7d".toList.contains ch)

/-- The part of a plain scalar that stands in one word. -/
def plainWord (inFlow : Bool) : List Char → List Char
  | [] => []
  | ch :: rest =>
    if endsPlain inFlow ch (rest.headD endMark) then [] else ch :: plainWord inFlow rest

/-- The empty lines after a line of a plain scalar; `none` when a mark between documents follows. -/
def plainBreaks : Nat → Cursor → Option (List Char) × Cursor
  | 0, c => (some [], c)
  | fuel + 1, c =>
    if c.peek = ' ' then plainBreaks fuel c.next
    else if isBreak c.peek then
      let (br, c) := c.lineBreak
      if c.atDocumentMark then (none, c)
      else
        let (more, c) := plainBreaks fuel c
        (more.map (br ++ ·), c)
    else (some [], c)

/-- The white space after a word of a plain scalar. -/
structure PlainGap where
  /-- What the white space counts as inside the scalar; `none` when the scalar cannot go on. -/
  text : Option (List Char)
  /-- Whether a line ended. -/
  broken : Bool
  cursor : Cursor

/-- Reads the white space after a word of a plain scalar. -/
def plainGap (c : Cursor) : PlainGap :=
  let (blanks, c) := c.spanWhile (· = ' ')
  if isBreak c.peek then
    let (br, c) := c.lineBreak
    if c.atDocumentMark then ⟨none, true, c⟩
    else
      let (breaks, c) := plainBreaks (c.rest.length + 1) c
      match breaks with
      | none => ⟨none, true, c⟩
      | some breaks =>
        let folded := if br ≠ ['\n'] then br else if breaks = [] then [' '] else []
        ⟨some (folded ++ breaks), true, c⟩
  else ⟨if blanks = [] then none else some blanks, false, c⟩

/-- What has been read of a plain scalar. -/
structure PlainText where
  text : List Char
  /-- Whether a line ended behind the last word. -/
  broken : Bool
  cursor : Cursor

/-- The words of a plain scalar from the cursor on; `gap` is the white space in front of them, and
the scalar ends before it when no word follows. -/
def plainText (indent : Int) (inFlow : Bool) : Nat → List Char → Bool → Cursor → PlainText
  | 0, _, broken, c => ⟨[], broken, c⟩
  | fuel + 1, gap, broken, c =>
    if c.peek = '#' then ⟨[], broken, c⟩
    else
      match plainWord inFlow c.rest with
      | [] => ⟨[], broken, c⟩
      | word =>
        let after := plainGap (c.skip word.length)
        match after.text with
        | some next =>
          if after.cursor.peek = '#' ∨ (!inFlow ∧ (after.cursor.column : Int) < indent) then
            ⟨gap ++ word, after.broken, after.cursor⟩
          else
            let more := plainText indent inFlow fuel next after.broken after.cursor
            ⟨gap ++ word ++ more.text, more.broken, more.cursor⟩
        | none => ⟨gap ++ word, after.broken, after.cursor⟩

/-- Reads a plain scalar; `indent` is the least column of its further lines. -/
def readPlain (indent : Int) (inFlow : Bool) (c : Cursor) : PlainText :=
  plainText indent inFlow (c.rest.length + 1) [] false c

end RegistryTree.Yaml.Scalar
