import RegistryTree.Yaml.Directive
import RegistryTree.Yaml.Scalar.Block
import RegistryTree.Yaml.Scalar.Plain
import RegistryTree.Yaml.Scalar.Quoted

/-!
# From text to tokens

The tokens of a text are found from left to right, and whether a token is a key shows only when the
colon behind it comes: the tokens that open the key are then put in front of it. A key that may be
so found is a *candidate*; it is given up when its line ends or when it is too long. There is at
most one candidate for the block structure and one for every open bracket.

> `Tokens.ofText`: the tokens of a text, up to the first fault. Tokens that may still have a key
> token put in front of them when the fault shows are not counted as found.
-/

namespace RegistryTree.Yaml

open Scalar

/-- A token that may turn out to be a key. -/
structure KeyCandidate where
  /-- The number of tokens in front of it. -/
  number : Nat
  /-- Whether nothing but a key can stand here. -/
  required : Bool
  index : Nat
  line : Nat
  column : Nat
  deriving Repr

/-- A text that has been divided into tokens up to a cursor. -/
structure Lexer where
  cursor : Cursor
  /-- The tokens found, the newest first. -/
  tokens : List Token := []
  /-- The number of tokens found. -/
  count : Nat := 0
  /-- The column of the innermost block collection, `-1` outside of all. -/
  indent : Int := -1
  /-- The columns of the enclosing block collections. -/
  indents : List Int := []
  /-- Whether a key may begin at the cursor. -/
  keyAllowed : Bool := true
  /-- The candidates: of the innermost bracket first, of the block structure last. -/
  candidates : List (Option KeyCandidate) := [none]
  deriving Repr

/-- The greatest number of characters in a key that is not announced by a question mark. -/
def keyReach : Nat := 1024

namespace Lexer

/-- Whether the cursor is inside brackets. -/
def inFlow (s : Lexer) : Bool := 1 < s.candidates.length

/-- Adds a token. -/
def push (t : Token) (s : Lexer) : Lexer :=
  { s with tokens := t :: s.tokens, count := s.count + 1 }

/-- Puts an element so many places behind the front of a list. -/
def insertBehind {α : Type} (x : α) : Nat → List α → List α
  | 0, rest => x :: rest
  | _ + 1, [] => [x]
  | n + 1, y :: rest => y :: insertBehind x n rest

/-- Puts a token in front of all but the given number of tokens. -/
def insertToken (number : Nat) (t : Token) (s : Lexer) : Lexer :=
  { s with tokens := insertBehind t (s.count - number) s.tokens, count := s.count + 1 }

/-- Whether a candidate can no longer be a key at the given cursor. -/
def KeyCandidate.isStale (c : Cursor) (k : KeyCandidate) : Bool :=
  k.line ≠ c.line || keyReach < c.index - k.index

/-- A candidate given up; that is a fault when nothing but a key could stand there. -/
def giveUp : Option KeyCandidate → Except Fault (Option KeyCandidate)
  | some k => if k.required then .error .malformed else .ok none
  | none => .ok none

/-- Gives up the candidates that can no longer be keys. -/
def dropStale (s : Lexer) : Except Fault Lexer := do
  let candidates ← s.candidates.mapM fun k =>
    if k.any (KeyCandidate.isStale s.cursor) then giveUp k else pure k
  return { s with candidates }

/-- The candidate of the innermost bracket. -/
def candidate (s : Lexer) : Option KeyCandidate := s.candidates.head?.join

/-- Replaces the candidate of the innermost bracket. -/
def setCandidate (k : Option KeyCandidate) (s : Lexer) : Lexer :=
  { s with candidates := k :: s.candidates.tail }

/-- Gives up the candidate of the innermost bracket. -/
def dropCandidate (s : Lexer) : Except Fault Lexer := do
  let k ← giveUp s.candidate
  return s.setCandidate k

/-- Makes the token at the cursor a candidate, where a key may begin. -/
def saveCandidate (s : Lexer) : Except Fault Lexer :=
  if s.keyAllowed then do
    let s ← s.dropCandidate
    return s.setCandidate (some {
      number := s.count
      -- at the column of a block collection nothing but a key can stand
      required := !s.inFlow && s.indent = s.cursor.column
      index := s.cursor.index
      line := s.cursor.line
      column := s.cursor.column })
  else .ok s

/-- Closes the block collections that are indented deeper than a column. -/
def closeBlocks (column : Int) : List Int → Lexer → Lexer
  | [], s => s
  | outer :: indents, s =>
    if column < s.indent then
      closeBlocks column indents { s.push .blockEnd with indent := outer, indents := indents }
    else s

/-- Closes the block collections that are indented deeper than a column; brackets keep them open. -/
def unwind (column : Int) (s : Lexer) : Lexer :=
  if s.inFlow then s else closeBlocks column s.indents s

/-- Opens a block collection at a column that is deeper than the present one. The token that opens
it goes in front of all but the given number of tokens. -/
def openBlock (t : Token) (number column : Nat) (s : Lexer) : Lexer :=
  if s.indent < column then
    { s.insertToken number t with indent := column, indents := s.indent :: s.indents }
  else s

/-- Moves past spaces, comments and line breaks. A key may begin on every new line. -/
def skipToToken : Nat → Lexer → Lexer
  | 0, s => s
  | fuel + 1, s =>
    let c := s.cursor.skipWhile (· = ' ')
    let c := if c.peek = '#' then c.skipLine else c
    let (br, c') := c.lineBreak
    if br = [] then { s with cursor := c }
    else skipToToken fuel { s with cursor := c', keyAllowed := s.keyAllowed || !s.inFlow }

/-- Moves past white space to the next token, from the start of the text also past a mark of byte
order. -/
def toNextToken (s : Lexer) : Lexer :=
  let c := s.cursor
  let c := if c.index = 0 ∧ c.peek = byteOrderMark then c.next else c
  skipToToken (c.rest.length + 1) { s with cursor := c }

/-- Adds a token that is so many characters long. -/
def take (t : Token) (length : Nat) (s : Lexer) : Lexer :=
  { s with cursor := s.cursor.skip length }.push t

/-- The end of the text. -/
def takeEnd (s : Lexer) : Except Fault Lexer := do
  let s ← (s.unwind (-1)).dropCandidate
  return s.push .streamEnd

/-- A directive. -/
def takeDirective (s : Lexer) : Except Fault Lexer := do
  let s ← (s.unwind (-1)).dropCandidate
  let (directive, cursor) ← readDirective s.cursor
  return { s with cursor, keyAllowed := false }.push (.directive directive)

/-- A mark between documents. -/
def takeDocumentMark (t : Token) (s : Lexer) : Except Fault Lexer := do
  let s ← (s.unwind (-1)).dropCandidate
  return { s with keyAllowed := false }.take t 3

/-- An opening bracket, which may open a key. -/
def takeFlowStart (t : Token) (s : Lexer) : Except Fault Lexer := do
  let s ← s.saveCandidate
  return { s with keyAllowed := true, candidates := none :: s.candidates }.take t 1

/-- A closing bracket. -/
def takeFlowEnd (t : Token) (s : Lexer) : Except Fault Lexer := do
  let s ← s.dropCandidate
  return { s with keyAllowed := false, candidates := s.candidates.tail }.take t 1

/-- A comma. -/
def takeFlowEntry (s : Lexer) : Except Fault Lexer := do
  let s ← s.dropCandidate
  return { s with keyAllowed := true }.take .flowEntry 1

/-- The dash in front of an item of a block sequence. -/
def takeBlockEntry (s : Lexer) : Except Fault Lexer := do
  if !s.inFlow && !s.keyAllowed then .error (s.cursor.next.fault .malformed)
  else
    let s := if s.inFlow then s else s.openBlock .blockSequenceStart s.count s.cursor.column
    let s ← s.dropCandidate
    return { s with keyAllowed := true }.take .blockEntry 1

/-- The question mark in front of a key. -/
def takeKey (s : Lexer) : Except Fault Lexer := do
  if !s.inFlow && !s.keyAllowed then .error (s.cursor.next.fault .malformed)
  else
    let s := if s.inFlow then s else s.openBlock .blockMappingStart s.count s.cursor.column
    let s ← s.dropCandidate
    return { s with keyAllowed := !s.inFlow }.take .key 1

/-- The colon behind a key. -/
def takeValue (s : Lexer) : Except Fault Lexer := do
  match s.candidate with
  | some k =>
    -- the candidate is a key after all: its token goes in front, and in front of that the mapping
    let s := (s.setCandidate none).insertToken k.number .key
    let s := if s.inFlow then s else s.openBlock .blockMappingStart k.number k.column
    return { s with keyAllowed := false }.take .value 1
  | none =>
    if !s.inFlow && !s.keyAllowed then .error (s.cursor.next.fault .malformed)
    else
      let s := if s.inFlow then s else s.openBlock .blockMappingStart s.count s.cursor.column
      return { s with keyAllowed := !s.inFlow }.take .value 1

/-- An anchor, an alias, a tag or a scalar, read by the given function; all of them may be the start
of a key. -/
def takeContent (read : Lexer → Except Fault (Token × Bool × Cursor)) (s : Lexer) :
    Except Fault Lexer := do
  let s ← s.saveCandidate
  let (t, keyAllowed, cursor) ← read s
  return { s with cursor, keyAllowed }.push t

/-- A block scalar, behind which a key may begin. -/
def takeBlockScalar (folded : Bool) (s : Lexer) : Except Fault Lexer := do
  let s ← s.dropCandidate
  let (text, cursor) ← readBlock folded s.indent s.cursor
  return { s with cursor, keyAllowed := true }.push (.scalar text false)

/-- Reads an anchor or an alias. -/
def readReference (make : List Char → Token) (s : Lexer) :
    Except Fault (Token × Bool × Cursor) := do
  let (name, c) ← readAnchorName s.cursor
  return (make name, false, c)

/-- Reads a tag. -/
def readTagToken (s : Lexer) : Except Fault (Token × Bool × Cursor) := do
  let (tag, c) ← readTag s.cursor
  return (.tag tag, false, c)

/-- Reads a quoted scalar. -/
def readQuotedToken (quote : Quote) (s : Lexer) : Except Fault (Token × Bool × Cursor) := do
  let (text, c) ← readQuoted quote s.cursor
  return (.scalar text false, false, c)

/-- Reads a plain scalar. A key may begin behind it when a line has ended. -/
def readPlainToken (s : Lexer) : Except Fault (Token × Bool × Cursor) :=
  let plain := readPlain (s.indent + 1) s.inFlow s.cursor
  .ok (.scalar plain.text true, plain.broken, plain.cursor)

/-- Whether the character at the cursor, with the one after it, begins a plain scalar. -/
def beginsPlain (inFlow : Bool) (ch after : Char) : Bool :=
  !(isWhiteOrEnd ch || "-?:,[]\x7b\x7d#&*!|>'\"%@`".toList.contains ch) ||
    (!isWhiteOrEnd after && (ch = '-' || (!inFlow && (ch = '?' || ch = ':'))))

/-- Finds the next token; the cursor is at its first character. -/
def takeToken (s : Lexer) : Except Fault Lexer :=
  let c := s.cursor
  let ch := c.peek
  let set := isWhiteOrEnd (c.peekAt 1)
  if ch = '%' && c.column = 0 then s.takeDirective
  else if ch = '-' && c.column = 0 && c.atDocumentMark then s.takeDocumentMark .documentStart
  else if ch = '.' && c.column = 0 && c.atDocumentMark then s.takeDocumentMark .documentEnd
  else if ch = '[' then s.takeFlowStart .flowSequenceStart
  else if ch = '\x7b' then s.takeFlowStart .flowMappingStart
  else if ch = ']' then s.takeFlowEnd .flowSequenceEnd
  else if ch = '\x7d' then s.takeFlowEnd .flowMappingEnd
  else if ch = ',' then s.takeFlowEntry
  else if ch = '-' && set then s.takeBlockEntry
  else if ch = '?' && (s.inFlow || set) then s.takeKey
  else if ch = ':' && (s.inFlow || set) then s.takeValue
  else if ch = '*' then s.takeContent (readReference .alias)
  else if ch = '&' then s.takeContent (readReference .anchor)
  else if ch = '!' then s.takeContent readTagToken
  else if ch = '|' && !s.inFlow then s.takeBlockScalar false
  else if ch = '>' && !s.inFlow then s.takeBlockScalar true
  else if ch = '\'' then s.takeContent (readQuotedToken .single)
  else if ch = '"' then s.takeContent (readQuotedToken .double)
  else if beginsPlain s.inFlow ch (c.peekAt 1) then s.takeContent readPlainToken
  else .error (c.next.fault .malformed)

/-- The number of tokens in front of which no other token will be put any more. -/
def settled (s : Lexer) : Nat :=
  s.candidates.foldl (fun n k => match k with | some k => min n k.number | none => n) s.count

/-- The tokens that are settled, with a fault behind them. -/
def stop (s : Lexer) (fault : Fault) : Tokens :=
  { found := s.tokens.reverse.take s.settled, fault := some fault }

/-- Finds the tokens from the cursor on. A closing bracket that closes nothing ends the search. -/
def run : Nat → Lexer → Tokens
  | 0, s => s.stop .malformed
  | fuel + 1, s =>
    match s.dropStale with
    | .error fault => s.stop fault
    | .ok s₀ =>
      -- the way to the next token can end a line, and with it a candidate
      match s₀.toNextToken.dropStale with
      | .error fault => s₀.stop (s₀.toNextToken.cursor.fault fault)
      | .ok s₁ =>
        let s₁ := s₁.unwind s₁.cursor.column
        if s₁.cursor.rest = [] ∧ s₁.cursor.ending = none then
          match s₁.takeEnd with
          | .error fault => s₀.stop fault
          | .ok s₂ => { found := s₂.tokens.reverse, fault := none }
        else
          match s₁.takeToken with
          | .error fault => s₀.stop fault
          | .ok s₂ =>
            match s₂.cursor.cutOff? with
            | some fault => s₀.stop fault
            | none => if s₂.candidates = [] then s₂.stop .malformed else run fuel s₂

end Lexer

/-- The tokens of a text; `ending` is what is wrong behind it, where it could not be read any
further. -/
def Tokens.ofText (text : List Char) (ending : Option Fault) : Tokens :=
  Lexer.run (text.length + 2) { cursor := Cursor.start text ending }

end RegistryTree.Yaml
