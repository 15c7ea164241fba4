import RegistryTree.Number.Binary64
import RegistryTree.Text.Utf8

/-!
# Text read portion by portion

A text that is stored as octets is handed out in portions of equal length, and no more of it is
decoded than the next portion needs. The octets come in blocks, so what is wrong with one of them
shows when its block is decoded: the portions before it have been handed out by then, and the
characters in front of it in the same portion are lost. A fault counts its positions from the start
of what was not decoded yet.

> `portions`: the portions of a text, up to the first fault.
-/

namespace RegistryTree.Text

open RegistryTree.Number

/-- The number of characters in a portion. -/
def portionSize : Nat := 4096

/-- The least number of octets in a block that is not the last. -/
def blockSize : Nat := 8192

/-- A stored text in the course of being read. -/
structure Source where
  /-- The octets that have not been decoded. -/
  octets : List UInt8
  /-- The octets of a character that has come in part. -/
  begun : List UInt8 := []
  /-- A carriage return that came last; a line feed behind it ends the same line. -/
  held : List Char := []
  /-- The characters that have been decoded and not been handed out. -/
  ready : List Char := []
  /-- The number of octets in the last block. -/
  lastOctets : Nat := 0
  /-- The number of characters in the last block. -/
  lastCharacters : Nat := 0

namespace Source

/-- The number of octets in the next block when so many characters are wanted: enough for all of
them, if they take as many octets as those of the last block did. -/
def nextLength (wanted : Nat) (s : Source) : Nat :=
  if s.lastCharacters = 0 ∨ s.lastOctets ≤ s.lastCharacters then max blockSize wanted
  else
    let octetsEach := Binary64.ofRatio false s.lastOctets s.lastCharacters
    max blockSize (octetsEach.mul (Binary64.ofRatio false wanted 1)).whole

/-- Whether all has been decoded. -/
def isSpent (s : Source) : Bool := s.octets = [] && s.begun = [] && s.held = []

/-- A carriage return at the end is kept apart, since a line feed may still come behind it. -/
def holdReturn (s : List Char) : List Char × List Char :=
  if s.getLast? = some '\r' then (s.dropLast, ['\r']) else (s, [])

/-- Decodes what was left for later, when nothing comes any more. -/
def decodeEnd (s : Source) : Except Utf8.Fault Source := do
  let _ ← decodeUtf8 s.begun
  return { s with begun := [], held := [], ready := unifyLineEnds s.held }

/-- Decodes the next block, which is not empty. -/
def decodeBlock (block : List UInt8) (s : Source) : Except Utf8.Fault Source := do
  let (decoded, begun) ← Utf8.readPart (s.begun ++ block)
  let (lines, held) := holdReturn (s.held ++ decoded)
  let ready := unifyLineEnds lines
  return { octets := s.octets.drop block.length, begun, held, ready,
           lastOctets := block.length, lastCharacters := ready.length }

/-- Decodes more, when so many characters are wanted and none is ready. -/
def decodeMore (wanted : Nat) (s : Source) : Except Utf8.Fault Source :=
  match s.octets.take (s.nextLength wanted) with
  | [] => s.decodeEnd
  | block => s.decodeBlock block

/-- Takes so many characters, or all that there are; `fuel` bounds the number of blocks. -/
def take : Nat → Nat → Source → Except Utf8.Fault (List Char × Source)
  | 0, _, s => .ok ([], s)
  | fuel + 1, wanted, s =>
    if wanted ≤ s.ready.length then
      .ok (s.ready.take wanted, { s with ready := s.ready.drop wanted })
    else if s.isSpent then .ok (s.ready, { s with ready := [] })
    else do
      let missing := wanted - s.ready.length
      let (more, after) ← take fuel missing (← decodeMore missing { s with ready := [] })
      return (s.ready ++ more, after)

/-- Hands out portions; `fuel` bounds their number. -/
def handOut : Nat → Source → List (List Char) × Option Utf8.Fault
  | 0, _ => ([], none)
  | fuel + 1, s =>
    match s.take (s.octets.length + 3) portionSize with
    | .error fault => ([], some fault)
    | .ok ([], _) => ([], none)
    | .ok (portion, s) =>
      let (more, fault) := handOut fuel s
      (portion :: more, fault)

end Source

/-- The portions of a text, and the fault that ends them. -/
def portions (octets : List UInt8) : List (List Char) × Option Utf8.Fault :=
  Source.handOut (octets.length + 2) { octets }

end RegistryTree.Text
