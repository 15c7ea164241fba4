import RegistryTree.Yaml.Node
import RegistryTree.Yaml.Scalar.Write
import RegistryTree.Yaml.Tag.Form

/-!
# The text of a node

A node is written in block style, with two columns for every level; the items of a sequence that is
the value of a key start below the key. Empty collections are written in brackets. A node that is
reached more than once gets an anchor where it is reached first and is named by it from then on.

> `Node.write`: the text of a node as a document of its own.
-/

namespace RegistryTree.Yaml

open Scalar

/-! ## Anchors -/

/-- The share numbers met so far, and those met more than once in the order in which that showed. -/
structure Encounters where
  met : List Nat := []
  repeated : List Nat := []

/-- Meets a node; the result tells whether it is met for the first time. -/
def Encounters.meet (share : Share) (e : Encounters) : Bool × Encounters :=
  match share with
  | none => (true, e)
  | some n =>
    if e.met.contains n then
      (false, if e.repeated.contains n then e else { e with repeated := e.repeated ++ [n] })
    else (true, { e with met := n :: e.met })

mutual

/-- Meets a node and, when it is new, everything below it. -/
def encounter : Node → Encounters → Encounters
  | .scalar share _ _, e => (e.meet share).2
  | .sequence share _ items, e =>
    match e.meet share with
    | (true, e) => encounterItems items e
    | (false, e) => e
  | .mapping share _ entries, e =>
    match e.meet share with
    | (true, e) => encounterEntries entries e
    | (false, e) => e

/-- Meets nodes in turn. -/
def encounterItems : List Node → Encounters → Encounters
  | [], e => e
  | n :: rest, e => encounterItems rest (encounter n e)

/-- Meets keys and values in turn. -/
def encounterEntries : List (Node × Node) → Encounters → Encounters
  | [], e => e
  | (k, v) :: rest, e => encounterEntries rest (encounter v (encounter k e))

end

/-- The name of the anchor with a number. -/
def anchorName (n : Nat) : List Char :=
  let ds := Nat.toDigits 10 n
  ['i', 'd'] ++ List.replicate (3 - ds.length) '0' ++ ds

/-- The anchor of a node, given the share numbers that are met more than once. -/
def anchorOf? (repeated : List Nat) (share : Share) : Option (List Char) :=
  match share with
  | some n =>
    let i := repeated.idxOf n
    if i < repeated.length then some (anchorName (i + 1)) else none
  | none => none

/-! ## Scalars in their place -/

/-- How a tag is written. -/
def tagText : Tag → List Char
  | .other name => ['!', '<'] ++ name ++ ['>']
  | tag => '!' :: '!' :: (tag.suffix?.getD "").toList

/-- The place of a node: the whole document, an item, a value, or a key without a question mark. -/
inductive Place where
  | root
  | item
  | value
  | key
  deriving DecidableEq, Repr

/-- The style of a scalar in its place. It may go without quotes only if it then reads back with its
tag. -/
def chooseStyle (place : Place) (tag : Tag) (s : List Char) : Style :=
  let shape := Shape.ofText s
  if tag = .binary && s ≠ [] && place ≠ .key then .literal
  else if Form.tagOf s = tag && shape.plain && (place ≠ .key || s ≠ []) then .plain
  else if shape.single && tag ≠ .binary && (place ≠ .key || !shape.breaks) then .single
  else .double

/-- Whether the tag of a scalar is seen from how it is written. -/
def tagShows (style : Style) (tag : Tag) (s : List Char) : Bool :=
  if style = .plain then Form.tagOf s = tag else tag = .str

/-- The greatest length of a key, with its anchor and its tag, that needs no question mark. -/
def keyWidth : Nat := 128

/-! ## Nodes -/

/-- The sheet, the share numbers of the nodes written, and whether the text so far ends with a
scalar that only a mark can end. -/
structure Writing where
  sheet : Sheet := {}
  written : List Nat := []
  openEnded : Bool := false

namespace Writing

/-- Changes the sheet. What is written now ends whatever was open. -/
def draw (f : Sheet → Sheet) (w : Writing) : Writing :=
  { w with sheet := f w.sheet, openEnded := false }

/-- Writes an indicator. -/
def indicator (s : List Char) (apart spaced block : Bool) (w : Writing) : Writing :=
  w.draw (·.indicator s apart spaced block)

/-- Goes on at the column of an indentation. -/
def toColumn (indent : Option Nat) (w : Writing) : Writing :=
  { w with sheet := w.sheet.toColumn (indent.getD 0) }

/-- Whether a node has been written before. -/
def has (share : Share) (w : Writing) : Bool :=
  match share with
  | some n => w.written.contains n
  | none => false

/-- Remembers that a node is written. -/
def remember (share : Share) (w : Writing) : Writing :=
  match share with
  | some n => { w with written := n :: w.written }
  | none => w

/-- Writes the anchor of a node, if it has one. -/
def anchor (name : Option (List Char)) (w : Writing) : Writing :=
  match name with
  | some name => w.indicator ('&' :: name) true false false
  | none => w

/-- Writes a scalar with its anchor and, where it does not show, its tag. -/
def scalar (place : Place) (indent : Option Nat) (name : Option (List Char)) (tag : Tag)
    (s : List Char) (w : Writing) : Writing :=
  let style := chooseStyle place tag s
  let w := w.anchor name
  let w := if tagShows style tag s then w else w.indicator (tagText tag) true false false
  let column := match indent with | some n => n + 2 | none => 2
  let drawn := w.draw (writeScalar style (place ≠ .key) column s)
  -- a plain scalar alone in a document could go on in what follows it
  { drawn with openEnded := style = .plain && place = .root }

end Writing

/-- The indentation of a collection inside another. -/
def deeper (indent : Option Nat) : Option Nat :=
  match indent with
  | none => some 0
  | some n => some (n + 2)

/-- Whether a key needs no question mark. -/
def isSimpleKey (w : Writing) (repeated : List Nat) (k : Node) : Bool :=
  let name := ((anchorOf? repeated k.share).getD []).length
  let tag := (tagText k.tag).length
  if w.has k.share then name < keyWidth
  else match k with
    | .scalar _ _ s =>
      name + tag + s.length < keyWidth && s ≠ [] && !(Shape.ofText s).breaks
    | .sequence _ _ items => name + tag < keyWidth && items.isEmpty
    | .mapping _ _ entries => name + tag < keyWidth && entries.isEmpty

mutual

/-- Writes a node in its place, inside a collection of the given indentation. -/
def writeNode (repeated : List Nat) (place : Place) (indent : Option Nat) :
    Node → Writing → Writing
  | .scalar share tag s, w =>
    let name := anchorOf? repeated share
    if w.has share then w.indicator ('*' :: name.getD []) true false false
    else (w.remember share).scalar place indent name tag s
  | .sequence share tag items, w =>
    let name := anchorOf? repeated share
    if w.has share then w.indicator ('*' :: name.getD []) true false false
    else
      let w := (w.remember share).anchor name
      let w := if tag = .seq then w else w.indicator (tagText tag) true false false
      if items.isEmpty then (w.indicator ['['] true true false).indicator [']'] false false false
      else
        -- behind a key on the same line the dashes stand in the column of the key
        let below := place = .value && !w.sheet.indenting
        writeItems repeated (if below then indent else deeper indent) items w
  | .mapping share tag entries, w =>
    let name := anchorOf? repeated share
    if w.has share then w.indicator ('*' :: name.getD []) true false false
    else
      let w := (w.remember share).anchor name
      let w := if tag = .map then w else w.indicator (tagText tag) true false false
      if entries.isEmpty then
        (w.indicator ['\x7b'] true true false).indicator ['\x7d'] false false false
      else writeEntries repeated (deeper indent) entries w

/-- Writes the items of a sequence. -/
def writeItems (repeated : List Nat) (indent : Option Nat) : List Node → Writing → Writing
  | [], w => w
  | n :: rest, w =>
    let w := (w.toColumn indent).indicator ['-'] true false true
    writeItems repeated indent rest (writeNode repeated .item indent n w)

/-- Writes the entries of a mapping. -/
def writeEntries (repeated : List Nat) (indent : Option Nat) :
    List (Node × Node) → Writing → Writing
  | [], w => w
  | (k, v) :: rest, w =>
    let w := w.toColumn indent
    let w :=
      if isSimpleKey w repeated k then
        (writeNode repeated .key indent k w).indicator [':'] false false false
      else
        -- a key that is long, or has lines, is announced and its value stands on a line of its own
        let w := writeNode repeated .value indent k (w.indicator ['?'] true false true)
        (w.toColumn indent).indicator [':'] true false true
    writeEntries repeated indent rest (writeNode repeated .value indent v w)

end

/-- The text of a node as a document of its own. A scalar without quotes gets a mark behind it. -/
def Node.write (n : Node) : List Char :=
  let repeated := (encounter n {}).repeated
  let w := (writeNode repeated .root none n {}).toColumn none
  let w := if w.openEnded then (w.indicator "...".toList true false false).toColumn none else w
  w.sheet.text

end RegistryTree.Yaml
