import RegistryTree.Text.Base64
import RegistryTree.Yaml.Node
import RegistryTree.Yaml.Tag.Form

/-!
# The value of a node

What a node stands for follows from its tag. Scalars of the common types are read by the rules of
their type; a mapping may take in the entries of other mappings, which its own entries override; and
a mapping with an entry for the value sign may stand where a scalar is wanted.

A tree is read level by level, the scalars of a collection with the collection, so that of several
faults the one in the least depth is told, and the first of those. A mapping takes entries in when
it is looked into, and its keys with the value sign count as texts from then on. That holds of them
wherever they are reached, and so `Progress` goes along.

> `Node.toValue`: the value of a tree, or the fault that is told.
-/

namespace RegistryTree.Yaml.Node

open RegistryTree.Number RegistryTree.Text

/-- The parts of a text between colons. -/
def splitColons (s : List Char) : List (List Char) :=
  s.foldr (fun c parts =>
    if c = ':' then [] :: parts
    else match parts with
      | part :: rest => (c :: part) :: rest
      | [] => [[c]]) [[]]

/-- A faulty numeral as a fault of the text. -/
def numeral {α : Type} : Except NumeralFault α → Except Fault α
  | .ok x => .ok x
  | .error fault => .error (.numeral fault)

/-- A text without the sign that groups digits. -/
def ungrouped (s : List Char) : List Char := s.filter (· ≠ '_')

/-- The whole number of a text without sign: in base two, sixteen or eight by what it begins with,
in groups of sixty, or in base ten. -/
def naturalOfText (s : List Char) : Except Fault Int :=
  match s with
  | [] => .error .noDigits
  | ['0'] => .ok 0
  | '0' :: 'b' :: rest => numeral (readInteger 2 rest)
  | '0' :: 'x' :: rest => numeral (readInteger 16 rest)
  -- a zero in front means base eight, also before the digits eight and nine, which are then faulty
  | '0' :: _ => numeral (readInteger 8 s)
  | _ =>
    if s.contains ':' then do
      let groups ← (splitColons s).mapM fun part => numeral (readInteger 10 part)
      return groups.foldl (fun n d => 60 * n + d) 0
    else numeral (readInteger 10 s)

/-- The whole number of a text. -/
def intOfText (text : List Char) : Except Fault Int :=
  match ungrouped text with
  | [] => .error .noDigits
  | '-' :: rest => (naturalOfText rest).map (- ·)
  | '+' :: rest => naturalOfText rest
  | rest => naturalOfText rest

/-- The value of groups of sixty, the last group first; `weight` is what one of the next group is
worth. -/
def sixties (weight : Nat) : List Binary64 → Binary64 → Except Fault Binary64
  | [], sum => .ok sum
  | d :: rest, sum =>
    let w := Binary64.ofRatio false weight 1
    if w.isInfinite then .error .heavyGroup
    else sixties (weight * 60) rest (sum.add (d.mul w))

/-- The decimal number of a text without sign. -/
def decimalOfText (s : List Char) : Except Fault Binary64 :=
  if s = ".inf".toList then .ok (Binary64.infinity false)
  else if s = ".nan".toList then .ok (Binary64.markedNaN 0)
  else if s.contains ':' then do
    let groups ← (splitColons s).mapM fun part => numeral (readDecimal part)
    sixties 1 groups.reverse (Binary64.zero false)
  else numeral (readDecimal s)

/-- The decimal number of a text. -/
def floatOfText (text : List Char) : Except Fault Binary64 :=
  match lower (ungrouped text) with
  | [] => .error .noDigits
  | '-' :: rest => (decimalOfText rest).map fun x => if x.isNaN then x else x.neg
  | '+' :: rest => decimalOfText rest
  | rest => decimalOfText rest

/-- A number as that of a node: what stands for no number and bears no mark gets one, by which it is
known again wherever the node is reached. The word for it bears the same mark everywhere. -/
def marked (share : Share) (x : Binary64) : Binary64 :=
  match share with
  | some n => if x.isNaN && x.mark?.isNone then Binary64.markedNaN (n + 1) else x
  | none => x

/-- The truth value of a text. -/
def boolOfText (text : List Char) : Except Fault Bool :=
  let word := lower text
  if ["yes", "true", "on"].any (·.toList = word) then .ok true
  else if ["no", "false", "off"].any (·.toList = word) then .ok false
  else .error (.notTruthValue word)

/-- The octets of a text in base 64. -/
def bytesOfText (text : List Char) : Except Fault (List UInt8) :=
  if text.any fun c => 0x7F < c.toNat then .error .malformed
  else match Base64.decode? text with
    | some octets => .ok octets
    | none => .error .malformed

/-- The number of between one and so many digits at the front of a text. -/
def digitsAt (least most : Nat) (s : List Char) : Option (Nat × List Char) :=
  let ds := (s.take most).takeWhile Char.isDigit
  if ds.length < least then none else some (digitsValue ds, s.drop ds.length)

/-- The text behind a given character. -/
def after (c : Char) : List Char → Option (List Char)
  | d :: rest => if d = c then some rest else none
  | [] => none

/-- Whether a text is at its end, up to a line feed. -/
def atEnd (s : List Char) : Bool := s = [] || s = ['\n']

/-- The microseconds of the fraction at the front of a text; digits beyond the sixth do not
count. -/
def fractionAt : List Char → Nat × List Char
  | '.' :: rest =>
    let ds := rest.takeWhile Char.isDigit
    let six := ds.take 6
    (digitsValue six * Nat.pow 10 (6 - six.length), rest.drop ds.length)
  | s => (0, s)

/-- The offset from universal time that ends a text, in seconds. -/
def offsetAt (s : List Char) : Option (Option Int) :=
  if atEnd s then some none
  else
    match s.dropWhile isTabOrSpace with
    | 'Z' :: rest => if atEnd rest then some (some 0) else none
    | c :: rest =>
      if c = '+' ∨ c = '-' then do
        let (hours, rest) ← digitsAt 1 2 rest
        let (minutes, rest) ← match after ':' rest with
          | some more => digitsAt 2 2 more
          | none => some (0, rest)
        let seconds : Int := ((hours * 60 + minutes) * 60 : Nat)
        if atEnd rest then some (some (if c = '-' then -seconds else seconds)) else none
      else none
    | [] => none

/-- The parts of a time: the day, and what follows it. -/
structure TimeParts where
  year : Nat
  month : Nat
  day : Nat
  time : Option (Nat × Nat × Nat × Nat × Option Int)

/-- The text behind what separates the day from the time. -/
def afterSeparator (s : List Char) : Option (List Char) :=
  match s with
  | c :: rest =>
    if c = 'T' ∨ c = 't' then some rest
    else if isTabOrSpace c then some (rest.dropWhile isTabOrSpace)
    else none
  | [] => none

/-- Takes a time apart. -/
def timeParts? (s : List Char) : Option TimeParts := do
  let (year, s) ← digitsAt 4 4 s
  let s ← after '-' s
  let (month, s) ← digitsAt 1 2 s
  let s ← after '-' s
  let (day, s) ← digitsAt 1 2 s
  if atEnd s then return ⟨year, month, day, none⟩
  else
    let s ← afterSeparator s
    let (hour, s) ← digitsAt 1 2 s
    let s ← after ':' s
    let (minute, s) ← digitsAt 2 2 s
    let s ← after ':' s
    let (second, s) ← digitsAt 2 2 s
    let (microsecond, s) := fractionAt s
    let offset ← offsetAt s
    return ⟨year, month, day, some (hour, minute, second, microsecond, offset)⟩

/-- An impossible day or time as a fault of the text. -/
def calendar {α : Type} : Except CalendarFault α → Except Fault α
  | .ok x => .ok x
  | .error fault => .error (.calendar fault)

/-- The day or moment of a text. -/
def timeOfText (share : Share) (text : List Char) : Except Fault Value :=
  match timeParts? text with
  | none => .error .notTimestamp
  | some ⟨year, month, day, none⟩ =>
    (calendar (Date.ofParts year month day)).map (.date share)
  | some ⟨year, month, day, some (hour, minute, second, microsecond, offset)⟩ =>
    (calendar (Moment.ofParts year month day hour minute second microsecond offset)).map
      (.moment share)

/-- Whether a tag marks a collection. -/
def isCollectionTag : Tag → Bool
  | .seq | .map | .set | .omap | .pairs => true
  | _ => false

/-- What the reading of a tree has come to. -/
structure Progress where
  /-- The mappings that have taken in what they merge. -/
  complete : List Nat := []
  /-- The keys with the value sign that count as texts. -/
  texts : List Nat := []
  /-- The values of mappings that stood for scalars. -/
  known : List (Nat × Value) := []

/-- Whether a node is among those of some share numbers. -/
def isAmong (shares : List Nat) (n : Node) : Bool := n.share.any shares.contains

/-- The tag that a node has by now. -/
def Progress.tagOf (p : Progress) (n : Node) : Tag :=
  if n.tag = .value && n.isAmong p.texts then .str else n.tag

mutual

/-- The entries of a mapping, those taken in from other mappings first. -/
def flatEntries : Nat → List (Node × Node) → Except Fault (List (Node × Node))
  | 0, _ => .error .malformed
  | fuel + 1, entries => do
    let merged ← (entries.filter fun e => e.1.tag = .merge).mapM fun e => takenIn fuel e.2
    return merged.flatten ++ entries.filter fun e => e.1.tag ≠ .merge

/-- The entries that a mapping takes in from a node: those of a mapping, or those of several
mappings, the later before the earlier. -/
def takenIn : Nat → Node → Except Fault (List (Node × Node))
  | 0, _ => .error .malformed
  | fuel + 1, n =>
    match n with
    | mapping _ _ entries => flatEntries fuel entries
    | sequence _ _ items => do
      let parts ← items.mapM fun item =>
        match item with
        | mapping _ _ entries => flatEntries fuel entries
        | _ => .error .malformed
      return parts.reverse.flatten
    | scalar .. => .error .malformed

end

/-- The share numbers of a mapping and of the mappings that it merges. -/
def mergedShares : Nat → Node → List Nat
  | 0, _ => []
  | fuel + 1, n =>
    match n with
    | mapping share _ entries =>
      share.toList ++
        (entries.filter fun e => e.1.tag = .merge).flatMap fun e => mergedShares fuel e.2
    | sequence _ _ items => items.flatMap (mergedShares fuel)
    | scalar .. => []

/-- The entries of a mapping with all that it merges. -/
def allEntries (n : Node) : Except Fault (List (Node × Node)) :=
  match n with
  | mapping _ _ entries => flatEntries (2 * n.depth + 2) entries
  | _ => .error .malformed

/-- The entries that a mapping has by now. -/
def entriesNow (p : Progress) (n : Node) : Except Fault (List (Node × Node)) :=
  match n with
  | mapping _ _ entries => if n.isAmong p.complete then n.allEntries else .ok entries
  | _ => .error .malformed

/-- The text of a node where a scalar is wanted: its own, or that of the entry for the value
sign. -/
def scalarText (p : Progress) : Nat → Node → Except Fault (List Char)
  | 0, _ => .error .malformed
  | fuel + 1, n =>
    match n with
    | scalar _ _ text => .ok text
    | n => do
      match (← entriesNow p n).find? fun e => p.tagOf e.1 = .value with
      | some e => scalarText p fuel e.2
      | none => .error .malformed

/-- The value of a text under the tag of a scalar. A tag that is not known gives none. -/
def valueOfText (share : Share) (tag : Tag) (text : List Char) : Except Fault Value :=
  match tag with
  | .null => .ok .null
  | .bool => (boolOfText text).map .bool
  | .int => (intOfText text).map .int
  | .float => (floatOfText text).map (.float ∘ marked share)
  | .str => .ok (.text (String.ofList text))
  | .binary => (bytesOfText text).map .bytes
  | .timestamp => timeOfText share text
  | _ => .error .malformed

/-- Whether scalars can have a tag. -/
def isScalarTag : Tag → Bool
  | .null | .bool | .int | .float | .str | .binary | .timestamp => true
  | _ => false

/-- The value of a node with the tag of a scalar. -/
def scalarValue (p : Progress) (n : Node) : Except Fault Value :=
  let tag := p.tagOf n
  if !isScalarTag tag then .error .malformed
  else do
    let text ← scalarText p (n.depth + 1) n
    match n, tag with
    | mapping .., .timestamp => .error .timestampMapping
    | _, _ => valueOfText n.share tag text

/-- Reads on and keeps account of what the reading has come to. -/
abbrev Reading (α : Type) := StateT Progress (Except Fault) α

/-- Meets a node. A scalar is read when it is first met; a collection is looked into later. -/
def meet (n : Node) : Reading Unit := do
  let p ← get
  if isCollectionTag (p.tagOf n) || n.isAmong (p.known.map (·.1)) then return
  let v ← scalarValue p n
  match n with
  | mapping (some share) _ _ => set { p with known := (share, v) :: p.known }
  | _ => return

/-- Meets a key. A collection cannot be a key. -/
def meetKey (k : Node) : Reading Unit := do
  meet k
  if isCollectionTag k.tag then throw .malformed

/-- Has a mapping take in what it merges; the keys with the value sign count as texts from then
on. -/
def completeMapping (n : Node) : Reading (List (Node × Node)) := do
  let entries ← n.allEntries
  let signs := (entries.filter fun e => e.1.tag = .value).flatMap fun e => e.1.share.toList
  modify fun p => { p with
    complete := mergedShares (2 * n.depth + 2) n ++ p.complete
    texts := signs ++ p.texts }
  return entries

/-- The one entry of an item of a list of pairs. -/
def pairOf (p : Progress) (item : Node) : Except Fault (Node × Node) := do
  match ← entriesNow p item with
  | [e] => return e
  | _ => throw .malformed

/-- Meets the parts of a collection in order, and gives those that are to be looked into. -/
def parts (n : Node) : Reading (List Node) := do
  match n.tag, n with
  | .seq, sequence _ _ items =>
    items.forM meet
    return items
  | .map, mapping .. | .set, mapping .. =>
    let entries ← completeMapping n
    entries.forM fun e => do
      meetKey e.1
      meet e.2
    return entries.map (·.2)
  | .omap, sequence _ _ items | .pairs, sequence _ _ items =>
    let found ← items.mapM fun item => do
      let (k, v) ← pairOf (← get) item
      meet k
      meet v
      return [k, v]
    return found.flatten
  | _, _ => throw .malformed

/-- Looks into collections that are all in the same depth, and into what is below them. -/
def lookInto : Nat → List Node → Reading Unit
  | 0, _ => return
  | fuel + 1, nodes => do
    match nodes.filter fun n => isCollectionTag n.tag with
    | [] => return
    | collections =>
      let below ← collections.mapM parts
      lookInto fuel below.flatten

/-- The value of a node that has been read without a fault; `fuel` bounds its depth. What has the
value sign is a text by then. -/
def build (known : List (Nat × Value)) : Nat → Node → Except Fault Value
  | 0, _ => .error .malformed
  | fuel + 1, n =>
    match n.tag, n with
    | .seq, sequence share _ items => do
      return .list share (← items.mapM (build known fuel))
    | .map, mapping share .. => do
      let entries ← (← n.allEntries).mapM fun e => do
        return (← build known fuel e.1, ← build known fuel e.2)
      return .mapping share (Entries.ofList entries)
    | .set, mapping share .. => do
      let keys ← (← n.allEntries).mapM fun e => build known fuel e.1
      return .set share (Value.members keys)
    | .omap, sequence share _ items | .pairs, sequence share _ items => do
      let pairs ← items.mapM fun item => do
        match ← item.allEntries with
        | [(k, v)] => return .tuple none [← build known fuel k, ← build known fuel v]
        | _ => throw .malformed
      return .list share pairs
    | .value, scalar share _ text => valueOfText share .str text
    | tag, scalar share _ text => valueOfText share tag text
    | _, n =>
      match n.share.bind fun share => known.lookup share with
      | some v => .ok v
      | none => .error .malformed

/-- The value of a tree, or of several faults the one that is told. -/
def toValue (n : Node) : Except Fault Value := do
  -- of several faults the one in the least depth is told, so all levels come before the value
  let ((), p) ← (do meet n; lookInto (n.depth + 1) [n] : Reading Unit).run {}
  build p.known (n.depth + 1) n

end RegistryTree.Yaml.Node
