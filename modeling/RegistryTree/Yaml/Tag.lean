import RegistryTree.Text.Digit
import RegistryTree.Text.Utf8
import RegistryTree.Yaml.Cursor
import RegistryTree.Yaml.Fault

/-!
# Tags

The tag of a node says how it is to be understood. In a text it is written with a handle that
directives may define and a suffix in which octets may be escaped, or out in full between angle
brackets; `Handles.resolve?` puts the two parts together. The tags of the common types are known by
name, and all others are alike.
-/

namespace RegistryTree.Yaml

open RegistryTree.Text

/-- The tag of a node. -/
inductive Tag where
  | null
  | bool
  | int
  | float
  | str
  | binary
  | timestamp
  | omap
  | pairs
  | set
  | seq
  | map
  /-- Marks the key whose value is merged into a mapping. -/
  | merge
  /-- Marks the key that stands for a whole mapping. -/
  | value
  /-- Marks a scalar that looks like an indicator. -/
  | yaml
  | other (name : List Char)
  deriving DecidableEq, Repr

/-- What the full names of the common types begin with. -/
def commonStem : List Char := "tag:yaml.org,2002:".toList

/-- The common types and the ends of their names. -/
def commonTags : List (Tag × String) := [
  (.null, "null"), (.bool, "bool"), (.int, "int"), (.float, "float"), (.str, "str"),
  (.binary, "binary"), (.timestamp, "timestamp"), (.omap, "omap"), (.pairs, "pairs"),
  (.set, "set"), (.seq, "seq"), (.map, "map"), (.merge, "merge"), (.value, "value"),
  (.yaml, "yaml")]

/-- The end of the name of a common type. -/
def Tag.suffix? (tag : Tag) : Option String := commonTags.lookup tag

/-- The tag with the given full name. -/
def Tag.ofName (name : List Char) : Tag :=
  match commonTags.find? fun t => commonStem ++ t.2.toList = name with
  | some (tag, _) => tag
  | none => .other name

/-- A tag as it is written: the handle, if there is one, and the suffix. -/
structure WrittenTag where
  handle : Option (List Char)
  suffix : List Char
  deriving DecidableEq, Repr

/-- The handles that can be used in a document, with what each stands for. -/
abbrev Handles := List (List Char × List Char)

/-- The handles that need no directive. -/
def Handles.initial : Handles := [(['!'], ['!']), (['!', '!'], commonStem)]

/-- The full name of a written tag; `none` when its handle is not known. -/
def Handles.resolve? (handles : Handles) (tag : WrittenTag) : Option (List Char) :=
  match tag.handle with
  | none => some tag.suffix
  | some handle => (handles.lookup handle).map (· ++ tag.suffix)

/-- The octets of a run of escapes in a tag, and the cursor behind them. -/
def tagOctets : Nat → Cursor → Except Fault (List UInt8 × Cursor)
  | 0, _ => .error .malformed
  | fuel + 1, c =>
    if c.peek = '%' then
      match hexValue? (c.peekAt 1), hexValue? (c.peekAt 2) with
      | some high, some low => do
        let (more, c) ← tagOctets fuel (c.skip 3)
        return (UInt8.ofNat (16 * high + low) :: more, c)
      | some _, none => .error ((c.skip 2).fault .malformed)
      | none, _ => .error (c.next.fault .malformed)
    else .ok ([], c)

/-- The characters of a suffix at the cursor. -/
def tagCharacters : Nat → Cursor → Except Fault (List Char × Cursor)
  | 0, _ => .error .malformed
  | fuel + 1, c =>
    if c.peek = '%' then do
      let (octets, c) ← tagOctets (c.rest.length + 1) c
      let part ← (decodeUtf8 octets).mapError fun _ => c.fault .malformed
      let (more, c) ← tagCharacters fuel c
      return (part ++ more, c)
    else if isTagChar c.peek then do
      let (more, c') ← tagCharacters fuel c.next
      return (c.peek :: more, c')
    else .ok ([], c)

/-- Reads a suffix, which has at least one character. -/
def readTagSuffix (c : Cursor) : Except Fault (List Char × Cursor) :=
  if isTagChar c.peek then tagCharacters (c.rest.length + 1) c
  else .error (c.fault .malformed)

/-- Reads a handle: an exclamation mark, or a name between two. -/
def readTagHandle (c : Cursor) : Except Fault (List Char × Cursor) :=
  if c.peek ≠ '!' then .error (c.fault .malformed)
  else if c.peekAt 1 = ' ' then .ok (['!'], c.next)
  else
    let (name, after) := c.next.spanWhile isNameChar
    if after.peek = '!' then .ok ('!' :: name ++ ['!'], after.next)
    else .error (after.fault .malformed)

/-- Whether a second exclamation mark follows in the word behind the first. -/
def hasHandle (word : List Char) : Bool :=
  (word.takeWhile fun ch => !isSpaceOrEnd ch).contains '!'

/-- Reads a tag; the cursor is at its exclamation mark. -/
def readTag (c : Cursor) : Except Fault (WrittenTag × Cursor) := do
  let ch := c.peekAt 1
  let (tag, c) ←
    if ch = '<' then do
      let (suffix, c) ← readTagSuffix (c.skip 2)
      if c.peek = '>' then pure (WrittenTag.mk none suffix, c.next)
      else .error (c.fault .malformed)
    else if isWhiteOrEnd ch then pure (WrittenTag.mk none ['!'], c.next)
    else if hasHandle (c.rest.drop 1) then do
      let (handle, c) ← readTagHandle c
      let (suffix, c) ← readTagSuffix c
      pure (WrittenTag.mk (some handle) suffix, c)
    else do
      let (suffix, c) ← readTagSuffix c.next
      pure (WrittenTag.mk (some ['!']) suffix, c)
  if isSpaceOrEnd c.peek then return (tag, c) else .error .malformed

end RegistryTree.Yaml
