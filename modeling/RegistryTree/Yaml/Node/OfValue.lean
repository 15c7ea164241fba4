import RegistryTree.Number.Numeral
import RegistryTree.Number.Shortest
import RegistryTree.Text.Base64
import RegistryTree.Value.Order
import RegistryTree.Yaml.Node

/-!
# The node of a value

Every value of plain data has a node: a scalar with its text, or a collection of nodes. The entries
of a mapping and the members of a set are put into ascending order of their keys where all keys have
an order. Share numbers pass from values to nodes.
-/

namespace RegistryTree.Yaml

open RegistryTree.Number RegistryTree.Text

/-- Why a value has no node. -/
inductive WriteFault where
  /-- Some part of the value is nothing that a document can hold. -/
  | unwritable
  /-- A whole number has too many digits. -/
  | wideInteger
  deriving DecidableEq, Repr

/-- The text of a number: always with a point, so that it reads back as one. -/
def floatText (x : Binary64) : List Char :=
  if x.isNaN then ".nan".toList
  else if x.isInfinite then (if x.negative then "-.inf" else ".inf").toList
  else
    let s := x.toText
    if s.contains '.' then s
    else s.takeWhile (· ≠ 'e') ++ ['.', '0'] ++ s.dropWhile (· ≠ 'e')

/-- The text of octets: base 64 in lines. -/
def binaryText (octets : List UInt8) : List Char :=
  (Base64.encodeLines octets).flatMap (· ++ ['\n'])

/-- Entries in ascending order of their keys, or as they are when two keys have no order. -/
def ordered {α : Type} (entries : List (Value × α)) : List (Value × α) :=
  (Value.sortByKey? entries).getD entries

/-- The nodes of entries, in ascending order of the keys. -/
def orderedNodes (entries : List (Value × Except WriteFault Node × Except WriteFault Node)) :
    Except WriteFault (List (Node × Node)) :=
  (ordered entries).mapM fun e => do return (← e.2.1, ← e.2.2)

mutual

/-- The node of a value. -/
def Node.ofValue : Value → Except WriteFault Node
  | .null => .ok (.scalar none .null "null".toList)
  | .bool b => .ok (.scalar none .bool (if b then "true" else "false").toList)
  | .int n =>
    match integerText? n with
    | some s => .ok (.scalar none .int s)
    | none => .error .wideInteger
  | .float x => .ok (.scalar none .float (floatText x))
  | .text s => .ok (.scalar none .str s.toList)
  | .bytes octets => .ok (.scalar none .binary (binaryText octets))
  | .date share d => .ok (.scalar share .timestamp d.toText)
  | .moment share t => .ok (.scalar share .timestamp (t.toText ' '))
  | .list share items => (Node.ofValues items).map (.sequence share .seq)
  | .tuple share items =>
    (Node.ofValues items).map (.sequence (if items.isEmpty then none else share) .seq)
  | .set share items => (orderedNodes (memberNodes items)).map (.mapping share .set)
  | .mapping share entries => (orderedNodes (entryNodes entries)).map (.mapping share .map)
  | .checked .. | .foreign => .error .unwritable

/-- The nodes of values. -/
def Node.ofValues : List Value → Except WriteFault (List Node)
  | [] => .ok []
  | v :: rest => do
    let n ← Node.ofValue v
    let more ← Node.ofValues rest
    return n :: more

/-- The members of a set with their nodes; each stands as a key without a value. -/
def memberNodes : List Value → List (Value × Except WriteFault Node × Except WriteFault Node)
  | [] => []
  | v :: rest => (v, Node.ofValue v, .ok (.scalar none .null "null".toList)) :: memberNodes rest

/-- The keys of a mapping with the nodes of their entries. -/
def entryNodes : Entries → List (Value × Except WriteFault Node × Except WriteFault Node)
  | [] => []
  | (k, v) :: rest => (k, Node.ofValue k, Node.ofValue v) :: entryNodes rest

end

end RegistryTree.Yaml
