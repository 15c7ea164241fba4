import RegistryTree.Yaml.Node.OfValue
import RegistryTree.Yaml.Node.Printer

/-!
# Writing a YAML text

A value is written as the one document of a text. Its mappings and lists are written out wherever
they occur, and a tuple is written as a list. Anchors are left for what occurs twice and is a set, a
day, a moment, or part of a key or of a checked document.

> `render`: the text of a value.
-/

namespace RegistryTree.Yaml

mutual

/-- A value with its containers made anew: checked documents give their contents, tuples become
lists, and no mapping and no list is shared any more. -/
def rebuilt : Value → Value
  | .checked _ document => document
  | .mapping _ entries => .mapping none (rebuiltEntries entries)
  | .list _ items => .list none (rebuiltItems items)
  | .tuple _ items => .list none (rebuiltItems items)
  | v => v

/-- Values with their containers made anew. -/
def rebuiltItems : List Value → List Value
  | [] => []
  | v :: rest => rebuilt v :: rebuiltItems rest

/-- Entries with the containers in their values made anew. -/
def rebuiltEntries : Entries → Entries
  | [] => []
  | (k, v) :: rest => (k, rebuilt v) :: rebuiltEntries rest

end

/-- The text of a value as a document. -/
def render (v : Value) : Except WriteFault (List Char) :=
  (Node.ofValue (rebuilt v)).map Node.write

end RegistryTree.Yaml
