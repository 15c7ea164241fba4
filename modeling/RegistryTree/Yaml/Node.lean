import RegistryTree.Value
import RegistryTree.Yaml.Tag

/-!
# Nodes

The tree that a YAML text describes and that a value is written through. A node has a tag, which is
always known, and may have a share number: nodes of one tree with the same number are one node that
is reached in several places.
-/

namespace RegistryTree.Yaml

/-- A node of a tree. -/
inductive Node where
  | scalar (share : Share) (tag : Tag) (text : List Char)
  | sequence (share : Share) (tag : Tag) (items : List Node)
  | mapping (share : Share) (tag : Tag) (entries : List (Node × Node))
  deriving Repr

namespace Node

/-- The share number of a node. -/
def share : Node → Share
  | scalar s _ _ => s
  | sequence s _ _ => s
  | mapping s _ _ => s

/-- The tag of a node. -/
def tag : Node → Tag
  | scalar _ t _ => t
  | sequence _ t _ => t
  | mapping _ t _ => t

mutual

/-- The number of nodes on the longest way down from a node. -/
def depth : Node → Nat
  | scalar .. => 1
  | sequence _ _ items => depthItems items + 1
  | mapping _ _ entries => depthEntries entries + 1

/-- The number of nodes on the longest way down from some of the nodes. -/
def depthItems : List Node → Nat
  | [] => 0
  | n :: rest => max (depth n) (depthItems rest)

/-- The number of nodes on the longest way down from some key or value. -/
def depthEntries : List (Node × Node) → Nat
  | [] => 0
  | (k, v) :: rest => max (max (depth k) (depth v)) (depthEntries rest)

end

end Node

end RegistryTree.Yaml
