import RegistryTree.Proofs.Yaml.Scalar.Place
import RegistryTree.Yaml.Token

/-!
# Ordinary nodes

The nodes of documents without sharing whose parts are the words for nothing and for truth values,
whole numbers, texts, lists, and mappings with texts as keys. Such a node is written without anchors
and without tags. `Node.faithful` follows the writer through a node and asks of every text whether
it comes back in its place; `Node.tokens` are the tokens of what is written.
-/

namespace RegistryTree.Yaml.Node

open Scalar

/-- A node of a document that is made of plain data alone and shares nothing. -/
inductive Ordinary : Node → Prop
  | text (s : List Char) : Ordinary (.scalar none .str s)
  /-- A word whose form shows its tag. -/
  | word {tag : Tag} {s : List Char} (htag : tag ∈ [Tag.null, .bool, .int])
      (hform : Form.tagOf s = tag) (hshape : (Shape.ofText s).plain = true) (hne : s ≠ []) :
      Ordinary (.scalar none tag s)
  | sequence {items : List Node} (h : ∀ n ∈ items, Ordinary n) : Ordinary (.sequence none .seq items)
  | mapping {entries : List (Node × Node)} (hkeys : ∀ e ∈ entries, ∃ s, e.1 = .scalar none .str s)
      (h : ∀ e ∈ entries, Ordinary e.2) : Ordinary (.mapping none .map entries)

/-- Whether a key is written without a question mark, where nothing is shared. -/
def isShort (k : Node) : Bool := isSimpleKey {} [] k

/-- Whether a text that is a key comes back. -/
def faithfulKey (indent : Option Nat) : Node → Bool
  | scalar _ _ s => faithfulText .key indent s
  | _ => true

mutual

/-- Whether all texts below a node come back from what is written for them, when the node stands
inside a collection of the given indentation. `apart` tells that it stands behind an indicator and
not behind a key. -/
def faithful (apart : Bool) (indent : Option Nat) : Node → Bool
  | scalar _ tag s => tag ≠ .str || faithfulText .value indent s
  | sequence _ _ items => faithfulItems (if apart then deeper indent else indent) items
  | mapping _ _ entries => faithfulEntries (deeper indent) entries

/-- Whether all texts in items come back. -/
def faithfulItems (indent : Option Nat) : List Node → Bool
  | [] => true
  | n :: rest => faithful true indent n && faithfulItems indent rest

/-- Whether all texts in entries come back. -/
def faithfulEntries (indent : Option Nat) : List (Node × Node) → Bool
  | [] => true
  | (k, v) :: rest =>
    (if k.isShort then faithfulKey indent k && faithful false indent v
      else faithful true indent k && faithful true indent v) && faithfulEntries indent rest

end

/-- The token of a scalar. -/
def scalarToken (tag : Tag) (s : List Char) : Token :=
  .scalar s (chooseStyle .value tag s = .plain)

mutual

/-- The tokens of what is written for a node. The items of a sequence behind a key are not
announced. -/
def tokens (apart : Bool) : Node → List Token
  | scalar _ tag s => [scalarToken tag s]
  | sequence _ _ items =>
    if items.isEmpty then [.flowSequenceStart, .flowSequenceEnd]
    else if apart then .blockSequenceStart :: itemTokens items ++ [.blockEnd]
    else itemTokens items
  | mapping _ _ entries =>
    if entries.isEmpty then [.flowMappingStart, .flowMappingEnd]
    else .blockMappingStart :: entryTokens entries ++ [.blockEnd]

/-- The tokens of items. -/
def itemTokens : List Node → List Token
  | [] => []
  | n :: rest => .blockEntry :: tokens true n ++ itemTokens rest

/-- The tokens of entries. -/
def entryTokens : List (Node × Node) → List Token
  | [] => []
  | (k, v) :: rest =>
    .key :: tokens true k ++ .value :: tokens (!k.isShort) v ++ entryTokens rest

end

/-- The mark behind a document that only a mark can end. -/
def endMarks : Node → List Token
  | scalar _ tag s => if chooseStyle .value tag s = .plain then [.documentEnd] else []
  | _ => []

/-- The tokens of a document. -/
def documentTokens (n : Node) : List Token := n.tokens true ++ (n.endMarks ++ [.streamEnd])

theorem eq_of_mem_endMarks {n : Node} {t : Token} (h : t ∈ n.endMarks) : t = .documentEnd := by
  cases n with
  | scalar share tag s =>
    rw [endMarks] at h
    split at h
    · exact List.mem_singleton.1 h
    · cases h
  | _ => cases h

end RegistryTree.Yaml.Node
