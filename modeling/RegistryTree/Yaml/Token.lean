import RegistryTree.Yaml.Tag

/-!
# Tokens

The pieces that a YAML text is made of. The tokens that open and close a block collection do not
stand in the text; they follow from the indentation.
-/

namespace RegistryTree.Yaml

/-- What a directive says. -/
inductive Directive where
  /-- The version of the language; only the first number counts. -/
  | version (major : Nat)
  /-- A tag handle and what it stands for. -/
  | handle (name stem : List Char)
  /-- A directive that is not known. -/
  | unknown
  deriving DecidableEq, Repr

/-- A piece of a YAML text. -/
inductive Token where
  | streamEnd
  | directive (directive : Directive)
  | documentStart
  | documentEnd
  | blockSequenceStart
  | blockMappingStart
  | blockEnd
  | flowSequenceStart
  | flowSequenceEnd
  | flowMappingStart
  | flowMappingEnd
  | blockEntry
  | flowEntry
  | key
  | value
  | alias (name : List Char)
  | anchor (name : List Char)
  | tag (tag : WrittenTag)
  /-- A scalar, and whether it stands there without quotes. -/
  | scalar (text : List Char) (plain : Bool)
  deriving DecidableEq, Repr

/-- The tokens of a text; where the text is faulty, the tokens that were settled when the fault
showed, and the fault. -/
structure Tokens where
  found : List Token
  fault : Option Fault
  deriving Repr

end RegistryTree.Yaml
