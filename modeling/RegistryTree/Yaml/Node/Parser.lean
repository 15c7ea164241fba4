import RegistryTree.Yaml.Node
import RegistryTree.Yaml.Tag.Form
import RegistryTree.Yaml.Token.Lexer

/-!
# From tokens to a node

The grammar of YAML over tokens, one function for each kind of collection. A node that is left out
counts as an empty plain scalar. An alias stands for the node with its anchor, which must come
before it; an anchor may be given only once. A node cannot be part of itself: an alias inside the
node that it names is a fault of its own.

> `Node.ofTokens`: the one document of a text, if it has at most one.
-/

namespace RegistryTree.Yaml

/-- The tokens that are left, the anchors given so far, the handles of the document, and the share
number of the next node. -/
structure Parser where
  tokens : List Token
  /-- What is wrong behind the last of the tokens. -/
  fault : Fault
  /-- The anchors of nodes that are complete. -/
  anchors : List (List Char × Node) := []
  /-- The anchors of nodes that are being read. -/
  pending : List (List Char) := []
  handles : Handles := Handles.initial
  count : Nat := 0

namespace Parser

/-- The next token, which stays where it is. -/
def peek (s : Parser) : Except Fault Token :=
  match s.tokens with
  | t :: _ => .ok t
  | [] => .error s.fault

/-- Moves past the next token. -/
def advance (s : Parser) : Parser := { s with tokens := s.tokens.tail }

/-- A new share number. -/
def fresh (s : Parser) : Nat × Parser := (s.count, { s with count := s.count + 1 })

/-- The scalar that stands for a node that is left out. -/
def emptyScalar : Node := .scalar none (Form.tagOf []) []

/-- The properties in front of a node. -/
structure Properties where
  anchor : Option (List Char) := none
  tag : Option WrittenTag := none

/-- Reads the anchor and the tag in front of a node, in either order. -/
def properties (s : Parser) : Except Fault (Properties × Parser) := do
  match ← s.peek with
  | .anchor name =>
    let s := s.advance
    match ← s.peek with
    | .tag tag => return (⟨some name, some tag⟩, s.advance)
    | _ => return (⟨some name, none⟩, s)
  | .tag tag =>
    let s := s.advance
    match ← s.peek with
    | .anchor name => return (⟨some name, some tag⟩, s.advance)
    | _ => return (⟨none, some tag⟩, s)
  | _ => return (⟨none, none⟩, s)

/-- The full name of the tag in front of a node. The exclamation mark alone is no tag. -/
def tagName? (s : Parser) (p : Properties) : Except Fault (Option (List Char)) :=
  match p.tag with
  | none => .ok none
  | some tag =>
    match s.handles.resolve? tag with
    | some name => .ok (some name)
    | none => .error .malformed

/-- The tag of a scalar. Its form decides when there is no tag and no quotes, or just the mark that
takes the place of a tag. -/
def scalarTag (name : Option (List Char)) (plain : Bool) (text : List Char) : Tag :=
  match name with
  | none => if plain then Form.tagOf text else .str
  | some name => if name = ['!'] then Form.tagOf text else Tag.ofName name

/-- The tag of a collection. -/
def collectionTag (default : Tag) (name : Option (List Char)) : Tag :=
  match name with
  | none => default
  | some name => if name = ['!'] then default else Tag.ofName name

/-- The node that an alias stands for. -/
def aliased (s : Parser) (name : List Char) : Except Fault Node :=
  match s.anchors.lookup name with
  | some n => .ok n
  | none => if name ∈ s.pending then .error .selfReference else .error .malformed

/-- Starts a node with an anchor, which must not have been given before. -/
def begin (anchor : Option (List Char)) (s : Parser) : Except Fault Parser :=
  match anchor with
  | none => .ok s
  | some name =>
    if (s.anchors.lookup name).isSome ∨ name ∈ s.pending then .error .malformed
    else .ok { s with pending := name :: s.pending }

/-- Ends a node with an anchor. -/
def finish (anchor : Option (List Char)) (n : Node) (s : Parser) : Parser :=
  match anchor with
  | none => s
  | some name =>
    { s with anchors := (name, n) :: s.anchors, pending := s.pending.filter (· ≠ name) }

/-- Whether a token can follow a key or a dash in a block collection where its node is left out. -/
def endsBlockNode : Token → Bool
  | .key | .value | .blockEnd => true
  | _ => false

mutual

/-- Reads a node. `block` tells whether a block collection may begin here, and `indentless` whether
the items of a sequence may follow without being indented. -/
def node (block indentless : Bool) : Nat → Parser → Except Fault (Node × Parser)
  | 0, _ => .error .malformed
  | fuel + 1, s => do
    match ← s.peek with
    | .alias name => return (← s.aliased name, s.advance)
    | _ =>
      let (share, s) := s.fresh
      let (p, s) ← s.properties
      let name ← s.tagName? p
      -- a fault behind the properties is told before one of the anchor
      let _ ← s.peek
      let s ← s.begin p.anchor
      let (n, s) ← content block indentless (some share) p name fuel s
      return (n, s.finish p.anchor n)

/-- Reads the content of a node behind its properties. -/
def content (block indentless : Bool) (share : Share) (p : Properties) (name : Option (List Char)) :
    Nat → Parser → Except Fault (Node × Parser)
  | 0, _ => .error .malformed
  | fuel + 1, s => do
    let sequence (r : List Node × Parser) : Node × Parser :=
      (.sequence share (collectionTag .seq name) r.1, r.2)
    let mapping (r : List (Node × Node) × Parser) : Node × Parser :=
      (.mapping share (collectionTag .map name) r.1, r.2)
    match ← s.peek with
    | .blockEntry =>
      if indentless then sequence <$> indentlessItems fuel s
      -- properties with nothing behind them stand for an empty scalar
      else if p.anchor.isSome || name.isSome then
        return (.scalar share (scalarTag name true []) [], s)
      else .error .malformed
    | .scalar text plain => return (.scalar share (scalarTag name plain text) text, s.advance)
    | .flowSequenceStart => sequence <$> flowItems true fuel s.advance
    | .flowMappingStart => mapping <$> flowEntries true fuel s.advance
    | t =>
      if block && t = .blockSequenceStart then sequence <$> blockItems fuel s.advance
      else if block && t = .blockMappingStart then mapping <$> blockEntries fuel s.advance
      else if p.anchor.isSome || name.isSome then
        return (.scalar share (scalarTag name true []) [], s)
      else .error .malformed

/-- Reads the items of a block sequence. -/
def blockItems : Nat → Parser → Except Fault (List Node × Parser)
  | 0, _ => .error .malformed
  | fuel + 1, s => do
    match ← s.peek with
    | .blockEntry =>
      let s := s.advance
      let (n, s) ← match ← s.peek with
        | .blockEntry | .blockEnd => pure (emptyScalar, s)
        | _ => node true false fuel s
      let (more, s) ← blockItems fuel s
      return (n :: more, s)
    | .blockEnd => return ([], s.advance)
    | _ => .error .malformed

/-- Reads the items of a block sequence that is not indented against its key. -/
def indentlessItems : Nat → Parser → Except Fault (List Node × Parser)
  | 0, _ => .error .malformed
  | fuel + 1, s => do
    match ← s.peek with
    | .blockEntry =>
      let s := s.advance
      let t ← s.peek
      let (n, s) ←
        if t = .blockEntry || endsBlockNode t then pure (emptyScalar, s)
        else node true false fuel s
      let (more, s) ← indentlessItems fuel s
      return (n :: more, s)
    | _ => return ([], s)

/-- Reads the entries of a block mapping. A key may stand without a value. -/
def blockEntries : Nat → Parser → Except Fault (List (Node × Node) × Parser)
  | 0, _ => .error .malformed
  | fuel + 1, s => do
    match ← s.peek with
    | .key =>
      let s := s.advance
      let (k, s) ← if endsBlockNode (← s.peek) then pure (emptyScalar, s) else node true true fuel s
      let (v, s) ← match ← s.peek with
        | .value =>
          let s := s.advance
          if endsBlockNode (← s.peek) then pure (emptyScalar, s) else node true true fuel s
        | _ => pure (emptyScalar, s)
      let (more, s) ← blockEntries fuel s
      return ((k, v) :: more, s)
    | .blockEnd => return ([], s.advance)
    | _ => .error .malformed

/-- Reads the items of a sequence in brackets. An item with a key is a mapping of one entry. -/
def flowItems (first : Bool) : Nat → Parser → Except Fault (List Node × Parser)
  | 0, _ => .error .malformed
  | fuel + 1, s => do
    match ← s.peek with
    | .flowSequenceEnd => return ([], s.advance)
    | t =>
      let s ← if first then pure s else if t = .flowEntry then pure s.advance else .error .malformed
      match ← s.peek with
      | .flowSequenceEnd => return ([], s.advance)
      | .key =>
        let (share, s) := s.fresh
        let s := s.advance
        let (k, s) ← match ← s.peek with
          | .value | .flowEntry | .flowSequenceEnd => pure (emptyScalar, s)
          | _ => node false false fuel s
        let (v, s) ← match ← s.peek with
          | .value =>
            let s := s.advance
            match ← s.peek with
            | .flowEntry | .flowSequenceEnd => pure (emptyScalar, s)
            | _ => node false false fuel s
          | _ => pure (emptyScalar, s)
        let (more, s) ← flowItems false fuel s
        return (.mapping (some share) .map [(k, v)] :: more, s)
      | _ =>
        let (n, s) ← node false false fuel s
        let (more, s) ← flowItems false fuel s
        return (n :: more, s)

/-- Reads the entries of a mapping in braces. -/
def flowEntries (first : Bool) :
    Nat → Parser → Except Fault (List (Node × Node) × Parser)
  | 0, _ => .error .malformed
  | fuel + 1, s => do
    match ← s.peek with
    | .flowMappingEnd => return ([], s.advance)
    | t =>
      let s ← if first then pure s else if t = .flowEntry then pure s.advance else .error .malformed
      match ← s.peek with
      | .flowMappingEnd => return ([], s.advance)
      | .key =>
        let s := s.advance
        let (k, s) ← match ← s.peek with
          | .value | .flowEntry | .flowMappingEnd => pure (emptyScalar, s)
          | _ => node false false fuel s
        let (v, s) ← match ← s.peek with
          | .value =>
            let s := s.advance
            match ← s.peek with
            | .flowEntry | .flowMappingEnd => pure (emptyScalar, s)
            | _ => node false false fuel s
          | _ => pure (emptyScalar, s)
        let (more, s) ← flowEntries false fuel s
        return ((k, v) :: more, s)
      | _ =>
        let (k, s) ← node false false fuel s
        let (more, s) ← flowEntries false fuel s
        return ((k, emptyScalar) :: more, s)

end

/-- What the directives in front of a document say. -/
structure Directives where
  versionSeen : Bool := false
  handles : Handles := []

/-- Reads the directives in front of a document. -/
def directives : Nat → Directives → Parser → Except Fault (Directives × Parser)
  | 0, _, _ => .error .malformed
  | fuel + 1, d, s => do
    match ← s.peek with
    | .directive (.version major) =>
      if d.versionSeen || major ≠ 1 then .error .malformed
      else directives fuel { d with versionSeen := true } s.advance
    | .directive (.handle name stem) =>
      if (d.handles.lookup name).isSome then .error .malformed
      else directives fuel { d with handles := (name, stem) :: d.handles } s.advance
    | .directive .unknown => directives fuel d s.advance
    | _ => return (d, s)

/-- Moves past marks that end a document. -/
def skipDocumentEnds (s : Parser) : Parser :=
  { s with tokens := s.tokens.dropWhile (· = .documentEnd) }

/-- Reads a document that begins with its mark, or finds that there is none. -/
def explicitDocument (s : Parser) : Except Fault (Option Node × Parser) := do
  let s := s.skipDocumentEnds
  let bound := 3 * s.tokens.length + 8
  match ← s.peek with
  | .streamEnd => return (none, s)
  | _ =>
    let (d, s) ← directives bound {} s
    let s := { s with handles := d.handles ++ Handles.initial }
    match ← s.peek with
    | .documentStart =>
      let s := s.advance
      match ← s.peek with
      | .directive _ | .documentStart | .documentEnd | .streamEnd => return (some emptyScalar, s)
      | _ =>
        let (n, s) ← node true false bound s
        return (some n, s)
    | _ => .error .malformed

/-- Reads the first document of a text. -/
def firstDocument (s : Parser) : Except Fault (Option Node × Parser) := do
  match ← s.peek with
  | .directive _ | .documentStart | .streamEnd => s.explicitDocument
  | _ =>
    let (n, s) ← node true false (3 * s.tokens.length + 8) s
    return (some n, s)

end Parser

/-- Reads the one document of a text; a second document is a fault. -/
def Node.ofTokens (tokens : Tokens) : Except Fault (Option Node) := do
  let s : Parser := { tokens := tokens.found, fault := tokens.fault.getD .malformed }
  let (n, s) ← s.firstDocument
  match n with
  | none => return none
  | some n =>
    let s := s.skipDocumentEnds
    match ← s.peek with
    | .streamEnd => return some n
    | _ => .error .malformed

end RegistryTree.Yaml
