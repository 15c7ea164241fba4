import RegistryTree.Text.Portion
import RegistryTree.Yaml.Node.Parser
import RegistryTree.Yaml.Node.ToValue

/-!
# Reading a YAML text

A text is read as the one document that it holds. A text without a document stands for nothing, and
a text with a character that cannot stand in YAML is not well formed. The text of a file comes in
portions, so what is wrong with its octets or characters counts only when the tokens in front of it
are in order.

> `readOctets_of_readable`: a file in which nothing is wrong is read as the text that it holds.
-/

namespace RegistryTree.Yaml

/-- The value of the one document that tokens make up. -/
def valueOf (tokens : Tokens) : Except Fault Value := do
  match ← Node.ofTokens tokens with
  | none => return .null
  | some n => n.toValue

/-- The value of the one document in a text. -/
def read (text : List Char) : Except Fault Value :=
  if text.all isReadable then valueOf (Tokens.ofText text none) else .error .malformed

/-- The start of a text, as far as its portions can be read, and what is wrong behind it; `fault` is
what is wrong behind the last portion. -/
def readablePortions (fault : Option Fault) : List (List Char) → List Char × Option Fault
  | [] => ([], fault)
  | portion :: more =>
    if portion.all isReadable then
      let (text, fault) := readablePortions fault more
      (portion ++ text, fault)
    else ([], some .malformed)

/-- The start of the text of a file, as far as it can be read, and what is wrong behind it. The
first two portions are taken together. -/
def readableStart (octets : List UInt8) : List Char × Option Fault :=
  let (portions, fault) := Text.portions octets
  let fault := fault.map Fault.encoding
  match portions with
  | first :: second :: more => readablePortions fault ((first ++ second) :: more)
  | _ => if fault.isSome then ([], fault) else readablePortions fault portions

/-- The text of a file in which nothing is wrong. -/
def readableText? (octets : List UInt8) : Option (List Char) := do
  let text := Text.unifyLineEnds (← (Text.decodeUtf8 octets).toOption)
  if text.all isReadable then some text else none

/-- The value of the one document in the octets of a file. -/
def readOctets (octets : List UInt8) : Except Fault Value :=
  match readableText? octets with
  | some text => read text
  | none =>
    let (text, fault) := readableStart octets
    valueOf (Tokens.ofText text fault)

theorem readOctets_of_readable {octets : List UInt8} {text : List Char}
    (h : readableText? octets = some text) : readOctets octets = read text := by
  rw [readOctets, h]

end RegistryTree.Yaml
