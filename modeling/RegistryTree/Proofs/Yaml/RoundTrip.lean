import RegistryTree.Proofs.Text.Utf8
import RegistryTree.Proofs.Yaml.Node.Printer
import RegistryTree.Proofs.Yaml.Node.ToValue
import RegistryTree.Yaml.Read

/-!
# From a value to its text and back

An ordinary value whose texts come back in their places is read from its text as a value that agrees
with it. The tokens of the text are those of the node that the value is written through, the grammar
gives back the node, and the node stands for the value.

> `readOctets_render`: the value that is read from the octets of the text.
-/

namespace RegistryTree.Yaml

open RegistryTree.Text

/-- Whether all texts in a value come back from what is written for them. -/
def faithfulValue (v : Value) : Bool := (Node.ofValue (rebuilt v)).toOption.all (Node.faithful true none)

/-- Text that was written is found in its octets as it is. -/
theorem readableText?_encodeUtf8 {text : List Char} (h : ∀ c ∈ text, isClean c = true) :
    readableText? (encodeUtf8 text) = some text := by
  have hreturn : '\r' ∉ text := fun hmem => absurd (h _ hmem) (by decide)
  have hreadable : text.all isReadable = true :=
    List.all_eq_true.2 fun c hc => isReadable_of_isClean (h c hc)
  rw [readableText?, decodeUtf8_encodeUtf8]
  show (if (unifyLineEnds text).all isReadable = true then some (unifyLineEnds text) else none) = _
  rw [unifyLineEnds_of_no_return hreturn, if_pos hreadable]

/-- The value that is read from the text of an ordinary value agrees with it. -/
theorem readOctets_render {v : Value} (h : v.Ordinary) (hnarrow : v.narrow = true)
    (hfaithful : faithfulValue v = true) :
    ∃ text, render v = .ok text ∧
      ∃ v', readOctets (encodeUtf8 text) = .ok v' ∧ v.agrees v' = true := by
  obtain ⟨n, hn, hordinary⟩ := ofValue_ordinary h hnarrow
  rw [faithfulValue, hn] at hfaithful
  obtain ⟨htokens, hclean⟩ := Node.write_tokens hordinary hfaithful
  obtain ⟨m, hm, hsame⟩ := Parser.ofTokens_documentTokens hordinary
  obtain ⟨v', hv', hagrees⟩ := Node.toValue_written h (hn.trans (congrArg Except.ok hsame.symm))
  refine ⟨n.write, by rw [render, hn]; rfl, v', ?_, hagrees⟩
  have hreadable : n.write.all isReadable = true :=
    List.all_eq_true.2 fun c hc => isReadable_of_isClean (hclean c hc)
  rw [readOctets_of_readable (readableText?_encodeUtf8 hclean), read, if_pos hreadable, htokens, valueOf,
    hm]
  exact hv'

end RegistryTree.Yaml
