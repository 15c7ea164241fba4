import Mathlib.Data.List.TakeWhile
import RegistryTree.Text.Blank

/-!
# Texts with white space around them

White space around a text makes no difference to what is left when it is cut off. Every text is what
is left of it with white space around, so nothing more is cut off a second time.

> `trim_of_padded`: a text with white space around it is trimmed to what the text is trimmed to.
> `trim_trim`: what was trimmed is trimmed already.
-/

namespace RegistryTree.Text

/-- Whether the characters of a text are those of another with white space around them. -/
def IsPadded (t s : List Char) : Prop :=
  ∃ front back, (∀ c ∈ front, isBlank c = true) ∧ (∀ c ∈ back, isBlank c = true) ∧
    t = front ++ s ++ back

theorem trimWith_append {p : Char → Bool} {front s back : List Char}
    (hfront : ∀ c ∈ front, p c = true) (hback : ∀ c ∈ back, p c = true) :
    trimWith p (front ++ s ++ back) = trimWith p s := by
  have hreverse : ∀ c ∈ back.reverse, p c = true := fun c hc => hback c (List.mem_reverse.1 hc)
  have hnone : back.dropWhile p = [] := List.dropWhile_eq_nil_iff.2 hback
  rw [trimWith, trimWith, List.append_assoc, List.dropWhile_append_of_pos hfront,
    List.dropWhile_append]
  split
  next hall =>
    -- nothing is left of the text, and nothing of what is behind it
    rw [List.isEmpty_iff.1 hall, hnone]
  next => rw [List.reverse_append, List.dropWhile_append_of_pos hreverse]

theorem trimChars_of_padded {t s : List Char} (h : IsPadded t s) : trimChars t = trimChars s := by
  obtain ⟨front, back, hfront, hback, rfl⟩ := h
  exact trimWith_append hfront hback

theorem isPadded_trimChars (t : List Char) : IsPadded t (trimChars t) := by
  have hblank : ∀ {s : List Char}, ∀ c ∈ s.takeWhile isBlank, isBlank c = true :=
    fun c hc => List.mem_takeWhile_imp hc
  refine ⟨t.takeWhile isBlank, ((t.dropWhile isBlank).reverse.takeWhile isBlank).reverse, hblank,
    fun c hc => hblank c (List.mem_reverse.1 hc), ?_⟩
  rw [trimChars, trimWith, List.append_assoc, ← List.reverse_append,
    List.takeWhile_append_dropWhile, List.reverse_reverse, List.takeWhile_append_dropWhile]

/-- A text with white space around it is trimmed to what the text is trimmed to. -/
theorem trim_of_padded {t s : String} (h : IsPadded t.toList s.toList) : trim t = trim s :=
  congrArg String.ofList (trimChars_of_padded h)

/-- What was trimmed is trimmed already. -/
theorem trim_trim (t : String) : trim (trim t) = trim t := by
  have hpadded : IsPadded t.toList (trim t).toList := by
    rw [trim, String.toList_ofList]
    exact isPadded_trimChars t.toList
  exact (trim_of_padded hpadded).symm

end RegistryTree.Text
