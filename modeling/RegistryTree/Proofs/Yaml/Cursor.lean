import Mathlib.Data.List.Basic
import RegistryTree.Yaml.Cursor

/-!
# Moving through a text

Where a cursor is behind a piece of text, and what it finds there. Within a line the column grows
with the characters, and behind a line feed it starts from the left again. Carriage returns and
marks of byte order, which count in other ways, do not occur in a text that was written.

> `Cursor.skip_inline`: the cursor behind a piece of a line.
> `Cursor.skip_feed`: the cursor behind a line feed and the indentation of the next line.
> `Cursor.lineBreak_of_break`: the cursor behind a character that ends a line.
-/

namespace RegistryTree.Yaml

/-- A character that a text that was written can have. -/
def isClean (c : Char) : Bool := isReadable c && c ≠ '\r' && c ≠ byteOrderMark

theorem isReadable_of_isClean {c : Char} (h : isClean c = true) : isReadable c = true := by
  simp only [isClean, Bool.and_eq_true] at h
  exact h.1.1

/-- A piece of a text that stays within a line. -/
def isInline (c : Char) : Bool := c ≠ '\r' && c ≠ byteOrderMark && !isLineEnd c

theorem isInline_space : isInline ' ' = true := by decide

theorem isInline_of_isClean {c : Char} (h : isClean c = true) (hend : isLineEnd c = false) :
    isInline c = true := by
  simp only [isClean, isInline, Bool.and_eq_true] at h ⊢
  exact ⟨⟨h.1.2, h.2⟩, by rw [hend]; rfl⟩

namespace Cursor

variable {c : Cursor} {ch : Char} {l tail : List Char}

theorem peek_of_rest (h : c.rest = ch :: tail) : c.peek = ch := by
  rw [peek, h]
  rfl

theorem rest_skip_append (h : c.rest = l ++ tail) : (c.skip l.length).rest = tail := by
  rw [rest_skip, h, List.drop_left]

theorem skip_add (m n : Nat) : c.skip (m + n) = (c.skip m).skip n := by
  induction m generalizing c with
  | zero => rw [Nat.zero_add]; rfl
  | succ m ih => rw [Nat.succ_add]; exact ih

theorem ending_next : c.next.ending = c.ending := by
  unfold next
  split
  · rfl
  · split <;> rfl

theorem ending_skip (n : Nat) : (c.skip n).ending = c.ending := by
  induction n generalizing c with
  | zero => rfl
  | succ n ih => exact ih.trans ending_next

/-- Lines are only ever ended. -/
theorem line_le_next : c.line ≤ c.next.line := by
  unfold next
  split
  · exact Nat.le_refl _
  · split
    · exact Nat.le_succ _
    · exact Nat.le_refl _

theorem line_le_skip (n : Nat) : c.line ≤ (c.skip n).line := by
  induction n generalizing c with
  | zero => exact Nat.le_refl _
  | succ n ih => exact Nat.le_trans line_le_next ih

theorem next_inline (h : c.rest = ch :: tail) (hch : isInline ch = true) :
    c.next = { c with rest := tail, index := c.index + 1, column := c.column + 1 } := by
  simp only [isInline, Bool.and_eq_true, decide_eq_true_eq, Bool.not_eq_true'] at hch
  obtain ⟨⟨hreturn, hmark⟩, hend⟩ := hch
  unfold next
  split
  next hnil =>
    rw [h] at hnil
    cases hnil
  next d rest hcons =>
    rw [h] at hcons
    cases hcons
    rw [if_neg (by simp [hend, hreturn]), if_neg hmark]

/-- The cursor behind a piece of a line. -/
theorem skip_inline (h : c.rest = l ++ tail) (hl : ∀ ch ∈ l, isInline ch = true) :
    c.skip l.length = { c with
      rest := tail, index := c.index + l.length, column := c.column + l.length } := by
  induction l generalizing c with
  | nil =>
    obtain ⟨rest, index, line, column, ending⟩ := c
    cases h
    rfl
  | cons ch l ih =>
    rw [List.forall_mem_cons] at hl
    have hnext := next_inline h hl.1
    have hrest : c.next.rest = l ++ tail := by rw [rest_next, h]; rfl
    show c.next.skip l.length = _
    rw [ih hrest hl.2, hnext]
    simp only [List.length_cons, Nat.add_assoc, Nat.add_comm 1]

theorem next_end (h : c.rest = ch :: tail) (hch : isLineEnd ch = true) :
    c.next = { c with rest := tail, index := c.index + 1, line := c.line + 1, column := 0 } := by
  unfold next
  split
  next hnil =>
    rw [h] at hnil
    cases hnil
  next d rest hcons =>
    rw [h] at hcons
    cases hcons
    rw [if_pos (by simp [hch])]

/-- The cursor behind a line feed and the indentation of the next line. -/
theorem skip_feed {k : Nat} (h : c.rest = '\n' :: (List.replicate k ' ' ++ tail)) :
    c.skip (1 + k) = { c with
      rest := tail, index := c.index + 1 + k, line := c.line + 1, column := k } := by
  have hnext := next_end h (by decide)
  have hrest : c.next.rest = List.replicate k ' ' ++ tail := by rw [rest_next, h]; rfl
  have hskip := skip_inline hrest fun ch hch => by
    rw [List.eq_of_mem_replicate hch]
    exact isInline_space
  rw [List.length_replicate] at hskip
  rw [skip_add]
  show c.next.skip k = _
  rw [hskip, hnext]
  simp only [Nat.zero_add]

/-! ## Runs of characters -/

theorem takeWhile_append {p : Char → Bool} (hl : ∀ x ∈ l, p x = true)
    (htail : p (tail.headD endMark) = false ∨ tail = []) : (l ++ tail).takeWhile p = l := by
  rw [List.takeWhile_append_of_pos hl]
  cases tail with
  | nil => simp
  | cons x rest =>
    have hx : p x = false := by simpa using htail
    rw [List.takeWhile_cons, if_neg (by simp [hx]), List.append_nil]

theorem spanWhile_of_rest {p : Char → Bool} (h : c.rest = l ++ tail) (hl : ∀ x ∈ l, p x = true)
    (htail : p (tail.headD endMark) = false ∨ tail = []) :
    c.spanWhile p = (l, c.skip l.length) := by
  rw [spanWhile, h, takeWhile_append hl htail]

theorem skipWhile_of_rest {p : Char → Bool} (h : c.rest = l ++ tail) (hl : ∀ x ∈ l, p x = true)
    (htail : p (tail.headD endMark) = false ∨ tail = []) :
    c.skipWhile p = c.skip l.length := by
  rw [skipWhile, h, takeWhile_append hl htail]

/-! ## Line breaks -/

/-- The line ends that are kept as they are in a scalar. -/
def isKeptEnd (ch : Char) : Bool := ch = '\n' || ch = '\u2028' || ch = '\u2029'

theorem startsWith_of_head (h : c.rest = ch :: tail) (hch : ch ≠ '\r') :
    c.startsWith ['\r', '\n'] = false := by
  rw [startsWith, h, List.isPrefixOf, beq_eq_false_iff_ne.2 hch.symm]
  rfl

/-- The cursor behind a character that ends a line and counts as itself. -/
theorem lineBreak_of_break (h : c.rest = ch :: tail) (hch : isKeptEnd ch = true) :
    c.lineBreak = ([ch], c.next) := by
  simp only [isKeptEnd, Bool.or_eq_true, decide_eq_true_eq] at hch
  have hstart : c.startsWith ['\r', '\n'] = false :=
    startsWith_of_head h (by rcases hch with (rfl | rfl) | rfl <;> decide)
  rw [lineBreak, hstart, peek_of_rest h]
  rcases hch with (rfl | rfl) | rfl
  · rfl
  · rfl
  · rfl

theorem lineBreak_of_not_break (h : isBreak c.peek = false) : c.lineBreak = ([], c) := by
  simp only [isBreak, isLineEnd, Bool.or_eq_false_iff, decide_eq_false_iff_not] at h
  obtain ⟨hreturn, ⟨⟨hfeed, hnext⟩, hline⟩, hparagraph⟩ := h
  have hstart : c.startsWith ['\r', '\n'] = false := by
    cases hr : c.rest with
    | nil => rw [startsWith, hr]; rfl
    | cons ch tail =>
      refine startsWith_of_head hr fun heq => hreturn ?_
      rw [peek_of_rest hr, heq]
  rw [lineBreak, hstart, if_neg (by simp), if_neg (by simp [hreturn, hfeed, hnext]),
    if_neg (by simp [hline, hparagraph])]

/-- No mark between documents stands where a line goes on with a space or ends. -/
theorem atDocumentMark_of_head (h : c.rest = ch :: tail) (hdash : ch ≠ '-') (hdot : ch ≠ '.') :
    c.atDocumentMark = false := by
  have hfirst : ∀ d : Char, ch ≠ d → c.startsWith [d, d, d] = false := by
    intro d hd
    rw [startsWith, h, List.isPrefixOf, beq_eq_false_iff_ne.2 hd.symm]
    rfl
  rw [atDocumentMark, hfirst '-' hdash, hfirst '.' hdot]
  rfl

end Cursor

end RegistryTree.Yaml
