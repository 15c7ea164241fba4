import RegistryTree.Proofs.Except
import RegistryTree.Proofs.Number.Numeral
import RegistryTree.Proofs.Yaml.Cursor
import RegistryTree.Yaml.Scalar.Quoted
import RegistryTree.Yaml.Scalar.Write

/-!
# Spelling a text between quotes

`Spells` relates a text to the ways in which it can be written between quotes: character by
character, with spaces that may be replaced by line breaks, with line ends that are doubled where a
single one would count as a space, and between quotation marks with escapes. It knows nothing of
columns and widths, so that the reader and the writer can each be held against it alone.

> `quotedText_spells`: what spells a text is read as the text.
> `readEscape_escapeOf`: an escape is read as the character that it was written for.
-/

namespace RegistryTree.Yaml.Scalar

open RegistryTree.Text

/-- Whether what follows a piece of white space shows that it has ended. -/
def Starts (t : List Char) : Prop := ∀ c ∈ t.head?, isWhiteOrEnd c = false

/-- Line ends as they are written: one more where the first is a line feed. -/
def written (ends : List Char) : List Char :=
  if ends.head? = some '\n' then '\n' :: ends else ends

/-- The second text spells the first between quotes. -/
inductive Spells : Quote → List Char → List Char → Prop
  | nil (quote : Quote) : Spells quote [] []
  | char {quote : Quote} {s t : List Char} (c : Char) (hquote : c ≠ quote.char)
      (hescape : quote = .double → c ≠ '\\') (hclean : isClean c = true)
      (hwhite : isWhiteOrEnd c = false) (h : Spells quote s t) : Spells quote (c :: s) (c :: t)
  /-- An apostrophe is written twice. -/
  | apostrophe {s t : List Char} (h : Spells .single s t) :
      Spells .single ('\'' :: s) ('\'' :: '\'' :: t)
  | escape {s t : List Char} (c : Char) (h : Spells .double s t) :
      Spells .double (c :: s) (escapeOf c ++ t)
  /-- A space behind a backslash is kept wherever it stands. -/
  | keptSpace {s t : List Char} (h : Spells .double s t) : Spells .double (' ' :: s) ('\\' :: ' ' :: t)
  | spaces {quote : Quote} {s t : List Char} (k : Nat) (hstarts : Starts t) (h : Spells quote s t) :
      Spells quote (List.replicate (k + 1) ' ' ++ s) (List.replicate (k + 1) ' ' ++ t)
  /-- A line break with the indentation behind it is a space. -/
  | fold {quote : Quote} {s t : List Char} (n : Nat) (hstarts : Starts t) (h : Spells quote s t) :
      Spells quote (' ' :: s) ('\n' :: (List.replicate (n + 1) ' ' ++ t))
  | breaks {quote : Quote} {s t ends : List Char} (n : Nat) (hne : ends ≠ [])
      (hends : ∀ c ∈ ends, Cursor.isKeptEnd c = true) (hstarts : Starts t) (h : Spells quote s t) :
      Spells quote (ends ++ s) (written ends ++ (List.replicate (n + 1) ' ' ++ t))
  /-- A line break behind a backslash is nothing. -/
  | split {s t : List Char} (n : Nat) (hstarts : Starts t) (h : Spells .double s t) :
      Spells .double s ('\\' :: '\n' :: (List.replicate (n + 1) ' ' ++ t))

/-! ## White space -/

variable {quote : Quote} {c : Cursor} {t tail : List Char}

theorem quote_not_white (quote : Quote) : isWhiteOrEnd quote.char = false := by
  cases quote <;> decide

/-- Behind what spells a text stands the closing quote, so that white space has ended there. -/
theorem Starts.head_append (h : Starts t) (quote : Quote) (tail : List Char) :
    isWhiteOrEnd ((t ++ quote.char :: tail).headD endMark) = false := by
  cases t with
  | nil => exact quote_not_white quote
  | cons d rest => exact h d rfl

theorem isTabOrSpace_of_not_white {d : Char} (h : isWhiteOrEnd d = false) :
    isTabOrSpace d = false := by
  simp only [isWhiteOrEnd, isSpaceOrEnd, isTabOrSpace, Bool.or_eq_false_iff] at h ⊢
  exact ⟨h.2.1, h.1⟩

theorem isBreak_of_not_white {d : Char} (h : isWhiteOrEnd d = false) : isBreak d = false := by
  simp only [isWhiteOrEnd, isSpaceOrEnd, isBreakOrEnd, Bool.or_eq_false_iff] at h
  exact h.2.2.2

theorem ne_endMark_of_not_white {d : Char} (h : isWhiteOrEnd d = false) : d ≠ endMark := by
  simp only [isWhiteOrEnd, isSpaceOrEnd, isBreakOrEnd, Bool.or_eq_false_iff,
    decide_eq_false_iff_not] at h
  exact h.2.2.1

theorem isTabOrSpace_replicate (n : Nat) : ∀ d ∈ List.replicate n ' ', isTabOrSpace d = true := by
  intro d hd
  rw [List.eq_of_mem_replicate hd]
  rfl

theorem isKeptEnd_cases {d : Char} (h : Cursor.isKeptEnd d = true) :
    d = '\n' ∨ d = '\u2028' ∨ d = '\u2029' := by
  simpa [Cursor.isKeptEnd, or_assoc] using h

theorem isBreak_of_isKeptEnd {d : Char} (h : Cursor.isKeptEnd d = true) : isBreak d = true := by
  rcases isKeptEnd_cases h with rfl | rfl | rfl <;> decide

theorem atDocumentMark_of_isKeptEnd {d : Char} (h : c.rest = d :: tail)
    (hd : Cursor.isKeptEnd d = true) : c.atDocumentMark = false := by
  rcases isKeptEnd_cases hd with rfl | rfl | rfl <;>
    exact Cursor.atDocumentMark_of_head h (by decide) (by decide)

/-- The indentation behind the last of some line breaks is dropped. -/
theorem quotedBreaks_indentation {fuel n : Nat}
    (h : c.rest = List.replicate (n + 1) ' ' ++ (t ++ quote.char :: tail)) (hstarts : Starts t) :
    quotedBreaks (fuel + 1) c = .ok ([], c.skip (n + 1)) := by
  have hmark : c.atDocumentMark = false := Cursor.atDocumentMark_of_head h (by decide) (by decide)
  have hhead := hstarts.head_append quote tail
  have hskip := Cursor.skipWhile_of_rest h (isTabOrSpace_replicate (n + 1))
    (Or.inl (isTabOrSpace_of_not_white hhead))
  rw [List.length_replicate] at hskip
  have hpeek : isBreak (c.skip (n + 1)).peek = false := by
    have hrest := Cursor.rest_skip_append h
    rw [List.length_replicate] at hrest
    rw [Cursor.peek, hrest]
    exact isBreak_of_not_white hhead
  rw [quotedBreaks, hmark, if_neg (by simp), hskip]
  simp only
  rw [hpeek]
  rfl

/-- Line ends behind the first are kept. -/
theorem quotedBreaks_ends {ends : List Char} {fuel n : Nat}
    (hends : ∀ d ∈ ends, Cursor.isKeptEnd d = true) (hfuel : ends.length < fuel)
    (h : c.rest = ends ++ (List.replicate (n + 1) ' ' ++ (t ++ quote.char :: tail)))
    (hstarts : Starts t) :
    quotedBreaks fuel c = .ok (ends, c.skip (ends.length + (n + 1))) := by
  induction ends generalizing fuel c with
  | nil =>
    obtain ⟨fuel, rfl⟩ : ∃ m, fuel = m + 1 := ⟨fuel - 1, by simp at hfuel; omega⟩
    rw [quotedBreaks_indentation h hstarts]
    simp
  | cons d ends ih =>
    obtain ⟨fuel, rfl⟩ : ∃ m, fuel = m + 1 := ⟨fuel - 1, by simp at hfuel; omega⟩
    rw [List.forall_mem_cons] at hends
    have hbreak := isBreak_of_isKeptEnd hends.1
    have hmark := atDocumentMark_of_isKeptEnd h hends.1
    -- no white space stands before the line end
    have hblank : isTabOrSpace d = false := by
      rcases isKeptEnd_cases hends.1 with rfl | rfl | rfl <;> decide
    have hskip : c.skipWhile isTabOrSpace = c :=
      Cursor.skipWhile_of_rest (l := []) h (by simp) (Or.inl hblank)
    have hnext : c.next.rest = ends ++ (List.replicate (n + 1) ' ' ++ (t ++ quote.char :: tail)) := by
      rw [Cursor.rest_next, h]
      rfl
    rw [quotedBreaks, hmark, if_neg (by simp), hskip]
    simp only
    rw [Cursor.peek_of_rest h, if_pos hbreak, Cursor.lineBreak_of_break h hends.1]
    simp only
    rw [ih hends.2 (by simpa using hfuel) hnext]
    have hcount : (d :: ends).length + (n + 1) = ends.length + (n + 1) + 1 := by
      simp only [List.length_cons]
      omega
    rw [hcount]
    rfl

/-- Spaces inside a line are kept. -/
theorem quotedSpaces_spaces {k : Nat}
    (h : c.rest = List.replicate k ' ' ++ (t ++ quote.char :: tail)) (hstarts : Starts t) :
    quotedSpaces c = .ok (List.replicate k ' ', c.skip k) := by
  have hhead := hstarts.head_append quote tail
  have hspan := Cursor.spanWhile_of_rest h (isTabOrSpace_replicate k)
    (Or.inl (isTabOrSpace_of_not_white hhead))
  rw [List.length_replicate] at hspan
  have hrest := Cursor.rest_skip_append h
  rw [List.length_replicate] at hrest
  have hpeek : (c.skip k).peek = (t ++ quote.char :: tail).headD endMark := by
    rw [Cursor.peek, hrest]
  rw [quotedSpaces, hspan]
  simp only
  rw [hpeek, if_neg (ne_endMark_of_not_white hhead), isBreak_of_not_white hhead]
  rfl

/-- Line ends at the cursor: the first counts as a space when it is a line feed and the only one. -/
theorem quotedSpaces_ends {d : Char} (ends : List Char) {n : Nat}
    (hd : Cursor.isKeptEnd d = true) (hends : ∀ d ∈ ends, Cursor.isKeptEnd d = true)
    (h : c.rest = d :: (ends ++ (List.replicate (n + 1) ' ' ++ (t ++ quote.char :: tail))))
    (hstarts : Starts t) :
    quotedSpaces c = .ok
      ((if d ≠ '\n' then [d] else if ends = [] then [' '] else []) ++ ends,
        c.skip (1 + ends.length + (n + 1))) := by
  have hblank : isTabOrSpace d = false := by
    rcases isKeptEnd_cases hd with rfl | rfl | rfl <;> decide
  have hend : d ≠ endMark := by
    rcases isKeptEnd_cases hd with rfl | rfl | rfl <;> decide
  have hspan : c.spanWhile isTabOrSpace = ([], c) :=
    Cursor.spanWhile_of_rest (l := []) h (by simp) (Or.inl hblank)
  have hnext : c.next.rest = ends ++ (List.replicate (n + 1) ' ' ++ (t ++ quote.char :: tail)) := by
    rw [Cursor.rest_next, h]
    rfl
  have hmore : quotedBreaks (c.next.rest.length + 1) c.next = _ :=
    quotedBreaks_ends hends (by rw [hnext, List.length_append]; omega) hnext hstarts
  rw [quotedSpaces, hspan]
  simp only
  rw [Cursor.peek_of_rest h, if_neg hend, isBreak_of_isKeptEnd hd, Cursor.lineBreak_of_break h hd]
  simp only [if_true]
  rw [hmore]
  have hcount : c.next.skip (ends.length + (n + 1)) = c.skip (1 + ends.length + (n + 1)) := by
    rw [show 1 + ends.length + (n + 1) = ends.length + (n + 1) + 1 by omega]
    rfl
  rw [← hcount]
  show Except.ok _ = _
  simp

/-- Line ends that are written so that they are kept. -/
theorem quotedSpaces_written {ends : List Char} {n : Nat} (hne : ends ≠ [])
    (hends : ∀ d ∈ ends, Cursor.isKeptEnd d = true)
    (h : c.rest = written ends ++ (List.replicate (n + 1) ' ' ++ (t ++ quote.char :: tail)))
    (hstarts : Starts t) :
    quotedSpaces c = .ok (ends, c.skip ((written ends).length + (n + 1))) := by
  cases ends with
  | nil => exact absurd rfl hne
  | cons d ends =>
    have hall := List.forall_mem_cons.1 hends
    by_cases hfeed : d = '\n'
    · subst hfeed
      rw [written, List.head?_cons, if_pos rfl] at h ⊢
      rw [quotedSpaces_ends _ (by decide) hends h hstarts, Nat.add_comm 1]
      simp
    · rw [written, List.head?_cons, if_neg (by simpa using hfeed)] at h ⊢
      rw [quotedSpaces_ends _ hall.1 hall.2 h hstarts, if_pos hfeed, List.length_cons, Nat.add_comm 1]
      rfl

/-- Line ends are written with a line end in front. -/
theorem written_eq_cons {ends : List Char} (hne : ends ≠ [])
    (hends : ∀ d ∈ ends, Cursor.isKeptEnd d = true) :
    ∃ d rest, written ends = d :: rest ∧ Cursor.isKeptEnd d = true := by
  cases ends with
  | nil => exact absurd rfl hne
  | cons d ends =>
    rw [written]
    split
    · exact ⟨'\n', _, rfl, by decide⟩
    · exact ⟨d, _, rfl, (List.forall_mem_cons.1 hends).1⟩

/-! ## Escapes -/

/-- The letter of an escape is read as its character. -/
theorem lookup_escapes_of_letter {ch letter : Char} (h : escapeLetters.lookup ch = some letter) :
    escapes.lookup letter = some ch := by
  have hall : ∀ e ∈ escapeLetters, escapes.lookup e.2 = some e.1 := by decide
  obtain ⟨front, back, heq, -⟩ := List.lookup_eq_some_iff.1 h
  exact hall (ch, letter) (heq ▸ List.mem_append_right front (List.mem_cons_self ..))

theorem toNat_lt (ch : Char) : ch.toNat < 0x110000 := by
  have hch : ch.toNat.isValidChar := ch.valid
  simp only [Nat.isValidChar] at hch
  omega

/-- The number of a character is the number of no surrogate. -/
theorem charOfNumber_toNat (ch : Char) : charOfNumber ch.toNat = .ok ch := by
  have hch : ch.toNat.isValidChar := ch.valid
  simp only [Nat.isValidChar] at hch
  rw [charOfNumber, if_neg (by omega), if_neg (by omega), if_neg (by omega), Char.ofNat_toNat]

/-- A numeric escape is read as its character. -/
theorem readEscape_numeral {letter ch : Char} {width : Nat}
    (hletter : escapes.lookup letter = none) (hwidth : escapeWidth? letter = some width)
    (hch : ch.toNat < 16 ^ width)
    (h : c.rest = letter :: (hexNumeral .upper width ch.toNat ++ tail)) :
    readEscape c = .ok ([ch], c.skip (width + 1)) := by
  have hlength := length_hexNumeral .upper width ch.toNat
  have hnext : c.next.rest = hexNumeral .upper width ch.toNat ++ tail := by
    rw [Cursor.rest_next, h]
    rfl
  have htake : c.next.rest.take width = hexNumeral .upper width ch.toNat := by
    rw [hnext, List.take_left' hlength]
  rw [readEscape, Cursor.peek_of_rest h, hletter, hwidth]
  simp only
  rw [htake, hexRead?_hexNumeral .upper hch]
  simp only
  rw [if_neg (by omega), charOfNumber_toNat]
  rfl

/-- An escape is a letter of its own or a number. -/
theorem escapeOf_cases (ch : Char) :
    (∃ letter, escapeLetters.lookup ch = some letter ∧ escapeOf ch = ['\\', letter]) ∨
    ∃ letter width, escapes.lookup letter = none ∧ escapeWidth? letter = some width ∧
      ch.toNat < 16 ^ width ∧ escapeOf ch = '\\' :: letter :: hexNumeral .upper width ch.toNat := by
  rw [escapeOf]
  cases hletter : escapeLetters.lookup ch with
  | some letter => exact Or.inl ⟨letter, rfl, rfl⟩
  | none =>
    refine Or.inr ?_
    simp only
    split
    next hsmall => exact ⟨'x', 2, by decide, rfl, by omega, rfl⟩
    next =>
      split
      next hsmall => exact ⟨'u', 4, by decide, rfl, by omega, rfl⟩
      next => exact ⟨'U', 8, by decide, rfl, by have := toNat_lt ch; omega, rfl⟩

/-- An escape is read as the character that it was written for; the cursor is behind its
backslash. -/
theorem readEscape_escapeOf (ch : Char) (h : c.rest = (escapeOf ch).tail ++ tail) :
    readEscape c = .ok ([ch], c.skip (escapeOf ch).tail.length) := by
  rcases escapeOf_cases ch with ⟨letter, hletter, heq⟩ | ⟨letter, width, hletter, hwidth, hch, heq⟩
  · rw [heq] at h ⊢
    rw [readEscape, Cursor.peek_of_rest h, lookup_escapes_of_letter hletter]
    rfl
  · rw [heq] at h ⊢
    rw [readEscape_numeral hletter hwidth hch h, List.tail_cons, List.length_cons,
      length_hexNumeral]

/-- Every escape begins with a backslash. -/
theorem escapeOf_eq_cons (ch : Char) : escapeOf ch = '\\' :: (escapeOf ch).tail := by
  rcases escapeOf_cases ch with ⟨letter, -, heq⟩ | ⟨letter, width, -, -, -, heq⟩ <;> rw [heq] <;> rfl

/-! ## The text between the quotes -/

/-- At a cursor, a piece of text is read as a part of the text in one step. -/
def Steps (quote : Quote) (c : Cursor) (piece part : List Char) : Prop :=
  ∀ fuel more c', quotedText quote fuel (c.skip piece.length) = .ok (more, c') →
    quotedText quote (fuel + 1) c = .ok (part ++ more, c')

theorem steps_char {d : Char} (hrest : c.rest = d :: tail) (hquote : d ≠ quote.char)
    (hescape : quote = .double → d ≠ '\\') (hwhite : isWhiteOrEnd d = false) :
    Steps quote c [d] [d] := by
  intro fuel more c' hmore
  rw [quotedText]
  simp only
  rw [Cursor.peek_of_rest hrest, if_neg hquote, if_neg (by simpa using hescape),
    if_neg (by simp [hwhite])]
  exact bind_eq_ok_iff.2 ⟨_, hmore, rfl⟩

/-- Between apostrophes, two of them stand for one. -/
theorem steps_apostrophe (hrest : c.rest = '\'' :: '\'' :: tail) :
    Steps .single c ['\'', '\''] ['\''] := by
  intro fuel more c' hmore
  have htwo : c.peekAt 1 = '\'' := by
    rw [Cursor.peekAt, hrest]
    rfl
  rw [quotedText]
  dsimp only
  rw [Cursor.peek_of_rest hrest, if_pos (show '\'' = Quote.single.char from rfl),
    if_pos ⟨rfl, htwo⟩]
  exact bind_eq_ok_iff.2 ⟨_, hmore, rfl⟩

theorem steps_white {piece part : List Char} (hpeek : isWhiteOrEnd c.peek = true)
    (hpart : quotedSpaces c = .ok (part, c.skip piece.length)) : Steps quote c piece part := by
  intro fuel more c' hmore
  have hquote : c.peek ≠ quote.char := by
    intro heq
    rw [heq, quote_not_white] at hpeek
    cases hpeek
  have hescape : c.peek ≠ '\\' := by
    intro heq
    rw [heq] at hpeek
    revert hpeek
    decide
  rw [quotedText]
  simp only
  rw [if_neg hquote, if_neg (by simp [hescape]), if_pos hpeek, hpart]
  exact bind_eq_ok_iff.2 ⟨_, rfl, bind_eq_ok_iff.2 ⟨_, hmore, rfl⟩⟩

theorem steps_spaces {k : Nat}
    (hrest : c.rest = List.replicate (k + 1) ' ' ++ (t ++ quote.char :: tail)) (hstarts : Starts t) :
    Steps quote c (List.replicate (k + 1) ' ') (List.replicate (k + 1) ' ') := by
  refine steps_white (by rw [Cursor.peek_of_rest hrest]; rfl) ?_
  rw [quotedSpaces_spaces hrest hstarts, List.length_replicate]

/-- A single line feed counts as a space. -/
theorem steps_fold {n : Nat}
    (hrest : c.rest = '\n' :: (List.replicate (n + 1) ' ' ++ (t ++ quote.char :: tail)))
    (hstarts : Starts t) : Steps quote c ('\n' :: List.replicate (n + 1) ' ') [' '] := by
  refine steps_white (by rw [Cursor.peek_of_rest hrest]; rfl) ?_
  rw [quotedSpaces_ends [] (by decide) (by simp) hrest hstarts, List.length_cons,
    List.length_replicate, List.length_nil, Nat.add_zero, Nat.add_comm 1]
  rfl

/-- Line ends are kept as they are written. -/
theorem steps_breaks {ends : List Char} {n : Nat} (hne : ends ≠ [])
    (hends : ∀ d ∈ ends, Cursor.isKeptEnd d = true)
    (hrest : c.rest = written ends ++ (List.replicate (n + 1) ' ' ++ (t ++ quote.char :: tail)))
    (hstarts : Starts t) :
    Steps quote c (written ends ++ List.replicate (n + 1) ' ') ends := by
  have hpeek : isWhiteOrEnd c.peek = true := by
    obtain ⟨d, more, heq, hd⟩ := written_eq_cons hne hends
    rw [heq] at hrest
    rw [Cursor.peek_of_rest hrest]
    rcases isKeptEnd_cases hd with rfl | rfl | rfl <;> rfl
  refine steps_white hpeek ?_
  rw [quotedSpaces_written hne hends hrest hstarts, List.length_append, List.length_replicate]

theorem steps_escape {letters part : List Char} (hpeek : c.peek = '\\')
    (hpart : readEscape c.next = .ok (part, c.next.skip letters.length)) :
    Steps .double c ('\\' :: letters) part := by
  intro fuel more c' hmore
  rw [quotedText]
  dsimp only
  rw [hpeek, if_neg (by decide), if_pos ⟨rfl, rfl⟩, hpart]
  exact bind_eq_ok_iff.2 ⟨_, rfl, bind_eq_ok_iff.2 ⟨_, hmore, rfl⟩⟩

theorem steps_escapeOf (d : Char) (hrest : c.rest = escapeOf d ++ tail) :
    Steps .double c (escapeOf d) [d] := by
  rw [escapeOf_eq_cons] at hrest ⊢
  have hnext : c.next.rest = (escapeOf d).tail ++ tail := by
    rw [Cursor.rest_next, hrest]
    rfl
  exact steps_escape (Cursor.peek_of_rest hrest) (readEscape_escapeOf d hnext)

/-- A backslash keeps a space at the start of a line. -/
theorem steps_keptSpace (hrest : c.rest = '\\' :: ' ' :: tail) :
    Steps .double c ['\\', ' '] [' '] := by
  refine steps_escape (Cursor.peek_of_rest hrest) ?_
  have hnext : c.next.rest = ' ' :: tail := by
    rw [Cursor.rest_next, hrest]
    rfl
  rw [readEscape, Cursor.peek_of_rest hnext]
  rfl

/-- A line break behind a backslash counts as nothing. -/
theorem steps_split {n : Nat}
    (hrest : c.rest = '\\' :: '\n' :: (List.replicate (n + 1) ' ' ++ (t ++ Quote.double.char :: tail)))
    (hstarts : Starts t) :
    Steps .double c ('\\' :: '\n' :: List.replicate (n + 1) ' ') [] := by
  have hnext : c.next.rest =
      '\n' :: (List.replicate (n + 1) ' ' ++ (t ++ Quote.double.char :: tail)) := by
    rw [Cursor.rest_next, hrest]
    rfl
  have hfeed : c.next.next.rest =
      List.replicate (n + 1) ' ' ++ (t ++ Quote.double.char :: tail) := by
    rw [Cursor.rest_next, hnext]
    rfl
  refine steps_escape (Cursor.peek_of_rest hrest) ?_
  rw [readEscape, Cursor.peek_of_rest hnext]
  show (let c := c.next.lineBreak.2; quotedBreaks (c.rest.length + 1) c) = _
  rw [Cursor.lineBreak_of_break hnext (by decide)]
  dsimp only
  rw [quotedBreaks_indentation hfeed hstarts, List.length_cons, List.length_replicate]
  rfl

/-- The closing quote. -/
theorem quotedText_end {fuel : Nat} (hrest : c.rest = quote.char :: tail)
    (hend : quote = .single → tail.head? ≠ some '\'') :
    quotedText quote (fuel + 1) c = .ok ([], c.skip 1) := by
  have hone : ¬(quote = .single ∧ c.peekAt 1 = '\'') := by
    intro hand
    obtain ⟨hquote, hnext⟩ := hand
    rw [Cursor.peekAt, hrest] at hnext
    cases tail with
    | nil =>
      revert hnext
      cases quote <;> decide
    | cons d rest => exact hend hquote (congrArg some hnext)
  rw [quotedText]
  simp only
  rw [Cursor.peek_of_rest hrest, if_pos rfl, if_neg hone]
  rfl

/-- Behind a step, the rest of a text is read. -/
theorem Steps.read {piece part s : List Char} {fuel : Nat} (hstep : Steps quote c piece part)
    (hpiece : 0 < piece.length) (hrest : c.rest = (piece ++ t) ++ quote.char :: tail)
    (hfuel : (piece ++ t).length < fuel)
    (hmore : ∀ {c : Cursor} {fuel : Nat}, c.rest = t ++ quote.char :: tail → t.length < fuel →
      quotedText quote fuel c = .ok (s, c.skip (t.length + 1))) :
    quotedText quote fuel c = .ok (part ++ s, c.skip ((piece ++ t).length + 1)) := by
  obtain ⟨fuel, rfl⟩ : ∃ m, fuel = m + 1 := ⟨fuel - 1, by omega⟩
  rw [List.append_assoc] at hrest
  rw [List.length_append] at hfuel ⊢
  rw [Nat.add_assoc, Cursor.skip_add]
  exact hstep _ _ _ (hmore (Cursor.rest_skip_append hrest) (by omega))

/-- What spells a text is read as the text. -/
theorem quotedText_spells {s : List Char} {fuel : Nat} (h : Spells quote s t)
    (hrest : c.rest = t ++ quote.char :: tail)
    (hend : quote = .single → tail.head? ≠ some '\'') (hfuel : t.length < fuel) :
    quotedText quote fuel c = .ok (s, c.skip (t.length + 1)) := by
  -- One rule of spelling is one step of the reader, and each step leaves a shorter text.
  induction h generalizing c fuel with
  | nil quote =>
    obtain ⟨fuel, rfl⟩ : ∃ m, fuel = m + 1 := ⟨fuel - 1, by omega⟩
    exact quotedText_end hrest hend
  | @char quote s t d hquote hescape hclean hwhite h ih =>
    exact (steps_char hrest hquote hescape hwhite).read Nat.one_pos hrest hfuel fun hc => ih hc hend
  | @apostrophe s t h ih =>
    exact (steps_apostrophe hrest).read Nat.two_pos hrest hfuel fun hc => ih hc hend
  | @escape s t d h ih =>
    have hpos : 0 < (escapeOf d).length := by
      rw [escapeOf_eq_cons]
      exact Nat.succ_pos _
    have hread := steps_escapeOf d ((List.append_assoc ..) ▸ hrest)
    exact hread.read hpos hrest hfuel fun hc => ih hc hend
  | @keptSpace s t h ih =>
    exact (steps_keptSpace hrest).read Nat.two_pos hrest hfuel fun hc => ih hc hend
  | @spaces quote s t k hstarts h ih =>
    have hread := steps_spaces ((List.append_assoc ..) ▸ hrest) hstarts
    exact hread.read (by simp) hrest hfuel fun hc => ih hc hend
  | @fold quote s t n hstarts h ih =>
    have hread := steps_fold (by simpa using hrest) hstarts
    exact hread.read (Nat.succ_pos _) hrest hfuel fun hc => ih hc hend
  | @breaks quote s t ends n hne hends hstarts h ih =>
    have hread := steps_breaks hne hends (by simpa using hrest) hstarts
    have hpos : 0 < (written ends ++ List.replicate (n + 1) ' ').length := by
      rw [List.length_append, List.length_replicate]
      omega
    rw [← List.append_assoc] at hrest hfuel ⊢
    exact hread.read hpos hrest hfuel fun hc => ih hc hend
  | @split s t n hstarts h ih =>
    have hread := steps_split (by simpa using hrest) hstarts
    exact hread.read (Nat.succ_pos _) hrest hfuel fun hc => ih hc hend

/-- A text between quotes is read from what spells it. -/
theorem readQuoted_spells {s : List Char} (h : Spells quote s t)
    (hrest : c.rest = quote.char :: (t ++ quote.char :: tail))
    (hend : quote = .single → tail.head? ≠ some '\'') :
    readQuoted quote c = .ok (s, c.skip (t.length + 2)) := by
  have hnext : c.next.rest = t ++ quote.char :: tail := by rw [Cursor.rest_next, hrest]; rfl
  exact quotedText_spells h hnext hend (by rw [hrest]; simp; omega)

/-! ## The characters of a spelling -/

theorem forall_mem_hexNumeral {q : Char → Prop} (hdigits : ∀ n < 16, q (hexDigit .upper n))
    (width n : Nat) : ∀ d ∈ hexNumeral .upper width n, q d := by
  induction width generalizing n with
  | zero => simp [hexNumeral]
  | succ width ih =>
    intro d hd
    rw [hexNumeral, List.mem_append, List.mem_singleton] at hd
    rcases hd with hfront | rfl
    · exact ih _ d hfront
    · exact hdigits _ (Nat.mod_lt _ (by decide))

/-- The characters that escapes are made of. -/
theorem forall_mem_escapeOf {q : Char → Prop} (hslash : q '\\') (hletters : ∀ e ∈ escapeLetters, q e.2)
    (hwidths : q 'x' ∧ q 'u' ∧ q 'U') (hdigits : ∀ n < 16, q (hexDigit .upper n))
    (ch : Char) : ∀ d ∈ escapeOf ch, q d := by
  intro d hd
  rcases escapeOf_cases ch with ⟨letter, hletter, heq⟩ | ⟨letter, width, -, hwidth, -, heq⟩
  · obtain ⟨front, back, hlist, -⟩ := List.lookup_eq_some_iff.1 hletter
    have hq := hletters (ch, letter) (hlist ▸ List.mem_append_right front (List.mem_cons_self ..))
    rw [heq] at hd
    simp only [List.mem_cons, List.not_mem_nil, or_false] at hd
    rcases hd with rfl | rfl
    · exact hslash
    · exact hq
  · have hq : q letter := by
      unfold escapeWidth? at hwidth
      split at hwidth <;> cases hwidth
      exacts [hwidths.1, hwidths.2.1, hwidths.2.2]
    rw [heq] at hd
    simp only [List.mem_cons] at hd
    rcases hd with rfl | rfl | hd
    · exact hslash
    · exact hq
    · exact forall_mem_hexNumeral hdigits _ _ d hd

theorem isClean_escapeOf (ch : Char) : ∀ d ∈ escapeOf ch, isClean d = true :=
  forall_mem_escapeOf (by decide) (by decide) (by decide) (by decide) ch

theorem isInline_escapeOf (ch : Char) : ∀ d ∈ escapeOf ch, isInline d = true :=
  forall_mem_escapeOf (by decide) (by decide) (by decide) (by decide) ch

theorem isClean_of_isKeptEnd {d : Char} (h : Cursor.isKeptEnd d = true) : isClean d = true := by
  rcases isKeptEnd_cases h with rfl | rfl | rfl <;> decide

theorem isClean_replicate (n : Nat) : ∀ d ∈ List.replicate n ' ', isClean d = true := by
  intro d hd
  rw [List.eq_of_mem_replicate hd]
  decide

theorem isClean_written {ends : List Char} (hends : ∀ d ∈ ends, Cursor.isKeptEnd d = true) :
    ∀ d ∈ written ends, isClean d = true := by
  intro d hd
  rw [written] at hd
  split at hd
  · rcases List.mem_cons.1 hd with rfl | hd
    · decide
    · exact isClean_of_isKeptEnd (hends d hd)
  · exact isClean_of_isKeptEnd (hends d hd)

/-- A spelling has none of the characters that count in other ways. -/
theorem Spells.clean {s : List Char} (h : Spells quote s t) : ∀ d ∈ t, isClean d = true := by
  induction h with
  | nil => simp
  | char d _ _ hclean _ _ ih => exact List.forall_mem_cons.2 ⟨hclean, ih⟩
  | apostrophe _ ih => exact List.forall_mem_cons.2 ⟨by decide, List.forall_mem_cons.2 ⟨by decide, ih⟩⟩
  | escape ch _ ih => exact List.forall_mem_append.2 ⟨isClean_escapeOf ch, ih⟩
  | keptSpace _ ih => exact List.forall_mem_cons.2 ⟨by decide, List.forall_mem_cons.2 ⟨by decide, ih⟩⟩
  | spaces k _ _ ih => exact List.forall_mem_append.2 ⟨isClean_replicate _, ih⟩
  | fold n _ _ ih =>
    exact List.forall_mem_cons.2 ⟨by decide, List.forall_mem_append.2 ⟨isClean_replicate _, ih⟩⟩
  | breaks n _ hends _ _ ih =>
    exact List.forall_mem_append.2
      ⟨isClean_written hends, List.forall_mem_append.2 ⟨isClean_replicate _, ih⟩⟩
  | split n _ _ ih =>
    exact List.forall_mem_cons.2 ⟨by decide, List.forall_mem_cons.2
      ⟨by decide, List.forall_mem_append.2 ⟨isClean_replicate _, ih⟩⟩⟩

end RegistryTree.Yaml.Scalar
