import RegistryTree.Proofs.Yaml.Scalar.Quoting
import RegistryTree.Yaml.Scalar.Plain

/-!
# Texts without quotes

A text without quotes is written as its words, with the spaces between them; a single space may give
way to a line break and the indentation behind it. `Flows` relates a text to what is written for it.
A text that has the shape for it is so written, and what is so written is read as the text, up to
the colon behind a key or up to a line that is indented less.

> `putPlain_flows`: what is written without quotes.
> `readPlain_flows`: what is read of it.
-/

namespace RegistryTree.Yaml.Scalar

/-- A piece of a plain scalar without white space, which does not end with a colon. -/
structure IsWord (w : List Char) : Prop where
  ne_nil : w ≠ []
  inked : ∀ c ∈ w, isWhiteOrEnd c = false
  clean : ∀ c ∈ w, isClean c = true
  last : w.getLast? ≠ some ':'

/-- The second text is written for the first, with lines that go on at the given column. -/
inductive Flows (indent : Nat) : List Char → List Char → Prop
  | word {w : List Char} (hword : IsWord w) : Flows indent w w
  | spaces {w s t : List Char} (k : Nat) (hword : IsWord w) (hhash : s.head? ≠ some '#')
      (h : Flows indent s t) :
      Flows indent (w ++ (List.replicate (k + 1) ' ' ++ s)) (w ++ (List.replicate (k + 1) ' ' ++ t))
  | fold {w s t : List Char} (hword : IsWord w) (hhash : s.head? ≠ some '#')
      (h : Flows indent s t) :
      Flows indent (w ++ ' ' :: s) (w ++ '\n' :: (List.replicate indent ' ' ++ t))

variable {indent : Nat} {s t tail : List Char} {c : Cursor}

/-- A text and what is written for it begin with the same word. -/
theorem Flows.first (h : Flows indent s t) :
    ∃ w s' t', IsWord w ∧ s = w ++ s' ∧ t = w ++ t' ∧
      (∀ d ∈ s'.head?, isWhiteOrEnd d = true) ∧ ∀ d ∈ t'.head?, d = ' ' ∨ d = '\n' := by
  cases h with
  | word hword => exact ⟨s, [], [], hword, by simp, by simp, by simp, by simp⟩
  | spaces k hword hhash h =>
    refine ⟨_, _, _, hword, rfl, rfl, fun d hd => ?_, fun d hd => ?_⟩
    · cases hd
      rfl
    · cases hd
      exact Or.inl rfl
  | fold hword hhash h =>
    refine ⟨_, _, _, hword, rfl, rfl, fun d hd => ?_, fun d hd => ?_⟩
    · cases hd
      rfl
    · cases hd
      exact Or.inr rfl

theorem Flows.head (h : Flows indent s t) : ∃ d s' t', s = d :: s' ∧ t = d :: t' ∧
    isWhiteOrEnd d = false := by
  obtain ⟨w, s', t', hword, rfl, rfl, -, -⟩ := h.first
  cases w with
  | nil => exact absurd rfl hword.ne_nil
  | cons d w => exact ⟨d, _, _, rfl, rfl, hword.inked d (List.mem_cons_self ..)⟩

/-- What is written has none of the characters that count in other ways. -/
theorem Flows.clean (h : Flows indent s t) : ∀ d ∈ t, isClean d = true := by
  induction h with
  | word hword => exact hword.clean
  | spaces k hword _ _ ih =>
    exact List.forall_mem_append.2
      ⟨hword.clean, List.forall_mem_append.2 ⟨isClean_replicate _, ih⟩⟩
  | fold hword _ _ ih =>
    exact List.forall_mem_append.2 ⟨hword.clean, List.forall_mem_cons.2
      ⟨by decide, List.forall_mem_append.2 ⟨isClean_replicate _, ih⟩⟩⟩

/-! ## Reading -/

/-- Whether a plain scalar ends in front of the given text. -/
def EndsPlain (tail : List Char) : Prop :=
  endsPlain false (tail.headD endMark) (tail.tail.headD endMark) = true

theorem endsPlain_of_white {d : Char} {rest : List Char} (h : isWhiteOrEnd d = true) :
    EndsPlain (d :: rest) := by
  simp [EndsPlain, endsPlain, h]

/-- A word is read up to where a scalar ends. -/
theorem plainWord_append {w : List Char} (hinked : ∀ d ∈ w, isWhiteOrEnd d = false)
    (hlast : w.getLast? ≠ some ':') (hends : EndsPlain tail) : plainWord false (w ++ tail) = w := by
  induction w with
  | nil =>
    cases tail with
    | nil => rfl
    | cons d rest =>
      have hd : endsPlain false d (rest.headD endMark) = true := hends
      rw [List.nil_append, plainWord, if_pos hd]
  | cons d w ih =>
    obtain ⟨hd, hinked⟩ := List.forall_mem_cons.1 hinked
    have hgo : endsPlain false d ((w ++ tail).headD endMark) = false := by
      cases w with
      | nil =>
        have hcolon : d ≠ ':' := fun heq => hlast (by rw [heq]; rfl)
        simp [endsPlain, hd, hcolon]
      | cons e w =>
        have he := hinked e (List.mem_cons_self ..)
        simp [endsPlain, hd, he]
    have hlast' : w.getLast? ≠ some ':' := by
      cases w with
      | nil => simp
      | cons e w => simpa using hlast
    rw [List.cons_append, plainWord, hgo, if_neg Bool.false_ne_true, ih hinked hlast']

/-- Spaces inside a line. -/
theorem plainGap_spaces {k : Nat} {d : Char} (h : c.rest = List.replicate (k + 1) ' ' ++ d :: tail)
    (hd : isWhiteOrEnd d = false) :
    plainGap c = ⟨some (List.replicate (k + 1) ' '), false, c.skip (k + 1)⟩ := by
  have hspan : c.spanWhile (· = ' ') = (List.replicate (k + 1) ' ', c.skip (k + 1)) := by
    have hspace : d ≠ ' ' := fun heq => by rw [heq] at hd; cases hd
    have hspan := Cursor.spanWhile_of_rest (p := (· = ' ')) h
      (fun x hx => by simpa using List.eq_of_mem_replicate hx) (Or.inl (by simpa using hspace))
    rwa [List.length_replicate] at hspan
  have hrest := Cursor.rest_skip_append h
  rw [List.length_replicate] at hrest
  rw [plainGap, hspan]
  dsimp only
  rw [Cursor.peek_of_rest hrest, isBreak_of_not_white hd]
  rfl

/-- No white space. -/
theorem plainGap_none {d : Char} (h : c.rest = d :: tail) (hd : isWhiteOrEnd d = false) :
    plainGap c = ⟨none, false, c⟩ := by
  have hspace : d ≠ ' ' := fun heq => by rw [heq] at hd; cases hd
  have hspan : c.spanWhile (· = ' ') = ([], c) :=
    Cursor.spanWhile_of_rest (l := []) h (by simp) (Or.inl (by simpa using hspace))
  rw [plainGap, hspan]
  dsimp only
  rw [Cursor.peek_of_rest h, isBreak_of_not_white hd]
  rfl

theorem isBreak_head_of_starts (h : Starts tail) : isBreak (tail.headD endMark) = false := by
  cases tail with
  | nil => decide
  | cons d rest => exact isBreak_of_not_white (h d rfl)

theorem plainBreaks_indentation {fuel k : Nat} (h : c.rest = List.replicate k ' ' ++ tail)
    (hstarts : Starts tail) (hfuel : k < fuel) : plainBreaks fuel c = (some [], c.skip k) := by
  induction k generalizing c fuel with
  | zero =>
    obtain ⟨fuel, rfl⟩ : ∃ m, fuel = m + 1 := ⟨fuel - 1, by omega⟩
    have hpeek : c.peek = tail.headD endMark := by rw [Cursor.peek, h]; rfl
    have hspace : tail.headD endMark ≠ ' ' := by
      cases tail with
      | nil => decide
      | cons d rest =>
        intro heq
        have hd := hstarts d rfl
        rw [show d = ' ' from heq] at hd
        cases hd
    rw [plainBreaks, hpeek, if_neg hspace, isBreak_head_of_starts hstarts]
    rfl
  | succ k ih =>
    obtain ⟨fuel, rfl⟩ : ∃ m, fuel = m + 1 := ⟨fuel - 1, by omega⟩
    have hnext : c.next.rest = List.replicate k ' ' ++ tail := by rw [Cursor.rest_next, h]; rfl
    rw [plainBreaks, if_pos (Cursor.peek_of_rest h), ih hnext (by omega)]
    rfl

/-- A line end with the indentation of the next line counts as a space, unless a mark between
documents stands there. -/
theorem plainGap_feed {k : Nat} (h : c.rest = '\n' :: (List.replicate k ' ' ++ tail))
    (hstarts : Starts tail) :
    plainGap c =
      if c.next.atDocumentMark then ⟨none, true, c.next⟩ else ⟨some [' '], true, c.skip (1 + k)⟩ := by
  have hspan : c.spanWhile (· = ' ') = ([], c) :=
    Cursor.spanWhile_of_rest (l := []) h (by simp) (Or.inl (by simp))
  have hnext : c.next.rest = List.replicate k ' ' ++ tail := by rw [Cursor.rest_next, h]; rfl
  rw [plainGap, hspan]
  dsimp only
  rw [Cursor.peek_of_rest h, if_pos (by decide), Cursor.lineBreak_of_break h (by decide)]
  dsimp only
  split
  next => rfl
  next =>
    rw [plainBreaks_indentation hnext hstarts (by
      rw [hnext, List.length_append, List.length_replicate]
      omega), Cursor.skip_add]
    rfl

/-- No mark between documents stands on an indented line. -/
theorem atDocumentMark_indented {k : Nat} (hk : 0 < k)
    (h : c.rest = '\n' :: (List.replicate k ' ' ++ tail)) : c.next.atDocumentMark = false := by
  obtain ⟨k, rfl⟩ : ∃ m, k = m + 1 := ⟨k - 1, by omega⟩
  have hnext : c.next.rest = ' ' :: (List.replicate k ' ' ++ tail) := by
    rw [Cursor.rest_next, h]
    rfl
  exact Cursor.atDocumentMark_of_head hnext (by decide) (by decide)

/-- A plain scalar of a collection stops in front of a text, when its further lines must be indented
at least by `least`. Behind it `n` more characters are passed. -/
structure Stops (least : Int) (tail : List Char) (broken : Bool) (n : Nat) : Prop where
  ends : EndsPlain tail
  gap : ∀ c : Cursor, c.rest = tail → (plainGap c).broken = broken ∧ (plainGap c).cursor = c.skip n ∧
    ((plainGap c).text = none ∨ ((plainGap c).cursor.column : Int) < least)

/-- A key stops in front of its colon. -/
theorem stops_colon {least : Int} (h : isWhiteOrEnd (tail.headD endMark) = true) :
    Stops least (':' :: tail) false 0 where
  ends := by
    show endsPlain false ':' (tail.headD endMark) = true
    rw [endsPlain, h]
    rfl
  gap c hc := by
    rw [plainGap_none hc (by decide)]
    exact ⟨rfl, rfl, Or.inl rfl⟩

/-- A scalar stops at the end of a line when the next line is indented less. -/
theorem stops_feed {least : Int} {k : Nat} (hstarts : Starts tail) (hk : (k : Int) < least) :
    Stops least ('\n' :: (List.replicate k ' ' ++ tail)) true (1 + k) where
  ends := endsPlain_of_white (by decide)
  gap c hc := by
    have hcolumn : (c.skip (1 + k)).column = k := by rw [Cursor.skip_feed hc]
    rw [plainGap_feed hc hstarts]
    split
    next hmark =>
      -- no mark stands behind indentation
      cases k with
      | zero => exact ⟨rfl, rfl, Or.inl rfl⟩
      | succ k =>
        rw [atDocumentMark_indented (Nat.succ_pos k) hc] at hmark
        cases hmark
    next => exact ⟨rfl, rfl, Or.inr (by rw [hcolumn]; exact hk)⟩

/-- A scalar stops in front of a mark that ends the document. -/
theorem stops_mark {least : Int} : Stops least ('\n' :: "...\n".toList) true 1 where
  ends := endsPlain_of_white (by decide)
  gap c hc := by
    have hnext : c.next.rest = "...\n".toList := by rw [Cursor.rest_next, hc]; rfl
    have hmark : c.next.atDocumentMark = true := by
      rw [Cursor.atDocumentMark, Cursor.startsWith, Cursor.startsWith, Cursor.peekAt, hnext]
      decide
    rw [plainGap_feed (k := 0) hc (fun d hd => by cases hd; decide), if_pos hmark]
    exact ⟨rfl, rfl, Or.inl rfl⟩

/-- The last word of a scalar. -/
theorem plainText_last {least : Int} {gap w : List Char} {broken : Bool} (fuel : Nat)
    (hword : IsWord w) (hread : plainWord false c.rest = w) (hhash : c.peek ≠ '#')
    (hstops : (plainGap (c.skip w.length)).text = none ∨
      ((plainGap (c.skip w.length)).cursor.column : Int) < least) :
    plainText least false (fuel + 1) gap broken c =
      ⟨gap ++ w, (plainGap (c.skip w.length)).broken, (plainGap (c.skip w.length)).cursor⟩ := by
  obtain ⟨d, rest, rfl⟩ := List.exists_cons_of_ne_nil hword.ne_nil
  rw [plainText, if_neg hhash, hread]
  dsimp only
  split
  next next hnext =>
    have hcolumn := hstops.resolve_left (by rw [hnext]; simp)
    rw [if_pos (Or.inr ⟨by simp, hcolumn⟩)]
  next => rfl

/-- A word of a scalar, with more words behind it. -/
theorem plainText_more {least : Int} {gap w next s : List Char} {broken broken' b : Bool}
    {fuel : Nat} {c' c'' : Cursor} (hword : IsWord w) (hread : plainWord false c.rest = w)
    (hhash : c.peek ≠ '#') (hgap : plainGap (c.skip w.length) = ⟨some next, b, c'⟩)
    (hhash' : c'.peek ≠ '#') (hcolumn : least ≤ c'.column)
    (hmore : plainText least false fuel next b c' = ⟨next ++ s, broken', c''⟩) :
    plainText least false (fuel + 1) gap broken c = ⟨gap ++ (w ++ (next ++ s)), broken', c''⟩ := by
  obtain ⟨d, rest, rfl⟩ := List.exists_cons_of_ne_nil hword.ne_nil
  have hgo : ¬(c'.peek = '#' ∨ ((!false) = true ∧ (c'.column : Int) < least)) := by
    simp only [hhash', false_or, not_and]
    omega
  rw [plainText, if_neg hhash, hread]
  dsimp only
  rw [hgap]
  dsimp only
  rw [if_neg hgo, hmore]
  simp

theorem IsWord.inline {w : List Char} (h : IsWord w) : ∀ d ∈ w, isInline d = true := fun d hd =>
  isInline_of_isClean (h.clean d hd) (by
    have hbreak := isBreak_of_not_white (h.inked d hd)
    simp only [isBreak, Bool.or_eq_false_iff] at hbreak
    exact hbreak.2)

theorem peek_of_flows (h : Flows indent s t) (hrest : c.rest = t ++ tail) :
    s.head? = some c.peek := by
  obtain ⟨d, s', t', rfl, rfl, -⟩ := h.head
  rw [Cursor.peek_of_rest hrest]
  rfl

theorem peek_ne_of_flows (h : Flows indent s t) (hrest : c.rest = t ++ tail)
    (hhash : s.head? ≠ some '#') : c.peek ≠ '#' := by
  intro heq
  exact hhash (by rw [peek_of_flows h hrest, heq])

/-- The step over a word and the gap behind it, which is read as `next`. -/
theorem plainText_step {least : Int} {gap w g next : List Char} {broken broken' b : Bool}
    {fuel n : Nat} (hword : IsWord w) (h : Flows indent s t) (hrest : c.rest = w ++ (g ++ (t ++ tail)))
    (hends : EndsPlain (g ++ (t ++ tail))) (hfirst : c.peek ≠ '#') (hhash : s.head? ≠ some '#')
    (hgap : plainGap (c.skip w.length) = ⟨some next, b, (c.skip w.length).skip g.length⟩)
    (hcolumn : least ≤ ((c.skip w.length).skip g.length).column)
    (hmore : plainText least false fuel next b ((c.skip w.length).skip g.length) =
      ⟨next ++ s, broken', ((c.skip w.length).skip g.length).skip (t.length + n)⟩) :
    plainText least false (fuel + 1) gap broken c =
      ⟨gap ++ (w ++ (next ++ s)), broken', c.skip ((w ++ (g ++ t)).length + n)⟩ := by
  have hread : plainWord false c.rest = w := by
    rw [hrest, plainWord_append hword.inked hword.last hends]
  have hbehind := Cursor.rest_skip_append (Cursor.rest_skip_append hrest)
  rw [plainText_more hword hread hfirst hgap (peek_ne_of_flows h hbehind hhash) hcolumn hmore,
    ← Cursor.skip_add, ← Cursor.skip_add]
  simp only [List.length_append, Nat.add_assoc]

/-- What is written for a text is read as the text, up to where the scalar stops. -/
theorem plainText_flows {least : Int} {gap : List Char} {broken broken' : Bool} {fuel n : Nat}
    (h : Flows indent s t) (hindent : 0 < indent) (hleast : least ≤ indent) (hstops : Stops least tail broken' n)
    (hrest : c.rest = t ++ tail) (hcolumn : least ≤ c.column + 1) (hhash : s.head? ≠ some '#')
    (hfuel : t.length < fuel) :
    plainText least false fuel gap broken c = ⟨gap ++ s, broken', c.skip (t.length + n)⟩ := by
  induction h generalizing gap broken fuel c with
  | @word w hword =>
    obtain ⟨fuel, rfl⟩ : ∃ m, fuel = m + 1 := ⟨fuel - 1, by omega⟩
    have hread : plainWord false c.rest = w := by
      rw [hrest, plainWord_append hword.inked hword.last hstops.ends]
    obtain ⟨hbroken, hcursor, htext⟩ := hstops.gap _ (Cursor.rest_skip_append hrest)
    have hfirst := peek_ne_of_flows ((.word hword : Flows indent w w)) hrest hhash
    rw [plainText_last fuel hword hread hfirst htext, hbroken, hcursor, Cursor.skip_add]
  -- Spaces within the line stay as they are.
  | @spaces w s t k hword hhash' h ih =>
    obtain ⟨fuel, rfl⟩ : ∃ m, fuel = m + 1 := ⟨fuel - 1, by omega⟩
    have hfirst := peek_ne_of_flows (.spaces k hword hhash' h) hrest hhash
    rw [List.append_assoc, List.append_assoc] at hrest
    have hbehind := Cursor.rest_skip_append hrest
    have hgap : plainGap (c.skip w.length) = ⟨some (List.replicate (k + 1) ' '), false,
        (c.skip w.length).skip (List.replicate (k + 1) ' ').length⟩ := by
      obtain ⟨d, s', t', -, rfl, hd⟩ := h.head
      rw [List.length_replicate]
      exact plainGap_spaces hbehind hd
    have hplace : least ≤ ((c.skip w.length).skip (List.replicate (k + 1) ' ').length).column := by
      rw [Cursor.skip_inline hbehind fun d hd => by
        rw [List.eq_of_mem_replicate hd]
        exact isInline_space, Cursor.skip_inline hrest hword.inline]
      simp only [List.length_replicate]
      omega
    exact plainText_step hword h hrest (endsPlain_of_white (d := ' ') rfl) hfirst hhash' hgap hplace
      (ih (Cursor.rest_skip_append hbehind) (by omega) hhash' (by simp at hfuel; omega))
  -- A single line feed with the indentation behind it comes back as the one space that it was.
  | @fold w s t hword hhash' h ih =>
    obtain ⟨fuel, rfl⟩ : ∃ m, fuel = m + 1 := ⟨fuel - 1, by omega⟩
    have hfirst := peek_ne_of_flows (.fold hword hhash' h) hrest hhash
    rw [List.append_assoc, List.cons_append, List.append_assoc] at hrest
    have hbehind := Cursor.rest_skip_append hrest
    have hlength : ('\n' :: List.replicate indent ' ').length = 1 + indent := by
      rw [List.length_cons, List.length_replicate, Nat.add_comm]
    have hgap : plainGap (c.skip w.length) =
        ⟨some [' '], true, (c.skip w.length).skip ('\n' :: List.replicate indent ' ').length⟩ := by
      obtain ⟨d, s', t', -, rfl, hd⟩ := h.head
      rw [plainGap_feed hbehind (fun e he => by cases he; exact hd),
        atDocumentMark_indented hindent hbehind, hlength]
      rfl
    have hplace : least ≤ ((c.skip w.length).skip
        ('\n' :: List.replicate indent ' ').length).column := by
      rw [hlength, Cursor.skip_feed hbehind]
      exact hleast
    have hmore : ((c.skip w.length).skip ('\n' :: List.replicate indent ' ').length).rest =
        t ++ tail := by rw [hlength, Cursor.skip_feed hbehind]
    exact plainText_step hword h hrest (endsPlain_of_white rfl) hfirst hhash' hgap hplace
      (ih hmore (by omega) hhash' (by simp at hfuel; omega))

/-- A text without quotes is read from what is written for it. -/
theorem readPlain_flows {least : Int} {broken : Bool} {n : Nat} (h : Flows indent s t)
    (hindent : 0 < indent) (hleast : least ≤ indent) (hstops : Stops least tail broken n)
    (hrest : c.rest = t ++ tail) (hcolumn : least ≤ c.column + 1) (hhash : s.head? ≠ some '#') :
    readPlain least false c = ⟨s, broken, c.skip (t.length + n)⟩ :=
  plainText_flows h hindent hleast hstops hrest hcolumn hhash (by
    rw [hrest, List.length_append]
    omega)

/-! ## Writing -/

/-- The features of a text that allow it to go on without quotes, behind a character. -/
def Tidy (before : Char) (s : List Char) : Prop := (shapeFrom before s).plain = true

theorem Tidy.of_cons {before d : Char} (h : Tidy before (d :: s)) : Tidy d s := by
  simp only [Tidy, Shape.plain, shapeFrom, Bool.and_eq_true, Bool.not_eq_true',
    Bool.or_eq_false_iff] at h ⊢
  exact ⟨⟨⟨⟨⟨h.1.1.1.1.1.1, h.1.1.1.1.2.1⟩, h.1.1.1.2.1⟩, h.1.1.2⟩, h.1.2.1⟩, h.2.1⟩

theorem Tidy.head {before d : Char} (h : Tidy before (d :: s)) :
    isWritable d = true ∧ isLineEnd d = false ∧
      looksLikeIndicator before d (s.headD endMark) = false := by
  simp only [Tidy, Shape.plain, shapeFrom, Bool.and_eq_true, Bool.not_eq_true',
    Bool.or_eq_false_iff, Bool.not_eq_false'] at h
  exact ⟨h.1.1.1.2.2, h.1.1.1.1.2.2, h.1.1.1.1.1.2⟩

theorem Tidy.nil {before : Char} (h : Tidy before []) : before ≠ ' ' := by
  intro heq
  subst heq
  exact absurd h (by simp [Tidy, Shape.plain, shapeFrom])

/-- What is written without quotes for a text behind the word `w` and some spaces. -/
theorem putPlain_flows (split : Bool) (indent : Nat) {k : Nat} {before : Char} {w : List Char}
    {p : Sheet} (htidy : Tidy before s) (hline : p.indenting = false) (hspaces : 0 < k → before = ' ')
    (hne : w ≠ []) (hinked : ∀ d ∈ w, isWhiteOrEnd d = false) (hclean : ∀ d ∈ w, isClean d = true)
    (hlast : w.getLast? = some ':' → k = 0 ∧ isWhiteOrEnd (s.headD endMark) = false) :
    ∃ t, (putPlain split indent k s p).text = p.text ++ t ∧
      Flows indent (w ++ (List.replicate k ' ' ++ s)) (w ++ t) := by
  induction s generalizing k before w p with
  | nil =>
    have hk : k = 0 := Nat.eq_zero_of_not_pos fun hk => htidy.nil (hspaces hk)
    subst hk
    have hword : IsWord w := ⟨hne, hinked, hclean, fun h => absurd (hlast h).2 (by decide)⟩
    exact ⟨[], by simp [putPlain, Sheet.text_put], by simpa using Flows.word hword⟩
  | cons d s ih =>
    obtain ⟨hwritable, hend, hindicator⟩ := htidy.head
    rw [putPlain]
    by_cases hspace : d = ' '
    · subst hspace
      rw [if_pos rfl]
      have hmore := ih (k := k + 1) htidy.of_cons hline (fun _ => rfl) hne hinked hclean
        (fun h => absurd (hlast h).2 (by simp [isWhiteOrEnd, isSpaceOrEnd]))
      simpa [List.replicate_succ'] using hmore
    · rw [if_neg hspace]
      dsimp only
      have hink := not_white_of_isWritable hwritable hspace hend
      have hclean' := isClean_of_isWritable hwritable
      -- a colon at the end of a word would be an indicator
      have hcolon : ∀ u : List Char, (u ++ [d]).getLast? = some ':' →
          (0 : Nat) = 0 ∧ isWhiteOrEnd (s.headD endMark) = false := by
        intro u hu
        simp only [List.getLast?_append, List.getLast?_singleton, Option.some_or,
          Option.some.injEq] at hu
        subst hu
        simp only [looksLikeIndicator, Bool.or_eq_false_iff] at hindicator
        simpa using hindicator.1
      cases k with
      | zero =>
        obtain ⟨t, htext, hflows⟩ := ih (k := 0) (w := w ++ [d])
          (p := (p.put []).put [d]) htidy.of_cons hline (by simp) (by simp)
          (List.forall_mem_append.2 ⟨hinked, by simpa using hink⟩)
          (List.forall_mem_append.2 ⟨hclean, by simpa using hclean'⟩) (hcolon w)
        refine ⟨d :: t, ?_, by simpa using hflows⟩
        rw [if_neg (by simp), List.replicate_zero, htext, Sheet.text_put, Sheet.text_put]
        simp
      | succ k =>
        have hword : IsWord w := ⟨hne, hinked, hclean, fun h => absurd (hlast h).1 (by simp)⟩
        have hhash : d ≠ '#' := by
          intro heq
          subst heq
          rw [hspaces (Nat.succ_pos k)] at hindicator
          exact absurd hindicator (by simp [looksLikeIndicator, isWhiteOrEnd, isSpaceOrEnd])
        split
        next hfold =>
          simp only [Bool.and_eq_true, decide_eq_true_eq] at hfold
          obtain rfl : k = 0 := by omega
          obtain ⟨t, htext, hflows⟩ := ih (k := 0) (w := [d])
            (p := ((p.toColumn indent).mark false false).put [d]) htidy.of_cons rfl (by simp)
            (by simp) (by simpa using hink) (by simpa using hclean') (hcolon [])
          refine ⟨_, ?_, .fold hword (by simpa using hhash) hflows⟩
          rw [htext, Sheet.text_put, Sheet.text_mark, Sheet.toColumn_of_content hline,
            Sheet.text_newLine]
          simp
        next =>
          obtain ⟨t, htext, hflows⟩ := ih (k := 0) (w := [d])
            (p := (p.put (List.replicate (k + 1) ' ')).put [d]) htidy.of_cons hline (by simp)
            (by simp) (by simpa using hink) (by simpa using hclean') (hcolon [])
          refine ⟨_, ?_, .spaces k hword (by simpa using hhash) hflows⟩
          rw [htext, Sheet.text_put, Sheet.text_put]
          simp

/-- A text without quotes that is not broken is written as it is. -/
theorem putPlain_line {k : Nat} {p : Sheet} :
    (putPlain false indent k s p).text = p.text ++ (List.replicate k ' ' ++ s) := by
  induction s generalizing k p with
  | nil => simp [putPlain, Sheet.text_put]
  | cons d s ih =>
    rw [putPlain]
    split
    next hspace => simp [ih, hspace, List.replicate_succ']
    next => simp [ih, Sheet.text_put]

/-! ## Texts that can be written without quotes -/

/-- The features of the first character of a text that is written without quotes. -/
structure PlainStart (s : List Char) : Prop where
  indicators : ∀ d ∈ s.head?, startIndicators.contains d = false
  marked : ∀ d ∈ s.head?, (d = '?' ∨ d = ':' ∨ d = '-') → isWhiteOrEnd (s.tail.headD endMark) = false
  mark : ['-', '-', '-'].isPrefixOf s = false ∧ ['.', '.', '.'].isPrefixOf s = false

theorem plainStart_of_plain (h : (Shape.ofText s).plain = true) : PlainStart s := by
  cases s with
  | nil => exact ⟨by simp, by simp, by decide⟩
  | cons d s =>
    simp only [Shape.ofText, Shape.plain, startsLikeIndicator, Bool.and_eq_true, Bool.not_eq_true',
      Bool.or_eq_false_iff, Bool.and_eq_false_iff] at h
    obtain ⟨⟨⟨⟨⟨⟨⟨⟨-, hlist, hmarked⟩, hdash⟩, hdots⟩, -⟩, -⟩, -⟩, -⟩, -⟩ := h
    have hmarks : "---".toList = ['-', '-', '-'] ∧ "...".toList = ['.', '.', '.'] := by decide
    rw [hmarks.1] at hdash
    rw [hmarks.2] at hdots
    refine ⟨fun e he => by cases he; exact hlist, fun e he hmark => ?_, hdash, hdots⟩
    cases he
    rcases hmarked with hother | hink
    · rcases hmark with rfl | rfl | rfl <;> simp at hother
    · exact hink

theorem plain_cons {d : Char} (h : (Shape.ofText (d :: s)).plain = true) :
    Tidy d s ∧ isWritable d = true ∧ isLineEnd d = false ∧ d ≠ ' ' := by
  simp only [Shape.ofText, Shape.plain, Bool.and_eq_true, Bool.not_eq_true', Bool.or_eq_false_iff,
    decide_eq_false_iff_not, Bool.not_eq_false'] at h
  obtain ⟨⟨⟨⟨⟨hind, hbreaks⟩, hspecial⟩, hragged⟩, hbreakSpace⟩, hspaceBreak⟩ := h
  refine ⟨?_, hspecial.2, hbreaks.2, hragged.1.2⟩
  simp [Tidy, Shape.plain, hind, hbreaks.1, hspecial.1, hragged.1.1, hbreakSpace, hspaceBreak]

/-- A text that can be written without quotes is so written. -/
theorem putPlain_spells (split : Bool) (indent : Nat) {p : Sheet} (h : (Shape.ofText s).plain = true)
    (hne : s ≠ []) (hline : p.indenting = false) :
    ∃ t, (putPlain split indent 0 s p).text = p.text ++ t ∧ Flows indent s t := by
  cases s with
  | nil => exact absurd rfl hne
  | cons d s =>
    obtain ⟨htidy, hwritable, hend, hspace⟩ := plain_cons h
    have hstart := plainStart_of_plain h
    have hink := not_white_of_isWritable hwritable hspace hend
    obtain ⟨t, htext, hflows⟩ := putPlain_flows split indent (k := 0)
      (w := [d]) (p := (p.put []).put [d]) htidy hline (by simp) (by simp) (by simpa using hink)
      (by simpa using isClean_of_isWritable hwritable) (fun hlast => by
        refine ⟨rfl, ?_⟩
        simp only [List.getLast?_singleton, Option.some.injEq] at hlast
        exact hstart.marked d rfl (Or.inr (Or.inl hlast)))
    refine ⟨d :: t, ?_, by simpa using hflows⟩
    rw [putPlain, if_neg hspace, if_neg (by simp), List.replicate_zero, htext, Sheet.text_put,
      Sheet.text_put]
    simp

end RegistryTree.Yaml.Scalar
