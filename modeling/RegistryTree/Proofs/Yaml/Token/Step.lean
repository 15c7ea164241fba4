import RegistryTree.Proofs.Yaml.Scalar.Place
import RegistryTree.Proofs.Yaml.Token.Lexer

/-!
# Steps over tokens

What the search for tokens does at each piece of a text that was written: the indicators of block
collections, scalars, keys with their colon, and empty brackets.

> `yields_dash`, `yields_question`, `yields_colon`: the indicators that stand apart.
> `yields_key`: a key and the colon behind it.
> `yields_scalar`, `yields_empty`: scalars and empty brackets.
-/

namespace RegistryTree.Yaml.Found

open Lexer Scalar

variable {f : Found} {c c' : Cursor} {keyAllowed : Bool} {k : Option KeyCandidate} {t : Token}
  {tail : List Char} {found : List Token} {column : Nat} {s : Lexer}

/-! ## Indicators -/

theorem openBlock_lexer : (f.lexer c keyAllowed k).openBlock t f.tokens.length column =
    (f.openAt t column).lexer c keyAllowed k := by
  rw [openBlock, openAt]
  show (if f.indent < column then _ else _) = _
  split
  · rw [insertToken]
    show (Lexer.mk c (insertBehind t (f.tokens.length - f.tokens.length) f.tokens) ..) = _
    rw [Nat.sub_self]
    rfl
  · rfl

theorem takeToken_dash (hpeek : s.cursor.peek = '-')
    (hset : isWhiteOrEnd (s.cursor.peekAt 1) = true) (hmark : s.cursor.atDocumentMark = false) :
    s.takeToken = s.takeBlockEntry := by
  simp [takeToken, hpeek, hset, hmark]

theorem takeToken_question (hpeek : s.cursor.peek = '?')
    (hset : isWhiteOrEnd (s.cursor.peekAt 1) = true) : s.takeToken = s.takeKey := by
  simp [takeToken, hpeek, hset]

theorem takeToken_colon (hpeek : s.cursor.peek = ':')
    (hset : isWhiteOrEnd (s.cursor.peekAt 1) = true) : s.takeToken = s.takeValue := by
  simp [takeToken, hpeek, hset]

theorem takeBlockEntry_lexer : (f.lexer c true none).takeBlockEntry =
    .ok (((f.openAt .blockSequenceStart c.column).pushAll [.blockEntry]).lexer c.next true none) := by
  rw [takeBlockEntry]
  show (do let s ← ((f.lexer c true none).openBlock .blockSequenceStart f.tokens.length
    c.column).dropCandidate; _) = _
  rw [openBlock_lexer]
  rfl

theorem takeKey_lexer : (f.lexer c true none).takeKey =
    .ok (((f.openAt .blockMappingStart c.column).pushAll [.key]).lexer c.next true none) := by
  rw [takeKey]
  show (do let s ← ((f.lexer c true none).openBlock .blockMappingStart f.tokens.length
    c.column).dropCandidate; _) = _
  rw [openBlock_lexer]
  rfl

theorem takeValue_lexer : (f.lexer c true none).takeValue =
    .ok (((f.openAt .blockMappingStart c.column).pushAll [.value]).lexer c.next true none) := by
  rw [takeValue]
  show (let s := (f.lexer c true none).openBlock .blockMappingStart f.tokens.length c.column
    (Except.ok ({ s with keyAllowed := !s.inFlow }.take .value 1) : Except Fault Lexer)) = _
  rw [openBlock_lexer]
  rfl

/-- What stands behind an indicator that is set apart. -/
structure Indicates (c : Cursor) (d : Char) (tail : List Char) : Prop where
  rest : c.rest = d :: tail
  set : isWhiteOrEnd (tail.headD endMark) = true
  ending : c.ending = none

theorem Indicates.peekAt {d : Char} (h : Indicates c d tail) : isWhiteOrEnd (c.peekAt 1) = true := by
  rw [Cursor.peekAt, h.rest]
  exact h.set

/-- The step over an indicator. -/
theorem yields_indicator {d : Char} {g : Found} (h : Indicates c d tail) (hfresh : Fresh c.rest)
    (hindent : f.indent ≤ c.column)
    (htake : (f.lexer c true none).takeToken = .ok (g.lexer c.next true none))
    (hyields : Yields (g.lexer c.next true none) found) : Yields (f.lexer c true none) found := by
  exact yields_of_skip [d] h.rest (by simp) h.ending rfl rfl rfl
    (arrive_fresh hfresh hindent) htake (by simp [lexer]) hyields

/-- The dash in front of an item. -/
theorem yields_dash (h : Indicates c '-' tail) (hindent : f.indent ≤ c.column)
    (hyields : Yields
      (((f.openAt .blockSequenceStart c.column).pushAll [.blockEntry]).lexer c.next true none) found) :
    Yields (f.lexer c true none) found := by
  -- Three dashes would begin a document, but white space stands behind this one.
  have hmark : c.atDocumentMark = false := by
    have hdash : c.startsWith ['-', '-', '-'] = false := by
      rw [Cursor.startsWith, h.rest]
      cases hrest : tail with
      | nil => rfl
      | cons d rest =>
        have hset := h.set
        rw [hrest] at hset
        have hne : d ≠ '-' := by
          intro heq
          rw [heq] at hset
          exact absurd hset (by simp [isWhiteOrEnd, isSpaceOrEnd, isBreakOrEnd, isBreak, isLineEnd,
            endMark])
        simp [List.isPrefixOf, hne.symm]
    have hdot : c.startsWith ['.', '.', '.'] = false := by
      rw [Cursor.startsWith, h.rest]
      rfl
    rw [Cursor.atDocumentMark, hdash, hdot]
    rfl
  refine yields_indicator h ?_ hindent ?_ hyields
  · rw [h.rest]
    exact fresh_cons (by decide) _
  · rw [takeToken_dash (Cursor.peek_of_rest h.rest) h.peekAt hmark, takeBlockEntry_lexer]

/-- The question mark in front of a key. -/
theorem yields_question (h : Indicates c '?' tail) (hindent : f.indent ≤ c.column)
    (hyields : Yields
      (((f.openAt .blockMappingStart c.column).pushAll [.key]).lexer c.next true none) found) :
    Yields (f.lexer c true none) found := by
  refine yields_indicator h ?_ hindent ?_ hyields
  · rw [h.rest]
    exact fresh_cons (by decide) _
  · rw [takeToken_question (Cursor.peek_of_rest h.rest) h.peekAt, takeKey_lexer]

/-- The colon in front of a value whose key was announced. -/
theorem yields_colon (h : Indicates c ':' tail) (hindent : f.indent ≤ c.column)
    (hyields : Yields
      (((f.openAt .blockMappingStart c.column).pushAll [.value]).lexer c.next true none) found) :
    Yields (f.lexer c true none) found := by
  refine yields_indicator h ?_ hindent ?_ hyields
  · rw [h.rest]
    exact fresh_cons (by decide) _
  · rw [takeToken_colon (Cursor.peek_of_rest h.rest) h.peekAt, takeValue_lexer]

/-! ## Scalars -/

/-- The candidate for a key that a token at the cursor is. -/
def candidate (f : Found) (c : Cursor) : KeyCandidate where
  number := f.tokens.length
  required := f.indent = c.column
  index := c.index
  line := c.line
  column := c.column

/-- The candidate behind a token at the cursor. -/
def saved (f : Found) (c : Cursor) (keyAllowed : Bool) : Option KeyCandidate :=
  if keyAllowed then some (f.candidate c) else none

theorem saveCandidate_lexer :
    (f.lexer c keyAllowed none).saveCandidate = .ok (f.lexer c keyAllowed (f.saved c keyAllowed)) := by
  cases keyAllowed <;> rfl

/-- A scalar is read at the cursor. -/
theorem takeContent_lexer {read : Lexer → Except Fault (Token × Bool × Cursor)} {broken : Bool}
    (h : ∀ k, read (f.lexer c keyAllowed k) = .ok (t, broken, c')) :
    (f.lexer c keyAllowed none).takeContent read =
      .ok ((f.pushAll [t]).lexer c' broken (f.saved c keyAllowed)) := by
  rw [takeContent, saveCandidate_lexer]
  exact bind_eq_ok_iff.2 ⟨_, rfl, bind_eq_ok_iff.2 ⟨_, h _, rfl⟩⟩

/-- The step over a scalar. -/
theorem yields_content {read : Lexer → Except Fault (Token × Bool × Cursor)} {broken : Bool}
    (htake : (f.lexer c keyAllowed none).takeToken = (f.lexer c keyAllowed none).takeContent read)
    (hread : ∀ k, read (f.lexer c keyAllowed k) = .ok (t, broken, c')) (hfresh : Fresh c.rest)
    (hindent : f.indent ≤ c.column) (hending : c'.ending = none)
    (hlength : c'.rest.length < c.rest.length)
    (hyields : Yields ((f.pushAll [t]).lexer c' broken (f.saved c keyAllowed)) found) :
    Yields (f.lexer c keyAllowed none) found := by
  refine yields_of_token (arrive_fresh hfresh hindent) ?_
    (htake.trans (takeContent_lexer hread)) hending (by simp [lexer]) hlength hyields
  intro hnil
  change c.rest = [] at hnil
  rw [hnil] at hlength
  cases hlength

theorem takeToken_single (hpeek : s.cursor.peek = '\'') :
    s.takeToken = s.takeContent (readQuotedToken .single) := by
  simp [takeToken, hpeek]

theorem takeToken_double (hpeek : s.cursor.peek = '"') :
    s.takeToken = s.takeContent (readQuotedToken .double) := by
  simp [takeToken, hpeek]

/-- The characters that are indicators at the start of a text, one by one. -/
theorem ne_of_not_indicator {d : Char} (h : startIndicators.contains d = false) :
    d ∉ ['#', ',', '[', ']', '\x7b', '\x7d', '&', '*', '!', '|', '>', '\'', '"', '%', '@',
      '\u0060'] := by
  have hlist : startIndicators = ['#', ',', '[', ']', '\x7b', '\x7d', '&', '*', '!', '|', '>', '\'',
    '"', '%', '@', '\u0060'] := by decide
  rw [← hlist]
  simpa using h

theorem beginsPlain_of_start {d after : Char} (hindicators : startIndicators.contains d = false)
    (hwhite : isWhiteOrEnd d = false)
    (hmarked : (d = '?' ∨ d = ':' ∨ d = '-') → isWhiteOrEnd after = false) :
    beginsPlain false d after = true := by
  by_cases hspecial : d = '?' ∨ d = ':' ∨ d = '-'
  · have hset := hmarked hspecial
    rcases hspecial with rfl | rfl | rfl <;> simp [beginsPlain, hset]
  · have hlist : "-?:,[]\x7b\x7d#&*!|>'\"%@\u0060".toList =
        ['-', '?', ':', ',', '[', ']', '\x7b', '\x7d', '#', '&', '*', '!', '|', '>', '\'', '"', '%',
          '@', '\u0060'] := by decide
    have hne := ne_of_not_indicator hindicators
    simp only [List.mem_cons, List.not_mem_nil, or_false, not_or] at hne hspecial
    have hother : "-?:,[]\x7b\x7d#&*!|>'\"%@\u0060".toList.contains d = false := by
      rw [hlist]
      simp [hne, hspecial]
    rw [beginsPlain, hwhite]
    simp only [Bool.false_or, Bool.or_eq_true, Bool.not_eq_true']
    exact Or.inl hother

/-- What tells the start of a plain scalar outside of brackets from all else. -/
theorem takeToken_plain {d : Char} (hd : s.cursor.peek = d) (hflow : s.inFlow = false)
    (hindicators : startIndicators.contains d = false) (hwhite : isWhiteOrEnd d = false)
    (hmarked : (d = '?' ∨ d = ':' ∨ d = '-') → isWhiteOrEnd (s.cursor.peekAt 1) = false)
    (hmark : s.cursor.atDocumentMark = false) : s.takeToken = s.takeContent readPlainToken := by
  have hbegins := beginsPlain_of_start hindicators hwhite hmarked
  have hne := ne_of_not_indicator hindicators
  simp only [List.mem_cons, List.not_mem_nil, or_false, not_or] at hne
  by_cases hspecial : d = '?' ∨ d = ':' ∨ d = '-'
  · have hset := hmarked hspecial
    rcases hspecial with rfl | rfl | rfl <;> simp [takeToken, hd, hset, hmark, hflow, hbegins]
  · simp only [not_or] at hspecial
    simp [takeToken, hd, hne, hspecial, hmark, hflow, hbegins]

variable {indent n : Nat} {text w : List Char} {plain broken : Bool}

/-- A mark that is a prefix of a text is a prefix of what comes before other characters. -/
theorem isPrefixOf_of_append {m r : List Char} (hr : ∀ d ∈ r.head?, d ∉ m)
    (h : m.isPrefixOf (w ++ r) = true) : m.isPrefixOf w = true := by
  induction m generalizing w with
  | nil => rfl
  | cons x m ih =>
    cases w with
    | nil =>
      cases r with
      | nil => exact h
      | cons d r =>
        rw [List.nil_append, List.isPrefixOf, Bool.and_eq_true, beq_iff_eq] at h
        exact absurd (by simp [h.1]) (hr d rfl)
    | cons z w =>
      rw [List.cons_append, List.isPrefixOf, Bool.and_eq_true] at h
      rw [List.isPrefixOf, Bool.and_eq_true]
      exact ⟨h.1, ih (fun d hd hmem => hr d hd (List.mem_cons_of_mem _ hmem)) h.2⟩

theorem isPrefixOf_append {m : List Char} (r : List Char) (h : m.isPrefixOf w = true) :
    m.isPrefixOf (w ++ r) = true := by
  rw [List.isPrefixOf_iff_prefix] at h ⊢
  exact h.trans (List.prefix_append w r)

/-- No mark between documents stands where a plain scalar begins. -/
theorem atDocumentMark_of_flows (h : Flows indent text w) (hstart : PlainStart text)
    (hrest : c.rest = w ++ tail) (htail : ∀ d ∈ tail.head?, d = ':' ∨ d = '\n') :
    c.atDocumentMark = false := by
  obtain ⟨v, s', t', -, rfl, rfl, -, ht⟩ := h.first
  rw [List.append_assoc] at hrest
  have hno : ∀ m : List Char, m.isPrefixOf (v ++ s') = false → ' ' ∉ m → '\n' ∉ m → ':' ∉ m →
      c.startsWith m = false := by
    intro m hm hspace hfeed hcolon
    rw [Cursor.startsWith, hrest]
    refine Bool.eq_false_iff.2 fun hprefix => ?_
    have hword := isPrefixOf_of_append (r := t' ++ tail) ?_ hprefix
    · rw [isPrefixOf_append s' hword] at hm
      cases hm
    · intro d hd
      cases t' with
      | nil => rcases htail d hd with rfl | rfl <;> assumption
      | cons e t' =>
        obtain rfl : e = d := by simpa using hd
        rcases ht e rfl with rfl | rfl <;> assumption
  rw [Cursor.atDocumentMark, hno _ hstart.mark.1 (by decide) (by decide) (by decide),
    hno _ hstart.mark.2 (by decide) (by decide) (by decide)]
  rfl

theorem fresh_of_flows (h : Flows indent text w) (hstart : PlainStart text)
    (hrest : c.rest = w ++ tail) : Fresh c.rest := by
  obtain ⟨d, s', t', rfl, rfl, hd⟩ := h.head
  rw [hrest]
  refine fresh_cons ⟨hd, fun heq => ?_, fun heq => ?_⟩ _
  · have hindicator := hstart.indicators d rfl
    rw [heq] at hindicator
    exact absurd hindicator (by decide)
  · have hclean := h.clean d (List.mem_cons_self ..)
    rw [heq] at hclean
    exact absurd hclean (by decide)

/-- The character behind the first of a plain scalar, when it is no white space. -/
theorem peekAt_of_flows (h : Flows indent text w) (hrest : c.rest = w ++ tail)
    (hink : isWhiteOrEnd (text.tail.headD endMark) = false) :
    c.peekAt 1 = text.tail.headD endMark := by
  obtain ⟨v, s', t', hword, rfl, rfl, hs, -⟩ := h.first
  obtain ⟨d, v, rfl⟩ := List.exists_cons_of_ne_nil hword.ne_nil
  cases v with
  | nil =>
    cases s' with
    | nil => exact absurd (show isWhiteOrEnd endMark = false from hink) (by decide)
    | cons e s' =>
      rw [show (([d] ++ e :: s').tail.headD endMark) = e from rfl, hs e rfl] at hink
      cases hink
  | cons e v =>
    rw [Cursor.peekAt, hrest]
    rfl

/-- A plain scalar at the cursor. -/
theorem yields_plain (h : Flows indent text w) (hstart : PlainStart text)
    (hrest : c.rest = w ++ tail) (htail : ∀ d ∈ tail.head?, d = ':' ∨ d = '\n')
    (hstops : Stops (f.indent + 1) tail broken n) (hpos : 0 < indent) (hindent : f.indent < indent)
    (hcolumn : f.indent ≤ c.column) (hending : c.ending = none)
    (hyields : Yields ((f.pushAll [.scalar text true]).lexer (c.skip (w.length + n)) broken
      (f.saved c keyAllowed)) found) :
    Yields (f.lexer c keyAllowed none) found := by
  have hmark := atDocumentMark_of_flows h hstart hrest htail
  have hfresh := fresh_of_flows h hstart hrest
  obtain ⟨d, s', t', htext, hw, hd⟩ := h.head
  have hpeek : c.peek = d := by rw [hw] at hrest; exact Cursor.peek_of_rest hrest
  have hhash : text.head? ≠ some '#' := by
    have hne := (peek_of_fresh hfresh).2.1
    rw [hpeek] at hne
    simpa [htext] using hne
  have hafter : (d = '?' ∨ d = ':' ∨ d = '-') → isWhiteOrEnd (c.peekAt 1) = false := by
    intro hspecial
    have hink := hstart.marked d (by rw [htext]; rfl) hspecial
    rw [peekAt_of_flows h hrest hink]
    exact hink
  refine yields_content (takeToken_plain hpeek rfl (hstart.indicators d (by rw [htext]; rfl)) hd hafter
    hmark) (fun k => ?_) hfresh hcolumn (by rw [Cursor.ending_skip, hending]) ?_ hyields
  · have hread := readPlain_flows h hpos (by omega) hstops hrest (by omega) hhash
    show Except.ok (Token.scalar (readPlain (f.indent + 1) false c).text true,
      (readPlain (f.indent + 1) false c).broken, (readPlain (f.indent + 1) false c).cursor) = _
    rw [hread]
  · rw [Cursor.rest_skip, hrest, List.length_drop, List.length_append, hw, List.length_cons]
    omega

/-- A quoted scalar at the cursor. -/
theorem yields_quoted {quote : Quote} (h : Spells quote text w)
    (hrest : c.rest = quote.char :: (w ++ quote.char :: tail))
    (htail : ∀ d ∈ tail.head?, d = ':' ∨ d = '\n') (hcolumn : f.indent ≤ c.column)
    (hending : c.ending = none)
    (hyields : Yields ((f.pushAll [.scalar text false]).lexer (c.skip (w.length + 2)) false
      (f.saved c keyAllowed)) found) :
    Yields (f.lexer c keyAllowed none) found := by
  have hend : quote = .single → tail.head? ≠ some '\'' := by
    intro _ heq
    rcases htail _ heq with hcolon | hfeed
    · exact absurd hcolon (by decide)
    · exact absurd hfeed (by decide)
  have hread := readQuoted_spells h hrest hend
  have hpeek := Cursor.peek_of_rest hrest
  have htake : (f.lexer c keyAllowed none).takeToken =
      (f.lexer c keyAllowed none).takeContent (readQuotedToken quote) := by
    cases quote with
    | single => exact takeToken_single hpeek
    | double => exact takeToken_double hpeek
  refine yields_content htake (fun k => ?_) ?_ hcolumn (by rw [Cursor.ending_skip, hending]) ?_ hyields
  · exact bind_eq_ok_iff.2 ⟨_, hread, rfl⟩
  · rw [hrest]
    exact fresh_cons (by cases quote <;> decide) _
  · rw [Cursor.rest_skip, hrest]
    simp
    omega

/-! ## Scalars on their own -/

/-- A candidate that is saved in front of a column of a collection need not be a key. -/
theorem passing_saved (h : f.indent < c.column) (hline : c.line ≤ c'.line) :
    Passing c' (f.saved c keyAllowed) := by
  cases keyAllowed with
  | false => exact trivial
  | true => exact ⟨decide_eq_false (by omega), hline⟩

/-- The text goes on with a line end and the indentation of the next token. -/
structure GoesTo (c : Cursor) (w : List Char) (n : Nat) (tail : List Char) : Prop where
  rest : c.rest = w ++ '\n' :: (List.replicate n ' ' ++ tail)
  fresh : Fresh tail
  ending : c.ending = none

theorem GoesTo.feed (h : GoesTo c w n tail) :
    c.skip (w.length + (1 + n)) = { c.skip w.length with
      rest := tail, index := (c.skip w.length).index + 1 + n, line := (c.skip w.length).line + 1,
      column := n } := by
  rw [Cursor.skip_add, Cursor.skip_feed (Cursor.rest_skip_append h.rest)]

theorem GoesTo.line_lt (h : GoesTo c w n tail) : c.line < (c.skip (w.length + (1 + n))).line := by
  rw [h.feed]
  exact Nat.lt_succ_of_le (Cursor.line_le_skip _)

theorem starts_of_fresh (h : Fresh tail) : Starts tail := fun d hd => (h d hd).1

/-- The step over a scalar and the end of its line. -/
theorem yields_scalar (h : Writes indent plain text w) (hgo : GoesTo c w n tail) (hpos : 0 < indent)
    (hindent : f.indent < indent) (hcolumn : f.indent < c.column)
    (hplain : plain = true → (n : Int) ≤ f.indent)
    (hyields : Yields ((f.pushAll [.scalar text plain]).lexer (c.skip (w.length + (1 + n))) true none)
      found) :
    Yields (f.lexer c keyAllowed none) found := by
  cases h with
  | plain h hstart =>
    refine yields_plain h hstart hgo.rest (fun d hd => by cases hd; exact Or.inr rfl)
      (stops_feed (starts_of_fresh hgo.fresh) (by have := hplain rfl; omega)) hpos hindent (by omega)
      hgo.ending ?_
    -- A plain scalar passes the end of its line itself, in looking whether it goes on behind it.
    have hbehind : Fresh (c.skip (w.length + (1 + n))).rest := by
      rw [hgo.feed]
      exact hgo.fresh
    cases keyAllowed with
    | false => exact hyields
    | true =>
      exact yields_passed hbehind (decide_eq_false (by omega)) (isStale_of_line hgo.line_lt) hyields
  | @quoted quote s t h =>
    have hrest := hgo.rest
    simp only [List.cons_append, List.append_assoc, List.nil_append] at hrest
    refine yields_quoted h hrest (fun d hd => by cases hd; exact Or.inr rfl) (by omega) hgo.ending ?_
    have hbehind := Cursor.rest_skip_append hgo.rest
    have hlength : (quote.char :: (t ++ [quote.char])).length = t.length + 2 := by simp
    rw [hlength] at hbehind hyields
    rw [Cursor.skip_add] at hyields
    exact yields_feed hbehind hgo.fresh (passing_saved hcolumn (Cursor.line_le_skip _)) hyields

/-! ## Keys -/

theorem insertKey_lexer (c : Cursor) :
    ((f.pushAll [t]).lexer c keyAllowed k).insertToken f.tokens.length .key =
      (f.pushAll [.key, t]).lexer c keyAllowed k := by
  rw [insertToken]
  show Lexer.mk c (insertBehind .key (f.tokens.length + 1 - f.tokens.length) (t :: f.tokens)) .. = _
  rw [Nat.add_sub_cancel_left]
  rfl

theorem openMapping_lexer (c : Cursor) :
    ((f.pushAll [.key, t]).lexer c keyAllowed k).openBlock .blockMappingStart f.tokens.length column =
      ((f.openAt .blockMappingStart column).pushAll [.key, t]).lexer c keyAllowed k := by
  rw [openBlock, openAt]
  show (if f.indent < column then _ else _) = _
  split
  · rw [insertToken]
    show Lexer.mk c (insertBehind .blockMappingStart (f.tokens.length + 2 - f.tokens.length)
      (t :: .key :: f.tokens)) .. = _
    rw [Nat.add_sub_cancel_left]
    rfl
  · rfl

/-- The colon behind a key puts the token of the key in front of it, and in front of that the token
of the mapping. -/
theorem takeValue_candidate :
    ((f.pushAll [t]).lexer c' false (some (f.candidate c))).takeValue =
      .ok (((f.openAt .blockMappingStart c.column).pushAll [.key, t, .value]).lexer c'.next false
        none) := by
  show (let s := ((f.pushAll [t]).lexer c' false none).insertToken f.tokens.length .key
    let s := s.openBlock .blockMappingStart f.tokens.length c.column
    (Except.ok ({ s with keyAllowed := false }.take .value 1) : Except Fault Lexer)) = _
  rw [insertKey_lexer]
  dsimp only
  rw [openMapping_lexer]
  rfl

/-- The step over the colon behind a key. -/
theorem yields_value (hrest : c'.rest = ':' :: tail) (hset : isWhiteOrEnd (tail.headD endMark) = true)
    (hending : c'.ending = none) (hcolumn : f.indent ≤ c'.column) (hline : c.line = c'.line)
    (hreach : c'.index - c.index ≤ keyReach)
    (hyields : Yields (((f.openAt .blockMappingStart c.column).pushAll
      [.key, t, .value]).lexer c'.next false none) found) :
    Yields ((f.pushAll [t]).lexer c' false (some (f.candidate c))) found := by
  have hfresh : Fresh c'.rest := by
    rw [hrest]
    exact fresh_cons (by decide) _
  -- The key that is waited for stands on this line and within reach.
  have hlive : KeyCandidate.isStale c' (f.candidate c) = false := by
    simp [KeyCandidate.isStale, candidate, hline, hreach]
  have hpeekAt : isWhiteOrEnd (c'.peekAt 1) = true := by
    rw [Cursor.peekAt, hrest]
    exact hset
  exact yields_of_skip [':'] hrest (by simp) hending rfl rfl rfl
    (arrive_live hfresh hcolumn hlive)
    ((takeToken_colon (Cursor.peek_of_rest hrest) hpeekAt).trans takeValue_candidate)
    (by simp [lexer]) hyields

/-- The step over a key and the colon behind it. -/
theorem yields_key (h : Writes indent plain text w) (hrest : c.rest = w ++ ':' :: tail)
    (hset : isWhiteOrEnd (tail.headD endMark) = true) (hending : c.ending = none) (hpos : 0 < indent)
    (hindent : f.indent < indent) (hcolumn : f.indent ≤ c.column)
    (hline : ∀ d ∈ w, isInline d = true) (hreach : w.length ≤ keyReach)
    (hyields : Yields (((f.openAt .blockMappingStart c.column).pushAll
      [.key, .scalar text plain, .value]).lexer (c.skip (w.length + 1)) false none) found) :
    Yields (f.lexer c true none) found := by
  have hskip := Cursor.skip_inline hrest hline
  have hbehind : (c.skip w.length).rest = ':' :: tail := by rw [hskip]
  have hvalue : Yields ((f.pushAll [.scalar text plain]).lexer (c.skip w.length) false
      (some (f.candidate c))) found := by
    refine yields_value hbehind hset (by rw [hskip, hending]) ?_ (by rw [hskip]) ?_ ?_
    · rw [hskip]
      show f.indent ≤ ((c.column + w.length : Nat) : Int)
      omega
    · rw [hskip]
      show c.index + w.length - c.index ≤ keyReach
      omega
    · rw [Cursor.skip_add] at hyields
      exact hyields
  cases h with
  | plain h hstart =>
    exact yields_plain (n := 0) h hstart hrest (fun d hd => by cases hd; exact Or.inl rfl)
      (stops_colon hset) hpos hindent hcolumn hending hvalue
  | @quoted quote s t h =>
    simp only [List.cons_append, List.append_assoc, List.nil_append] at hrest
    have hlength : (quote.char :: (t ++ [quote.char])).length = t.length + 2 := by simp
    rw [hlength] at hvalue
    exact yields_quoted h hrest (fun d hd => by cases hd; exact Or.inl rfl) hcolumn hending hvalue

/-! ## Empty brackets -/

/-- The brackets of an empty collection: what opens it and what closes it. -/
inductive Brackets : Char → Char → Token → Token → Prop
  | sequence : Brackets '[' ']' .flowSequenceStart .flowSequenceEnd
  | mapping : Brackets '\x7b' '\x7d' .flowMappingStart .flowMappingEnd

theorem Brackets.take {o e : Char} {t u : Token} (h : Brackets o e t u) :
    (∀ s : Lexer, s.cursor.peek = o → s.takeToken = s.takeFlowStart t) ∧
    ∀ s : Lexer, s.cursor.peek = e → s.takeToken = s.takeFlowEnd u := by
  cases h with
  | sequence => exact ⟨fun s hs => by simp [takeToken, hs], fun s hs => by simp [takeToken, hs]⟩
  | mapping => exact ⟨fun s hs => by simp [takeToken, hs], fun s hs => by simp [takeToken, hs]⟩

theorem Brackets.fresh {o e : Char} {t u : Token} (h : Brackets o e t u) :
    (∀ rest, Fresh (o :: rest)) ∧ (∀ rest, Fresh (e :: rest)) ∧ isInline o = true := by
  cases h with
  | sequence => exact ⟨fresh_cons (by decide), fresh_cons (by decide), by decide⟩
  | mapping => exact ⟨fresh_cons (by decide), fresh_cons (by decide), by decide⟩

/-- The state inside brackets that have just been opened. -/
def inside (f : Found) (c : Cursor) (t : Token) (k : Option KeyCandidate) : Lexer :=
  { (f.pushAll [t]).lexer c true none with candidates := [none, k] }

theorem takeFlowStart_lexer : (f.lexer c keyAllowed none).takeFlowStart t =
    .ok (f.inside c.next t (f.saved c keyAllowed)) := by
  rw [takeFlowStart, saveCandidate_lexer]
  rfl

theorem takeFlowEnd_inside {u : Token} : (f.inside c t k).takeFlowEnd u =
    .ok ((f.pushAll [t, u]).lexer c.next false k) := rfl

theorem arrive_inside (hrest : Fresh c.rest) (hlive : k.any (KeyCandidate.isStale c) = false) :
    (f.inside c t k).arrive = .ok (f.inside c t k) := by
  have hdrop : (f.inside c t k).dropStale = .ok (f.inside c t k) := by
    rw [dropStale]
    show (do let candidates ← [none, k].mapM (fun k : Option KeyCandidate =>
      if k.any (KeyCandidate.isStale c) then giveUp k else pure k); _) = _
    rw [List.mapM_cons, List.mapM_cons, hlive]
    rfl
  have hnext : (f.inside c t k).toNextToken = f.inside c t k := toNextToken_spaces (n := 0) rfl hrest
  exact arrive_eq_ok_iff.2 ⟨_, _, hdrop, by rw [hnext, hdrop], rfl⟩

/-- The step over empty brackets. -/
theorem yields_empty {o e : Char} {u : Token} (h : Brackets o e t u) (hrest : c.rest = o :: e :: tail)
    (hending : c.ending = none) (hcolumn : f.indent ≤ c.column)
    (hyields : Yields ((f.pushAll [t, u]).lexer (c.skip 2) false (f.saved c keyAllowed)) found) :
    Yields (f.lexer c keyAllowed none) found := by
  have hnext : c.next.rest = e :: tail := by rw [Cursor.rest_next, hrest]; rfl
  have hplace := Cursor.next_inline hrest h.fresh.2.2
  -- The opening bracket may begin a key, and no line has ended since.
  have hlive : (f.saved c keyAllowed).any (KeyCandidate.isStale c.next) = false := by
    cases keyAllowed with
    | false => rfl
    | true =>
      rw [hplace]
      simp [saved, KeyCandidate.isStale, candidate, keyReach]
  have hfresh : Fresh c.rest := by rw [hrest]; exact h.fresh.1 _
  have hfresh' : Fresh c.next.rest := by rw [hnext]; exact h.fresh.2.1 _
  refine yields_of_skip [o] hrest (by simp) hending rfl rfl rfl
    (arrive_fresh hfresh hcolumn)
    ((h.take.1 _ (Cursor.peek_of_rest hrest)).trans takeFlowStart_lexer) (by simp [inside]) ?_
  exact yields_of_skip [e] hnext (by simp) (by rw [Cursor.ending_next, hending]) rfl rfl rfl
    (arrive_inside hfresh' hlive)
    ((h.take.2 _ (Cursor.peek_of_rest hnext)).trans takeFlowEnd_inside) (by simp [lexer]) hyields

/-! ## The mark behind a scalar that only a mark can end -/

theorem takeDocumentMark_lexer (hindent : f.indent = -1) :
    (f.lexer c true none).takeDocumentMark t =
      .ok ((f.pushAll [t]).lexer (c.skip 3) false none) := by
  rw [takeDocumentMark, unwind_stay (by omega)]
  rfl

/-- The mark that ends a document, and the end of the text behind it. -/
theorem yields_mark (hrest : c.rest = ['.', '.', '.', '\n']) (hending : c.ending = none)
    (hcolumn : c.column = 0) (hindent : f.indent = -1) :
    Yields (f.lexer c true none) (f.tokens.reverse ++ [.documentEnd, .streamEnd]) := by
  have hfresh : Fresh c.rest := by
    rw [hrest]
    exact fresh_cons (by decide) _
  have hmark : c.atDocumentMark = true := by
    rw [Cursor.atDocumentMark, Cursor.startsWith, Cursor.startsWith, Cursor.peekAt, hrest]
    decide
  have htake : (f.lexer c true none).takeToken =
      .ok ((f.pushAll [.documentEnd]).lexer (c.skip 3) false none) := by
    have hpeek : (f.lexer c true none).cursor.peek = '.' := Cursor.peek_of_rest hrest
    have hplace : (f.lexer c true none).cursor.column = 0 := hcolumn
    have hhere : (f.lexer c true none).cursor.atDocumentMark = true := hmark
    rw [← takeDocumentMark_lexer hindent]
    simp [takeToken, hpeek, hplace, hhere]
  have hbehind : (c.skip 3).rest = '\n' :: (List.replicate 0 ' ' ++ []) := by
    rw [Cursor.rest_skip, hrest]
    rfl
  have hlast : ((c.skip 3).skip (1 + 0)).rest = [] := by rw [Cursor.skip_feed hbehind]
  have hend : Yields ((f.pushAll [.documentEnd]).lexer ((c.skip 3).skip (1 + 0)) true none) _ :=
    yields_end hlast (by rw [Cursor.ending_skip, Cursor.ending_skip, hending]) hindent
  refine yields_of_skip ['.', '.', '.'] hrest (by simp) hending rfl rfl rfl
    (arrive_fresh hfresh (by omega)) htake (by simp [lexer]) ?_
  refine yields_feed hbehind fresh_nil trivial ?_
  simpa [pushAll] using hend

end RegistryTree.Yaml.Found
