import RegistryTree.Proofs.Except
import RegistryTree.Proofs.Yaml.Cursor
import RegistryTree.Yaml.Token.Lexer

/-!
# From one token to the next

How the search for tokens goes on depends on the state in which it arrives at a token: past white
space, with the candidates given up that are no longer keys and with the collections closed that are
indented deeper. Two states that arrive in the same state go on alike. `Yields` says what tokens are
found in the end, and the lemmas about it go from the end of a text to its start.

> `yields_of_token`: the step over a token.
> `yields_of_arrive`: states that arrive in the same state.
> `yields_end`: the end of the text.
-/

namespace RegistryTree.Yaml.Lexer

/-- The state in which the search arrives at the next token. -/
def arrive (s : Lexer) : Except Fault Lexer := do
  let s ← s.dropStale
  let s ← s.toNextToken.dropStale
  return s.unwind s.cursor.column

/-- The tokens that are found in the end, without a fault. -/
def Yields (s : Lexer) (found : List Token) : Prop :=
  ∀ fuel, s.cursor.rest.length < fuel → run fuel s = ⟨found, none⟩

/-- How the search goes on without a fault from the state in which it has arrived. -/
def GoesOn (fuel : Nat) (s : Lexer) (found : List Token) : Prop :=
  if s.cursor.rest = [] ∧ s.cursor.ending = none then
    ∃ s', s.takeEnd = .ok s' ∧ s'.tokens.reverse = found
  else ∃ s', s.takeToken = .ok s' ∧ s'.cursor.cutOff? = none ∧ s'.candidates ≠ [] ∧
    run fuel s' = ⟨found, none⟩

variable {s s' : Lexer} {found : List Token} {fuel : Nat}

theorem stop_ne (s : Lexer) (fault : Fault) (found : List Token) : s.stop fault ≠ ⟨found, none⟩ := by
  intro h
  cases h

/-- The steps in which the search arrives at a token. -/
theorem arrive_eq_ok_iff : s.arrive = .ok s' ↔ ∃ s₀ s₁, s.dropStale = .ok s₀ ∧
    s₀.toNextToken.dropStale = .ok s₁ ∧ s₁.unwind s₁.cursor.column = s' := by
  simp only [arrive, bind_eq_ok_iff]
  constructor
  · rintro ⟨s₀, hdrop, s₁, hnext, harrived⟩
    exact ⟨s₀, s₁, hdrop, hnext, Except.ok.inj harrived⟩
  · rintro ⟨s₀, s₁, hdrop, hnext, rfl⟩
    exact ⟨s₀, hdrop, s₁, hnext, rfl⟩

/-- What comes out depends on the state in which the search arrives. -/
theorem run_eq_iff (h : s.arrive = .ok s') :
    run (fuel + 1) s = ⟨found, none⟩ ↔ GoesOn fuel s' found := by
  obtain ⟨s₀, s₁, hdrop, hnext, rfl⟩ := arrive_eq_ok_iff.1 h
  rw [run, hdrop]
  dsimp only
  rw [hnext]
  dsimp only
  rw [GoesOn]
  split
  next hend =>
    cases htake : (s₁.unwind s₁.cursor.column).takeEnd with
    | error fault => simp [stop_ne]
    | ok s₂ => simp
  next hend =>
    cases htake : (s₁.unwind s₁.cursor.column).takeToken with
    | error fault => simp [stop_ne]
    | ok s₂ =>
      dsimp only
      cases hcut : s₂.cursor.cutOff? with
      | some fault => simp [stop_ne, hcut]
      | none =>
        dsimp only
        by_cases hnone : s₂.candidates = []
        · simp [hnone, stop_ne]
        · simp [hnone, hcut]

/-- Two states that arrive in the same state go on alike. -/
theorem yields_of_arrive {s₁ : Lexer} (h : s.arrive = .ok s₁) (h' : s'.arrive = .ok s₁)
    (hlength : s'.cursor.rest.length ≤ s.cursor.rest.length) (hyields : Yields s' found) :
    Yields s found := by
  intro fuel hfuel
  obtain ⟨fuel, rfl⟩ : ∃ m, fuel = m + 1 := ⟨fuel - 1, by omega⟩
  rw [run_eq_iff h, ← run_eq_iff h']
  exact hyields _ (by omega)

/-- The step over a token. -/
theorem yields_of_token {s₁ s₂ : Lexer} (h : s.arrive = .ok s₁) (hrest : s₁.cursor.rest ≠ [])
    (htake : s₁.takeToken = .ok s₂) (hending : s₂.cursor.ending = none) (hopen : s₂.candidates ≠ [])
    (hlength : s₂.cursor.rest.length < s.cursor.rest.length) (hyields : Yields s₂ found) :
    Yields s found := by
  intro fuel hfuel
  obtain ⟨fuel, rfl⟩ : ∃ m, fuel = m + 1 := ⟨fuel - 1, by omega⟩
  rw [run_eq_iff h, GoesOn, if_neg fun hand => hrest hand.1]
  refine ⟨s₂, htake, ?_, hopen, hyields fuel (by omega)⟩
  rw [Cursor.cutOff?, hending, ite_self]

/-- The step over a token that is some of the characters at the cursor. -/
theorem yields_of_skip {s₁ s₂ : Lexer} {c : Cursor} (word : List Char) {tail : List Char}
    (hrest : c.rest = word ++ tail) (hne : word ≠ []) (hending : c.ending = none)
    (hc : s.cursor = c) (hc₁ : s₁.cursor = c) (hc₂ : s₂.cursor = c.skip word.length)
    (h : s.arrive = .ok s₁) (htake : s₁.takeToken = .ok s₂) (hopen : s₂.candidates ≠ [])
    (hyields : Yields s₂ found) : Yields s found := by
  have hpos := List.length_pos_iff.2 hne
  refine yields_of_token h ?_ htake ?_ hopen ?_ hyields
  · simp [hc₁, hrest, hne]
  · rw [hc₂, Cursor.ending_skip, hending]
  · rw [hc, hc₂, Cursor.rest_skip_append hrest, hrest, List.length_append]
    omega

/-! ## States outside of brackets -/

end Lexer

/-- The tokens found outside of brackets, the newest first, and the columns of the collections that
are open. -/
structure Found where
  tokens : List Token := []
  indent : Int := -1
  indents : List Int := []

namespace Found

open Lexer

/-- A state outside of brackets. -/
def lexer (f : Found) (c : Cursor) (keyAllowed : Bool) (k : Option KeyCandidate) : Lexer where
  cursor := c
  tokens := f.tokens
  count := f.tokens.length
  indent := f.indent
  indents := f.indents
  keyAllowed := keyAllowed
  candidates := [k]

/-- More tokens. -/
def pushAll (ts : List Token) (f : Found) : Found := { f with tokens := ts.reverse ++ f.tokens }

/-- A collection that is opened at a column, if none is open there. -/
def openAt (t : Token) (column : Nat) (f : Found) : Found :=
  if f.indent < column then
    { tokens := t :: f.tokens, indent := column, indents := f.indent :: f.indents }
  else f

/-- The innermost collection closed. -/
def close (f : Found) : Found where
  tokens := .blockEnd :: f.tokens
  indent := f.indents.headD (-1)
  indents := f.indents.tail

variable {f : Found} {c : Cursor} {keyAllowed : Bool} {k : Option KeyCandidate} {t : Token}
  {column : Nat} {found : List Token}

@[simp] theorem indent_pushAll (ts : List Token) : (f.pushAll ts).indent = f.indent := rfl

theorem pushAll_pushAll (ts us : List Token) : (f.pushAll ts).pushAll us = f.pushAll (ts ++ us) := by
  simp [pushAll]

theorem openAt_of_lt (h : f.indent < column) : f.openAt t column =
    { tokens := t :: f.tokens, indent := column, indents := f.indent :: f.indents } := if_pos h

theorem openAt_of_ge (h : ¬f.indent < column) : f.openAt t column = f := if_neg h

theorem openAt_of_eq (h : f.indent = column) : f.openAt t column = f :=
  openAt_of_ge (by omega)

/-- Once a collection is open at a column, none is opened there again. -/
theorem indent_openAt (h : f.indent ≤ column) : (f.openAt t column).indent = column := by
  rw [openAt]
  split
  · rfl
  · omega

/-- What a collection leaves once it is closed. -/
theorem close_openAt (h : f.indent < column) (ts : List Token) :
    ((f.openAt t column).pushAll ts).close = f.pushAll (t :: ts ++ [.blockEnd]) := by
  rw [openAt_of_lt h]
  simp [pushAll, close]

/-! ### Closing collections -/

theorem unwind_lexer (i : Int) :
    (f.lexer c keyAllowed k).unwind i = closeBlocks i f.indents (f.lexer c keyAllowed k) := rfl

/-- Collections are closed one by one. -/
theorem unwind_close {i : Int} (h : i < f.indent) (hne : f.indents ≠ []) :
    (f.lexer c keyAllowed k).unwind i = (f.close.lexer c keyAllowed k).unwind i := by
  obtain ⟨tokens, indent, indents⟩ := f
  cases indents with
  | nil => exact absurd rfl hne
  | cons outer rest =>
    exact if_pos h

/-- No collection is closed that is not indented deeper. -/
theorem unwind_stay {i : Int} (h : f.indent ≤ i) :
    (f.lexer c keyAllowed k).unwind i = f.lexer c keyAllowed k := by
  rw [unwind_lexer]
  cases f.indents with
  | nil => rfl
  | cons outer rest => exact if_neg (show ¬i < f.indent by omega)

/-! ### White space -/

/-- The start of a token, or the end of the text. -/
def Fresh (tail : List Char) : Prop :=
  ∀ d ∈ tail.head?, isWhiteOrEnd d = false ∧ d ≠ '#' ∧ d ≠ byteOrderMark

variable {tail : List Char} {n : Nat} {s : Lexer}

theorem fresh_nil : Fresh [] := fun _ hd => by cases hd

/-- Only the first character is looked at. -/
theorem fresh_cons {d : Char} (h : isWhiteOrEnd d = false ∧ d ≠ '#' ∧ d ≠ byteOrderMark)
    (rest : List Char) : Fresh (d :: rest) := by
  intro e he
  cases he
  exact h

theorem peek_of_fresh (h : Fresh c.rest) :
    c.peek ≠ ' ' ∧ c.peek ≠ '#' ∧ c.peek ≠ byteOrderMark ∧ isBreak c.peek = false := by
  cases hrest : c.rest with
  | nil =>
    rw [Cursor.peek, hrest]
    decide
  | cons d rest =>
    rw [hrest] at h
    obtain ⟨hwhite, hhash, hmark⟩ := h d rfl
    rw [Cursor.peek_of_rest hrest]
    simp only [isWhiteOrEnd, isSpaceOrEnd, isBreakOrEnd, Bool.or_eq_false_iff,
      decide_eq_false_iff_not] at hwhite
    exact ⟨hwhite.2.1, hhash, hmark, hwhite.2.2.2⟩

/-- Spaces in front of a token. -/
theorem skipToToken_spaces (hrest : s.cursor.rest = List.replicate n ' ' ++ tail)
    (htail : Fresh tail) (fuel : Nat) :
    skipToToken (fuel + 1) s = { s with cursor := s.cursor.skip n } := by
  have hbehind := Cursor.rest_skip_append hrest
  rw [List.length_replicate] at hbehind
  obtain ⟨hspace, hhash, -, hbreak⟩ := peek_of_fresh (c := s.cursor.skip n) (by rwa [hbehind])
  have hskip : s.cursor.skipWhile (· = ' ') = s.cursor.skip n := by
    have hend : decide (tail.headD endMark = ' ') = false := by
      rw [Cursor.peek, hbehind] at hspace
      simpa using hspace
    have hskip := Cursor.skipWhile_of_rest (p := (· = ' ')) hrest
      (fun d hd => by simpa using List.eq_of_mem_replicate hd) (Or.inl hend)
    rwa [List.length_replicate] at hskip
  rw [skipToToken, hskip]
  dsimp only
  rw [if_neg hhash, Cursor.lineBreak_of_not_break hbreak]
  rfl

/-- A line end and the indentation of the line of a token. -/
theorem skipToToken_feed (hrest : s.cursor.rest = '\n' :: (List.replicate n ' ' ++ tail))
    (htail : Fresh tail) (fuel : Nat) :
    skipToToken (fuel + 2) s =
      { s with cursor := s.cursor.skip (1 + n), keyAllowed := s.keyAllowed || !s.inFlow } := by
  have hskip : s.cursor.skipWhile (· = ' ') = s.cursor :=
    Cursor.skipWhile_of_rest (l := []) hrest (by simp) (Or.inl (by simp))
  have hnext : s.cursor.next.rest = List.replicate n ' ' ++ tail := by
    rw [Cursor.rest_next, hrest]
    rfl
  rw [skipToToken, hskip]
  dsimp only
  rw [Cursor.peek_of_rest hrest, if_neg (show ¬('\n' = '#') by decide),
    Cursor.lineBreak_of_break hrest (by decide)]
  dsimp only
  rw [if_neg (by simp), skipToToken_spaces (s := { s with
    cursor := s.cursor.next, keyAllowed := s.keyAllowed || !s.inFlow }) hnext htail, Cursor.skip_add]
  rfl

theorem toNextToken_spaces (hrest : s.cursor.rest = List.replicate n ' ' ++ tail)
    (htail : Fresh tail) : s.toNextToken = { s with cursor := s.cursor.skip n } := by
  have hpeek : s.cursor.peek ≠ byteOrderMark := by
    cases n with
    | zero => exact (peek_of_fresh (by rw [hrest]; exact htail)).2.2.1
    | succ n =>
      rw [Cursor.peek_of_rest hrest]
      decide
  rw [toNextToken, if_neg fun hand => hpeek hand.2]
  exact skipToToken_spaces hrest htail _

theorem toNextToken_feed (hrest : s.cursor.rest = '\n' :: (List.replicate n ' ' ++ tail))
    (htail : Fresh tail) : s.toNextToken =
      { s with cursor := s.cursor.skip (1 + n), keyAllowed := s.keyAllowed || !s.inFlow } := by
  have hpeek : s.cursor.peek ≠ byteOrderMark := by
    rw [Cursor.peek_of_rest hrest]
    decide
  rw [toNextToken, if_neg fun hand => hpeek hand.2, hrest]
  exact skipToToken_feed hrest htail _

/-! ### Candidates -/

theorem dropStale_lexer : (f.lexer c keyAllowed k).dropStale =
    (if k.any (KeyCandidate.isStale c) then giveUp k else .ok k).map (f.lexer c keyAllowed) := by
  rw [dropStale]
  show (do let candidates ← [k].mapM (fun k : Option KeyCandidate =>
      if k.any (KeyCandidate.isStale c) then giveUp k else pure k); _) = _
  rw [List.mapM_cons]
  change (do
    let candidates ← (do
      let k ← (if k.any (KeyCandidate.isStale c) then giveUp k else .ok k)
      let more ← List.mapM _ []
      pure (k :: more))
    _) = _
  cases (if k.any (KeyCandidate.isStale c) then giveUp k else .ok k) <;> rfl

/-- Where there is no candidate, none is given up. -/
theorem dropStale_none : (f.lexer c keyAllowed none).dropStale = .ok (f.lexer c keyAllowed none) :=
  rfl

/-- Behind the end of its line, a candidate can no longer be a key. -/
theorem isStale_of_line {key : KeyCandidate} (h : key.line < c.line) :
    KeyCandidate.isStale c key = true := by
  rw [KeyCandidate.isStale, Bool.or_eq_true]
  exact Or.inl (decide_eq_true (Nat.ne_of_lt h))

/-- A candidate on the line that may still be a key. -/
theorem dropStale_live {key : KeyCandidate} (hlive : KeyCandidate.isStale c key = false) :
    (f.lexer c keyAllowed (some key)).dropStale = .ok (f.lexer c keyAllowed (some key)) := by
  rw [dropStale_lexer, Option.any_some, hlive]
  rfl

/-- A candidate that need not be a key is given up behind the end of its line. -/
theorem dropStale_passed {key : KeyCandidate} (hoptional : key.required = false)
    (hstale : KeyCandidate.isStale c key = true) :
    (f.lexer c keyAllowed (some key)).dropStale = .ok (f.lexer c keyAllowed none) := by
  rw [dropStale_lexer, Option.any_some, hstale, if_pos rfl, giveUp, hoptional]
  rfl

/-- A candidate that may be left behind at a cursor. -/
def Passing (c : Cursor) : Option KeyCandidate → Prop
  | none => True
  | some key => key.required = false ∧ key.line ≤ c.line

/-- Whether a candidate stays or is given up, it can be left behind. -/
theorem dropStale_passing (f : Found) (keyAllowed : Bool) (h : Passing c k) :
    ∃ k', (f.lexer c keyAllowed k).dropStale = .ok (f.lexer c keyAllowed k') ∧ Passing c k' := by
  cases k with
  | none => exact ⟨none, dropStale_none, trivial⟩
  | some key =>
    cases hstale : KeyCandidate.isStale c key with
    | true => exact ⟨none, dropStale_passed h.1 hstale, trivial⟩
    | false => exact ⟨some key, dropStale_live hstale, h⟩

/-! ### Arriving -/

/-- In front of a token without a candidate. -/
theorem arrive_spaces (hrest : c.rest = List.replicate n ' ' ++ tail) (htail : Fresh tail) :
    (f.lexer c keyAllowed none).arrive =
      .ok ((f.lexer (c.skip n) keyAllowed none).unwind (c.skip n).column) := by
  have hnext : (f.lexer c keyAllowed none).toNextToken = f.lexer (c.skip n) keyAllowed none :=
    toNextToken_spaces hrest htail
  exact arrive_eq_ok_iff.2 ⟨_, _, dropStale_none, by rw [hnext, dropStale_none], rfl⟩

/-- In front of a token behind a line end. -/
theorem arrive_feed (hrest : c.rest = '\n' :: (List.replicate n ' ' ++ tail)) (htail : Fresh tail)
    (hpassing : Passing c k) :
    (f.lexer c keyAllowed k).arrive =
      .ok ((f.lexer (c.skip (1 + n)) true none).unwind (c.skip (1 + n)).column) := by
  obtain ⟨k', hdrop, hpassing⟩ := dropStale_passing f keyAllowed hpassing
  have hnext : (f.lexer c keyAllowed k').toNextToken = f.lexer (c.skip (1 + n)) true k' := by
    rw [toNextToken_feed hrest htail]
    show (f.lexer (c.skip (1 + n)) (keyAllowed || true) k') = _
    rw [Bool.or_true]
  have hdrop' : (f.lexer (c.skip (1 + n)) true k').dropStale =
      .ok (f.lexer (c.skip (1 + n)) true none) := by
    cases k' with
    | none => rfl
    | some key =>
      refine dropStale_passed hpassing.1 (isStale_of_line ?_)
      rw [Cursor.skip_feed hrest]
      exact Nat.lt_succ_of_le hpassing.2
  exact arrive_eq_ok_iff.2 ⟨_, _, hdrop, by rw [hnext, hdrop'], rfl⟩

/-- At a token that is not indented less than the innermost collection. -/
theorem arrive_fresh (hrest : Fresh c.rest) (hindent : f.indent ≤ c.column) :
    (f.lexer c keyAllowed none).arrive = .ok (f.lexer c keyAllowed none) := by
  rw [arrive_spaces (n := 0) rfl hrest]
  exact congrArg Except.ok (unwind_stay hindent)

/-- At a token with a candidate that may still be a key. -/
theorem arrive_live {key : KeyCandidate} (hrest : Fresh c.rest) (hindent : f.indent ≤ c.column)
    (hlive : KeyCandidate.isStale c key = false) :
    (f.lexer c keyAllowed (some key)).arrive = .ok (f.lexer c keyAllowed (some key)) := by
  have hnext : (f.lexer c keyAllowed (some key)).toNextToken = f.lexer c keyAllowed (some key) :=
    toNextToken_spaces (n := 0) rfl hrest
  exact arrive_eq_ok_iff.2 ⟨_, _, dropStale_live hlive, by rw [hnext, dropStale_live hlive],
    unwind_stay hindent⟩

/-- At a token with a candidate that is given up. -/
theorem arrive_passed {key : KeyCandidate} (hoptional : key.required = false)
    (hstale : KeyCandidate.isStale c key = true) :
    (f.lexer c keyAllowed (some key)).arrive = (f.lexer c keyAllowed none).arrive := by
  rw [arrive, arrive, dropStale_passed hoptional hstale, dropStale_none]

/-! ### What is found -/

theorem yields_spaces (hrest : c.rest = List.replicate n ' ' ++ tail) (htail : Fresh tail)
    (h : Yields (f.lexer (c.skip n) keyAllowed none) found) :
    Yields (f.lexer c keyAllowed none) found := by
  have hbehind := Cursor.rest_skip_append hrest
  rw [List.length_replicate] at hbehind
  refine yields_of_arrive (arrive_spaces hrest htail)
    (arrive_spaces (n := 0) (c := c.skip n) hbehind htail) ?_ h
  show (c.skip n).rest.length ≤ c.rest.length
  rw [hbehind, hrest]
  simp

/-- A candidate that is given up at a token. -/
theorem yields_passed {key : KeyCandidate} (hrest : Fresh c.rest) (hoptional : key.required = false)
    (hstale : KeyCandidate.isStale c key = true)
    (h : Yields (f.lexer c keyAllowed none) found) :
    Yields (f.lexer c keyAllowed (some key)) found := by
  have harrive : (f.lexer c keyAllowed none).arrive = _ := arrive_spaces (n := 0) rfl hrest
  exact yields_of_arrive ((arrive_passed hoptional hstale).trans harrive) harrive (Nat.le_refl _) h

theorem yields_feed (hrest : c.rest = '\n' :: (List.replicate n ' ' ++ tail)) (htail : Fresh tail)
    (hpassing : Passing c k) (h : Yields (f.lexer (c.skip (1 + n)) true none) found) :
    Yields (f.lexer c keyAllowed k) found := by
  have hbehind : (c.skip (1 + n)).rest = tail := by rw [Cursor.skip_feed hrest]
  refine yields_of_arrive (arrive_feed hrest htail hpassing)
    (arrive_spaces (n := 0) (c := c.skip (1 + n)) hbehind htail) ?_ h
  show (c.skip (1 + n)).rest.length ≤ c.rest.length
  rw [hbehind, hrest]
  simp
  omega

/-- A collection is closed in front of a token that is indented less. -/
theorem yields_close (hrest : Fresh c.rest) (hcolumn : c.column < f.indent) (hne : f.indents ≠ [])
    (h : Yields (f.close.lexer c keyAllowed none) found) :
    Yields (f.lexer c keyAllowed none) found := by
  have harrive : (f.close.lexer c keyAllowed none).arrive =
      .ok ((f.lexer c keyAllowed none).unwind c.column) := by
    rw [unwind_close hcolumn hne]
    exact arrive_spaces (n := 0) rfl hrest
  exact yields_of_arrive (arrive_spaces (n := 0) rfl hrest) harrive (Nat.le_refl _) h

/-- The outermost collection is closed at the end of the text. -/
theorem yields_close_last (hrest : c.rest = []) (hending : c.ending = none) (hcolumn : c.column = 0)
    (hindent : f.indent = 0) (hne : f.indents ≠ []) (hclose : f.close.indent = -1)
    (h : Yields (f.close.lexer c keyAllowed none) found) :
    Yields (f.lexer c keyAllowed none) found := by
  have hfresh : Fresh c.rest := by
    rw [hrest]
    exact fresh_nil
  have harrive : (f.lexer c keyAllowed none).arrive = _ := arrive_fresh hfresh (by omega)
  have harrive' : (f.close.lexer c keyAllowed none).arrive = _ := arrive_fresh hfresh (by omega)
  have htake : (f.lexer c keyAllowed none).takeEnd = (f.close.lexer c keyAllowed none).takeEnd := by
    rw [takeEnd, takeEnd, unwind_close (by omega) hne]
  intro fuel hfuel
  obtain ⟨fuel, rfl⟩ : ∃ m, fuel = m + 1 := ⟨fuel - 1, by omega⟩
  have hmore := h (fuel + 1) hfuel
  rw [run_eq_iff harrive', GoesOn, if_pos ⟨hrest, hending⟩, ← htake] at hmore
  rw [run_eq_iff harrive, GoesOn, if_pos ⟨hrest, hending⟩]
  exact hmore

/-- The end of the text, where no collection is open. -/
theorem yields_end (hrest : c.rest = []) (hending : c.ending = none) (hindent : f.indent = -1) :
    Yields (f.lexer c keyAllowed none) (f.tokens.reverse ++ [.streamEnd]) := by
  have hfresh : Fresh c.rest := by
    rw [hrest]
    exact fresh_nil
  intro fuel hfuel
  obtain ⟨fuel, rfl⟩ : ∃ m, fuel = m + 1 := ⟨fuel - 1, by omega⟩
  rw [run_eq_iff (arrive_fresh hfresh (by omega)), GoesOn, if_pos ⟨hrest, hending⟩]
  refine ⟨(f.pushAll [.streamEnd]).lexer c keyAllowed none, ?_, List.reverse_cons ..⟩
  rw [takeEnd, unwind_stay (by omega)]
  rfl

end Found

end RegistryTree.Yaml
