import RegistryTree.Proofs.Yaml.Token.Step

/-!
# The layout of blocks

A node inside a collection is read from what is written for it when the line behind it is not
indented deeper than the collection. Nodes stand in two places: behind an indicator, where a
collection may begin on the same line, and behind the colon of a key, where it must begin on a line
of its own. The items and entries of a collection are its rows; each begins in the column of the
collection.

`Reads` and `ReadsRow` say this of a piece of text and the tokens that it gives, and the lemmas put
pieces together.

> `reads_block`: a collection from its rows.
> `readsRow_append`: rows one after the other.
> `tokens_of_reads`, `tokens_of_flows`: a node as a document of its own.
-/

namespace RegistryTree.Yaml.Found

open Lexer Scalar

/-- A piece of text gives tokens as a node inside a collection at the column `outer`. `apart` tells
that it stands behind an indicator that is set apart and not behind a key. -/
def Reads (outer : Int) (apart : Bool) (w : List Char) (ts : List Token) : Prop :=
  ∀ (f : Found) (c : Cursor) (n : Nat) (tail : List Char) (found : List Token), f.indent = outer →
    (if apart then (c.column : Int) = outer + 1 else outer < c.column) → GoesTo c w n tail →
    ((n : Int) ≤ outer ∨ (tail = [] ∧ n = 0)) →
    Yields ((f.pushAll ts).lexer (c.skip (w.length + (1 + n))) true none) found →
    Yields (f.lexer c apart none) found

/-- A piece of text gives tokens as rows of a collection at the column `d` that the token `t`
opens. -/
def ReadsRow (t : Token) (d : Nat) (w : List Char) (ts : List Token) : Prop :=
  ∀ (f : Found) (c : Cursor) (n : Nat) (tail : List Char) (found : List Token), f.indent ≤ d →
    c.column = d → GoesTo c w n tail → n ≤ d →
    Yields (((f.openAt t d).pushAll ts).lexer (c.skip (w.length + (1 + n))) true none) found →
    Yields (f.lexer c true none) found

/-- Whether a piece of text is set apart from what stands in front of it. -/
def Led (w : List Char) : Prop := ∀ d ∈ w.head?, isWhiteOrEnd d = true

variable {outer : Int} {apart plain : Bool} {indent d m : Nat} {text w v : List Char}
  {ts us : List Token} {t u : Token}

/-! ## Nodes on a line -/

theorem GoesTo.behind {c : Cursor} {n : Nat} {tail : List Char} (h : GoesTo c (v ++ w) n tail) :
    GoesTo (c.skip v.length) w n tail where
  rest := by
    have hrest := h.rest
    rw [List.append_assoc] at hrest
    exact Cursor.rest_skip_append hrest
  fresh := h.fresh
  ending := by rw [Cursor.ending_skip, h.ending]

theorem skip_append (c : Cursor) (n : Nat) :
    (c.skip v.length).skip (w.length + (1 + n)) = c.skip ((v ++ w).length + (1 + n)) := by
  rw [← Cursor.skip_add, List.length_append, Nat.add_assoc]

/-- Spaces in front of a piece of text that stands on the line. -/
theorem GoesTo.spaces {c : Cursor} {n : Nat} {tail : List Char}
    (h : GoesTo c (List.replicate m ' ' ++ w) n tail) :
    GoesTo (c.skip m) w n tail ∧ (c.skip m).column = c.column + m ∧
      (c.skip m).skip (w.length + (1 + n)) =
        c.skip ((List.replicate m ' ' ++ w).length + (1 + n)) ∧
      c.rest = List.replicate m ' ' ++ (w ++ '\n' :: (List.replicate n ' ' ++ tail)) := by
  have hrest := h.rest
  rw [List.append_assoc] at hrest
  have hbehind := h.behind
  have hend := skip_append (v := List.replicate m ' ') (w := w) c n
  have hskip := Cursor.skip_inline hrest fun x hx => by
    rw [List.eq_of_mem_replicate hx]
    exact isInline_space
  rw [List.length_replicate] at hbehind hend hskip
  exact ⟨hbehind, by rw [hskip], hend, hrest⟩

theorem lt_column_of_place {c : Cursor}
    (h : if apart then (c.column : Int) = outer + 1 else outer < c.column) : outer < c.column := by
  cases apart <;> simp at h <;> omega

theorem fresh_of_writes (h : Writes indent plain text w) (rest : List Char) : Fresh (w ++ rest) := by
  cases h with
  | plain h hstart => exact fresh_of_flows (c := { rest := w ++ rest }) h hstart rfl
  | @quoted quote s t h => exact fresh_cons (by cases quote <;> decide) _

/-- A scalar. One that is written without quotes must stand inside a collection. -/
theorem reads_scalar (h : Writes indent plain text w) (hpos : 0 < indent) (hindent : outer < indent)
    (hplain : plain = true → 0 ≤ outer) :
    Reads outer apart (List.replicate m ' ' ++ w) [.scalar text plain] := by
  intro f c n tail found hf hplace hgo hn hyields
  have hcolumn := lt_column_of_place hplace
  obtain ⟨hbehind, hspaces, hend, hrest⟩ := hgo.spaces
  rw [← hend] at hyields
  refine yields_spaces hrest (fresh_of_writes h _) ?_
  refine yields_scalar h hbehind hpos (by omega) (by omega) (fun hp => ?_) hyields
  have houter := hplain hp
  omega

/-- An empty collection. -/
theorem reads_empty {o e : Char} (h : Brackets o e t u) :
    Reads outer apart (List.replicate m ' ' ++ [o, e]) [t, u] := by
  intro f c n tail found hf hplace hgo hn hyields
  have hcolumn := lt_column_of_place hplace
  obtain ⟨hbehind, hspaces, hend, hrest⟩ := hgo.spaces
  rw [← hend] at hyields
  refine yields_spaces hrest (h.fresh.1 _) ?_
  refine yields_empty h hbehind.rest hbehind.ending (by omega) ?_
  have hfeed := Cursor.rest_skip_append hbehind.rest
  rw [Cursor.skip_add] at hyields
  exact yields_feed hfeed hgo.fresh (passing_saved (by omega) (Cursor.line_le_skip _)) hyields

/-! ## Rows -/

theorem Led.set (h : Led w) (rest : List Char) :
    isWhiteOrEnd ((w ++ '\n' :: rest).headD endMark) = true := by
  cases w with
  | nil => rfl
  | cons d w => exact h d rfl

/-- Where the text goes on behind the end of a line. -/
theorem GoesTo.next {c : Cursor} {n : Nat} {tail : List Char}
    (h : GoesTo c (v ++ '\n' :: (List.replicate d ' ' ++ w)) n tail)
    (hfresh : ∀ rest, Fresh (w ++ rest)) :
    GoesTo c v d (w ++ '\n' :: (List.replicate n ' ' ++ tail)) ∧
      GoesTo (c.skip (v.length + (1 + d))) w n tail ∧
      (c.skip (v.length + (1 + d))).column = d := by
  have hrest := h.rest
  simp only [List.append_assoc, List.cons_append] at hrest
  have hfirst : GoesTo c v d (w ++ '\n' :: (List.replicate n ' ' ++ tail)) :=
    ⟨hrest, hfresh _, h.ending⟩
  refine ⟨hfirst, ⟨by rw [hfirst.feed], h.fresh, by rw [Cursor.ending_skip, h.ending]⟩, by
    rw [hfirst.feed]⟩

theorem skip_next (c : Cursor) (n : Nat) :
    (c.skip (v.length + (1 + d))).skip (w.length + (1 + n)) =
      c.skip ((v ++ '\n' :: (List.replicate d ' ' ++ w)).length + (1 + n)) := by
  rw [← Cursor.skip_add]
  simp only [List.length_append, List.length_cons, List.length_replicate]
  congr 1
  omega

/-- Where the text begins on a line of its own. -/
theorem GoesTo.below {c : Cursor} {n : Nat} {tail : List Char}
    (h : GoesTo c ('\n' :: (List.replicate d ' ' ++ w)) n tail)
    (hfresh : ∀ rest, Fresh (w ++ rest)) :
    GoesTo (c.skip (1 + d)) w n tail ∧ (c.skip (1 + d)).column = d ∧
      (c.skip (1 + d)).skip (w.length + (1 + n)) =
        c.skip (('\n' :: (List.replicate d ' ' ++ w)).length + (1 + n)) ∧
      c.rest = '\n' :: (List.replicate d ' ' ++ (w ++ '\n' :: (List.replicate n ' ' ++ tail))) := by
  obtain ⟨hfirst, hsecond, hcolumn⟩ := GoesTo.next (v := []) h hfresh
  have hend := skip_next (v := []) (d := d) (w := w) c n
  rw [List.length_nil, Nat.zero_add] at hsecond hcolumn hend
  exact ⟨hsecond, hcolumn, hend, hfirst.rest⟩

/-- Rows one after the other. -/
theorem readsRow_append (hv : ReadsRow t d v ts) (hw : ReadsRow t d w us)
    (hfresh : ∀ rest, Fresh (w ++ rest)) :
    ReadsRow t d (v ++ '\n' :: (List.replicate d ' ' ++ w)) (ts ++ us) := by
  intro f c n tail found hf hcolumn hgo hn hyields
  obtain ⟨hfirst, hsecond, hplace⟩ := hgo.next hfresh
  have hopen : ((f.openAt t d).pushAll ts).indent = d := indent_openAt hf
  refine hv f c d _ found hf hcolumn hfirst (Nat.le_refl d) ?_
  refine hw _ _ n tail found (Int.le_of_eq hopen) hplace hsecond hn ?_
  rw [openAt_of_eq hopen, pushAll_pushAll, skip_next]
  exact hyields

/-- An item behind its dash. -/
theorem readsRow_dash (h : Reads d true w ts) (hled : Led w) :
    ReadsRow .blockSequenceStart d ('-' :: w) (.blockEntry :: ts) := by
  intro f c n tail found hf hcolumn hgo hn hyields
  have hrest := hgo.rest
  have hbehind := GoesTo.behind (v := ['-']) hgo
  have hplace : c.next.column = d + 1 := by
    rw [Cursor.next_inline hrest (by decide), hcolumn]
  refine yields_dash ⟨hrest, hled.set _, hgo.ending⟩ (by omega) ?_
  rw [hcolumn]
  refine h _ c.next n tail found (indent_openAt hf) ?_ hbehind (Or.inl (by omega)) ?_
  · rw [if_pos rfl, hplace]
    rfl
  · rw [pushAll_pushAll]
    have hskip := skip_append (v := ['-']) (w := w) c n
    exact hskip ▸ hyields

/-- A key that is not announced, with its value. -/
theorem readsRow_key (hkey : Writes indent plain text v) (hline : ∀ x ∈ v, isInline x = true)
    (hreach : v.length ≤ keyReach) (hindent : d < indent) (h : Reads d false w ts) (hled : Led w) :
    ReadsRow .blockMappingStart d (v ++ ':' :: w) (.key :: .scalar text plain :: .value :: ts) := by
  intro f c n tail found hf hcolumn hgo hn hyields
  have hrest := hgo.rest
  rw [List.append_assoc, List.cons_append] at hrest
  have hcolon : v ++ ':' :: w = (v ++ [':']) ++ w := by simp
  rw [hcolon] at hgo hyields
  have hlength : (v ++ [':']).length = v.length + 1 := by simp
  have hbehind := hgo.behind
  rw [hlength] at hbehind
  -- The key stands on one line, so behind the colon the column has grown by just its length.
  have hplace : (c.skip (v.length + 1)).column = d + (v.length + 1) := by
    have hsplit : c.rest = (v ++ [':']) ++ (w ++ '\n' :: (List.replicate n ' ' ++ tail)) := by
      rw [hrest]
      simp
    have hskip := Cursor.skip_inline hsplit (List.forall_mem_append.2
      ⟨hline, List.all_eq_true.1 rfl⟩)
    rw [hlength] at hskip
    rw [hskip, hcolumn]
  refine yields_key hkey hrest (hled.set _) hgo.ending (by omega) (by omega) (by omega) hline hreach ?_
  rw [hcolumn]
  refine h _ _ n tail found (indent_openAt hf) ?_ hbehind (Or.inl (by omega)) ?_
  · rw [if_neg (by simp), hplace]
    omega
  · rw [pushAll_pushAll, ← hlength, skip_append]
    exact hyields

/-- A key behind a question mark, with its value behind a colon. -/
theorem readsRow_question (hkey : Reads d true v ts) (hledkey : Led v) (h : Reads d true w us)
    (hled : Led w) :
    ReadsRow .blockMappingStart d ('?' :: v ++ '\n' :: (List.replicate d ' ' ++ ':' :: w))
      (.key :: ts ++ .value :: us) := by
  intro f c n tail found hf hcolumn hgo hn hyields
  obtain ⟨hfirst, hsecond, hplace⟩ := hgo.next (w := ':' :: w) (fun _ => fresh_cons (by decide) _)
  -- the key
  have hrest := hfirst.rest
  have hcolumn' : c.next.column = d + 1 := by
    rw [Cursor.next_inline hrest (by decide), hcolumn]
  refine yields_question ⟨hrest, hledkey.set _, hgo.ending⟩ (by omega) ?_
  rw [hcolumn]
  refine hkey _ c.next d _ found (indent_openAt hf) ?_ (GoesTo.behind (v := ['?']) hfirst)
    (Or.inl (Int.le_refl _)) ?_
  · rw [if_pos rfl, hcolumn']
    rfl
  -- the value
  have hopen : ((f.openAt .blockMappingStart d).pushAll ([.key] ++ ts)).indent = d := indent_openAt hf
  have hrest' := hsecond.rest
  have hcolumn'' : (c.skip (('?' :: v).length + (1 + d))).next.column = d + 1 := by
    rw [Cursor.next_inline hrest' (by decide), hplace]
  have hskip : c.next.skip (v.length + (1 + d)) = c.skip (('?' :: v).length + (1 + d)) :=
    skip_append (v := ['?']) c d
  rw [pushAll_pushAll, hskip]
  refine yields_colon ⟨hrest', hled.set _, hsecond.ending⟩ (by omega) ?_
  rw [hplace, openAt_of_eq hopen]
  refine h _ _ n tail found hopen ?_ (GoesTo.behind (v := [':']) hsecond) (Or.inl (by omega)) ?_
  · rw [if_pos rfl, hcolumn'']
    rfl
  · have hskip' := skip_append (v := [':']) (w := w) (c.skip (('?' :: v).length + (1 + d))) n
    rw [pushAll_pushAll, pushAll_pushAll]
    have hend := skip_next (v := '?' :: v) (d := d) (w := ':' :: w) c n
    have hall : (c.skip (('?' :: v).length + (1 + d))).next.skip (w.length + (1 + n)) =
        c.skip (('?' :: v ++ '\n' :: (List.replicate d ' ' ++ ':' :: w)).length + (1 + n)) :=
      hskip'.trans hend
    rw [hall]
    simpa using hyields

/-! ## Collections -/

/-- A collection that its rows open, from the place where they begin. -/
theorem reads_rows (h : ReadsRow t d w ts) (hd : outer < d) (houter : -1 ≤ outer)
    {f : Found} {c : Cursor} {n : Nat} {tail : List Char} {found : List Token} (hf : f.indent = outer)
    (hcolumn : c.column = d) (hgo : GoesTo c w n tail) (hn : (n : Int) ≤ outer ∨ (tail = [] ∧ n = 0))
    (hyields : Yields ((f.pushAll (t :: ts ++ [.blockEnd])).lexer (c.skip (w.length + (1 + n))) true
      none) found) :
    Yields (f.lexer c true none) found := by
  refine h f c n tail found (by omega) hcolumn hgo (by omega) ?_
  have hlt : f.indent < d := by omega
  have hopen : ((f.openAt t d).pushAll ts).indent = d := indent_openAt (by omega)
  have hne : ((f.openAt t d).pushAll ts).indents ≠ [] := by rw [openAt_of_lt hlt]; simp [pushAll]
  have hfeed := hgo.feed
  have hclose := close_openAt (t := t) hlt ts
  rw [← hclose] at hyields
  by_cases hless : n < d
  · refine yields_close (by rw [hfeed]; exact hgo.fresh) ?_ hne hyields
    rw [hopen, hfeed]
    exact Int.ofNat_lt.2 hless
  · -- the outermost collection at the end of the text
    obtain ⟨htail, hzero⟩ : tail = [] ∧ n = 0 := hn.resolve_left (by omega)
    refine yields_close_last (by rw [hfeed, htail]) (by rw [Cursor.ending_skip, hgo.ending])
      (by rw [hfeed, hzero]) (by omega) hne ?_ hyields
    rw [hclose, indent_pushAll]
    omega

/-- A collection that begins on the line. -/
theorem reads_block (h : ReadsRow t d w ts) (houter : -1 ≤ outer) (hd : outer + 1 + m = d)
    (hfresh : ∀ rest, Fresh (w ++ rest)) :
    Reads outer true (List.replicate m ' ' ++ w) (t :: ts ++ [.blockEnd]) := by
  intro f c n tail found hf hplace hgo hn hyields
  rw [if_pos rfl] at hplace
  obtain ⟨hbehind, hspaces, hend, hrest⟩ := hgo.spaces
  rw [← hend] at hyields
  refine yields_spaces hrest (hfresh _) ?_
  exact reads_rows h (by omega) houter hf (by omega) hbehind hn hyields

/-- A collection that begins on a line of its own. -/
theorem reads_block_below (h : ReadsRow t d w ts) (houter : -1 ≤ outer) (hd : outer < d)
    (hfresh : ∀ rest, Fresh (w ++ rest)) :
    Reads outer false ('\n' :: (List.replicate d ' ' ++ w)) (t :: ts ++ [.blockEnd]) := by
  intro f c n tail found hf hplace hgo hn hyields
  obtain ⟨hbehind, hcolumn, hend, hrest⟩ := hgo.below hfresh
  rw [← hend] at hyields
  refine yields_feed hrest (hfresh _) trivial ?_
  exact reads_rows h hd houter hf hcolumn hbehind hn hyields

/-- The items of a sequence that stand in the column of the key in front of them. -/
theorem reads_items_below (h : ReadsRow t d w ts) (hfresh : ∀ rest, Fresh (w ++ rest)) :
    Reads d false ('\n' :: (List.replicate d ' ' ++ w)) ts := by
  intro f c n tail found hf hplace hgo hn hyields
  obtain ⟨hbehind, hcolumn, hend, hrest⟩ := hgo.below hfresh
  rw [← hend] at hyields
  refine yields_feed hrest (hfresh _) trivial ?_
  refine h _ _ n tail found (Int.le_of_eq hf) hcolumn hbehind (by omega) ?_
  rw [openAt_of_eq hf]
  exact hyields

/-! ## Documents -/

/-- A node that is a document of its own, on lines that end. -/
theorem tokens_of_reads (h : Reads (-1) true w ts) :
    Tokens.ofText (w ++ ['\n']) none = ⟨ts ++ [.streamEnd], none⟩ := by
  have hrest : (Cursor.start (w ++ ['\n']) none).rest =
      w ++ '\n' :: (List.replicate 0 ' ' ++ []) := rfl
  have hgo : GoesTo (Cursor.start (w ++ ['\n']) none) w 0 [] :=
    ⟨hrest, fresh_nil, rfl⟩
  have hend : Yields ((({} : Found).pushAll ts).lexer
      ((Cursor.start (w ++ ['\n']) none).skip (w.length + (1 + 0))) true none) _ :=
    yields_end (by rw [hgo.feed]) (by rw [Cursor.ending_skip, hgo.ending]) rfl
  have htokens : (({} : Found).pushAll ts).tokens.reverse = ts := by simp [pushAll]
  rw [htokens] at hend
  exact h {} (Cursor.start (w ++ ['\n']) none) 0 [] _ rfl rfl hgo (Or.inr ⟨rfl, rfl⟩) hend _
    (Nat.lt_add_of_pos_right Nat.two_pos)

/-- A scalar without quotes that is a document of its own, with the mark that ends it. -/
theorem tokens_of_flows (h : Flows indent text w) (hstart : PlainStart text) (hpos : 0 < indent) :
    Tokens.ofText (w ++ '\n' :: "...\n".toList) none =
      ⟨[.scalar text true, .documentEnd, .streamEnd], none⟩ := by
  have hrest : (Cursor.start (w ++ '\n' :: "...\n".toList) none).rest =
      w ++ '\n' :: (List.replicate 0 ' ' ++ "...\n".toList) := rfl
  have hgo : GoesTo (Cursor.start (w ++ '\n' :: "...\n".toList) none) w 0 "...\n".toList :=
    ⟨hrest, fresh_cons (by decide) _, rfl⟩
  have hyields : Yields (({} : Found).lexer (Cursor.start (w ++ '\n' :: "...\n".toList) none) true
      none) [.scalar text true, .documentEnd, .streamEnd] := by
    refine yields_plain h hstart hrest (fun d hd => by cases hd; exact Or.inr rfl) stops_mark hpos
      (by show (-1 : Int) < indent; omega) (by show (-1 : Int) ≤ 0; omega) rfl ?_
    have hfeed := hgo.feed
    rw [Nat.add_zero] at hfeed
    refine yields_passed (by rw [hfeed]; exact hgo.fresh) rfl (isStale_of_line hgo.line_lt) ?_
    exact yields_mark (by rw [hfeed]; rfl) (by rw [Cursor.ending_skip, hgo.ending]) (by rw [hfeed]) rfl
  exact hyields _ (Nat.lt_add_of_pos_right Nat.two_pos)

end RegistryTree.Yaml.Found
