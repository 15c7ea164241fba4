import Mathlib.Data.List.Induction
import RegistryTree.Proofs.Yaml.Scalar.Quoted
import RegistryTree.Proofs.Yaml.Sheet

/-!
# Writing a text between quotes

What is written between quotes spells the text, with two exceptions. Between apostrophes the control
character that ends a line counts as a line feed when it is read, so it may not occur. Between
quotation marks the line may be broken in front of a space that follows an escape, and where the
indentation alone fills the line it is broken once more behind the backslash that should have kept
the space.

> `putSingle_spells`: between apostrophes.
> `putDouble_spells`: between quotation marks.
-/

namespace RegistryTree.Yaml.Scalar

variable {split : Bool} {indent : Nat} {p : Sheet}

/-! ## White space between apostrophes -/

/-- White space that is still to be written. -/
def Pending.text : Pending → List Char
  | .none => []
  | .spaces count _ => List.replicate count ' '
  | .breaks ends => ends.reverse

/-- White space that is pending behind a character. -/
def Pending.Behind (before : Char) : Pending → Prop
  | .none => True
  | .spaces count _ => 0 < count ∧ before = ' '
  | .breaks ends => ends ≠ [] ∧ (∀ c ∈ ends, Cursor.isKeptEnd c = true) ∧ isLineEnd before = true

/-- Whether a line that is to be broken has something in it. -/
def Begun (indent : Nat) (p : Sheet) : Prop := p.indenting = false ∨ indent < p.column

theorem Begun.toColumn (h : Begun indent p) : p.toColumn indent = p.newLine indent := by
  rcases h with hindenting | hcolumn
  · exact Sheet.toColumn_of_content hindenting
  · exact Sheet.toColumn_of_far hcolumn

theorem text_lineBreaks (ends : List Char) (p : Sheet) :
    (ends.foldl (fun p c => p.lineBreak c) p).text = p.text ++ ends := by
  induction ends generalizing p with
  | nil => simp
  | cons c ends ih => rw [List.foldl_cons, ih, Sheet.text_lineBreak, List.append_assoc]; rfl

/-- Line ends are written with the indentation of the line behind them. -/
theorem putBreaks_eq (indent : Nat) {ends : List Char} (hne : ends ≠ []) (p : Sheet) :
    (putBreaks indent ends p).text = p.text ++ (written ends ++ List.replicate indent ' ') ∧
      (putBreaks indent ends p).column = indent := by
  obtain ⟨front, last, rfl⟩ : ∃ front last, ends = front ++ [last] :=
    ⟨_, _, (List.dropLast_append_getLast hne).symm⟩
  have hends : ∀ p : Sheet, (front ++ [last]).foldl (fun p c => p.lineBreak c) p =
      (front.foldl (fun p c => p.lineBreak c) p).lineBreak last := fun p => by
    rw [List.foldl_append]
    rfl
  rw [putBreaks, hends, Sheet.toColumn_lineBreak]
  constructor
  · rw [Sheet.text_mark, Sheet.text_put, Sheet.text_lineBreak, text_lineBreaks, written]
    split
    next hfeed => simp [Sheet.text_lineBreak]
    next hfeed => simp
  · simp [Sheet.mark, Sheet.put, Sheet.lineBreak]

/-- White space that is written in front of another character spells itself. -/
theorem putPending_spells (split : Bool) {before : Char} {pending : Pending} (hindent : 0 < indent)
    (hbegun : Begun indent p) (hpending : pending.Behind before) :
    ∃ gap, (putPending split indent pending p).text = p.text ++ gap ∧
      ((putPending split indent pending p).indenting = false ∨
        indent ≤ (putPending split indent pending p).column) ∧
      ∀ s t, Starts t → Spells .single s t → Spells .single (pending.text ++ s) (gap ++ t) := by
  obtain ⟨n, rfl⟩ : ∃ n, indent = n + 1 := ⟨indent - 1, by omega⟩
  cases pending with
  | none =>
    exact ⟨[], by simp [putPending], hbegun.imp id Nat.le_of_lt, fun s t _ h => h⟩
  | spaces count leading =>
    obtain ⟨k, rfl⟩ : ∃ k, count = k + 1 := ⟨count - 1, by have := hpending.1; omega⟩
    rw [putPending, putSpaces]
    split
    -- A single space may become the end of a line: the reader folds it back.
    next hfold =>
      simp only [Bool.and_eq_true, decide_eq_true_eq] at hfold
      obtain ⟨⟨⟨hone, -⟩, -⟩, -⟩ := hfold
      obtain rfl : k = 0 := by omega
      rw [hbegun.toColumn]
      refine ⟨_, Sheet.text_newLine _ _, Or.inr (by simp), fun s t hstarts h => ?_⟩
      exact .fold n hstarts h
    next =>
      refine ⟨_, Sheet.text_put _ _, ?_, fun s t hstarts h => .spaces k hstarts h⟩
      refine hbegun.imp id fun hcolumn => ?_
      rw [Sheet.column_put]
      omega
  | breaks ends =>
    obtain ⟨hne, hends, -⟩ := hpending
    have hne' : ends.reverse ≠ [] := List.reverse_ne_nil_iff.2 hne
    have hends' : ∀ d ∈ ends.reverse, Cursor.isKeptEnd d = true := by simpa using hends
    obtain ⟨htext, hcolumn⟩ := putBreaks_eq (n + 1) hne' p
    refine ⟨_, htext, Or.inr (Nat.le_of_eq hcolumn.symm), fun s t hstarts h => ?_⟩
    rw [List.append_assoc]
    exact .breaks n hne' hends' hstarts h

/-- White space that is written at the end of a text spells itself. -/
theorem putLastPending_spells {before : Char} {pending : Pending} (hindent : 0 < indent)
    (hpending : pending.Behind before) :
    ∃ t, (putLastPending indent pending p).text = p.text ++ t ∧ Spells .single pending.text t := by
  obtain ⟨n, rfl⟩ : ∃ n, indent = n + 1 := ⟨indent - 1, by omega⟩
  have hstarts : Starts [] := fun c hc => by cases hc
  cases pending with
  | none => exact ⟨[], by simp [putLastPending], .nil _⟩
  | spaces count leading =>
    obtain ⟨k, rfl⟩ : ∃ k, count = k + 1 := ⟨count - 1, by have := hpending.1; omega⟩
    refine ⟨_, Sheet.text_put _ _, ?_⟩
    simpa [Pending.text] using Spells.spaces k hstarts (.nil .single)
  | breaks ends =>
    obtain ⟨hne, hends, -⟩ := hpending
    have hne' : ends.reverse ≠ [] := List.reverse_ne_nil_iff.2 hne
    have hends' : ∀ d ∈ ends.reverse, Cursor.isKeptEnd d = true := by simpa using hends
    obtain ⟨htext, -⟩ := putBreaks_eq (n + 1) hne' p
    refine ⟨_, htext, ?_⟩
    simpa [Pending.text] using Spells.breaks n hne' hends' hstarts (.nil .single)

/-! ## Between apostrophes -/

/-- The features of a text that allow it to stand between apostrophes, behind a character. -/
def Calm (before : Char) (s : List Char) : Prop := (shapeFrom before s).single = true

theorem Calm.of_cons {before c : Char} {s : List Char} (h : Calm before (c :: s)) : Calm c s := by
  simp only [Calm, Shape.single, shapeFrom, Bool.and_eq_true, Bool.not_eq_true',
    Bool.or_eq_false_iff] at h ⊢
  exact ⟨⟨h.1.1.1, h.1.2.1⟩, h.2.1⟩

theorem Calm.head {before c : Char} {s : List Char} (h : Calm before (c :: s)) :
    isWritable c = true ∧ ¬(isLineEnd before = true ∧ c = ' ') ∧
      ¬(before = ' ' ∧ isLineEnd c = true) := by
  simp only [Calm, Shape.single, shapeFrom, Bool.and_eq_true, Bool.not_eq_true',
    Bool.or_eq_false_iff, Bool.and_eq_false_iff, decide_eq_false_iff_not, Bool.not_eq_false'] at h
  obtain ⟨⟨⟨-, hwritable⟩, ⟨-, hspace⟩⟩, ⟨-, hend⟩⟩ := h
  refine ⟨hwritable, fun hand => ?_, fun hand => ?_⟩
  · rcases hspace with hbefore | hc
    · rw [hand.1] at hbefore; cases hbefore
    · exact hc hand.2
  · rcases hend with hbefore | hc
    · exact hbefore hand.1
    · rw [hand.2] at hc; cases hc

theorem isClean_of_isWritable {c : Char} (h : isWritable c = true) : isClean c = true := by
  have hreturn : c ≠ '\r' := by
    intro heq
    subst heq
    exact absurd h (by decide)
  have hmark : c ≠ byteOrderMark := by
    intro heq
    subst heq
    exact absurd h (by decide)
  have hreadable : isReadable c = true := by
    simp only [isWritable, Bool.or_eq_true, Bool.and_eq_true, decide_eq_true_eq] at h
    rcases h with (rfl | hascii) | ⟨hwide, -⟩
    · decide
    · simp only [isReadable, Bool.or_eq_true, Bool.and_eq_true, decide_eq_true_eq]
      omega
    · simp only [isReadable, Bool.or_eq_true, Bool.and_eq_true, decide_eq_true_eq]
      omega
  simp [isClean, hreadable, hreturn, hmark]

theorem not_white_of_isWritable {c : Char} (h : isWritable c = true) (hspace : c ≠ ' ')
    (hend : isLineEnd c = false) : isWhiteOrEnd c = false := by
  have hne : ∀ d, isWritable d = false → c ≠ d := by
    intro d hd heq
    rw [heq, hd] at h
    cases h
  simp [isWhiteOrEnd, isSpaceOrEnd, isBreakOrEnd, isBreak, hspace, hend, hne '\t' (by decide),
    hne endMark (by decide), hne '\r' (by decide)]

theorem isKeptEnd_of_isLineEnd {c : Char} (h : isLineEnd c = true) (hnext : c ≠ '\u0085') :
    Cursor.isKeptEnd c = true := by
  simpa [isLineEnd, Cursor.isKeptEnd, hnext] using h

/-- What is written between apostrophes spells the text. -/
theorem putSingle_spells (split first : Bool) (pending : Pending) {before : Char} {s : List Char}
    (hindent : 0 < indent) (hbegun : Begun indent p) (hpending : pending.Behind before)
    (hcalm : Calm before s) (hnext : '\u0085' ∉ s) :
    ∃ t, (putSingle split indent first pending s p).text = p.text ++ t ∧
      Spells .single (pending.text ++ s) t := by
  induction s generalizing before first pending p with
  | nil =>
    obtain ⟨t, htext, hspells⟩ := putLastPending_spells (p := p) hindent hpending
    exact ⟨t, htext, by simpa using hspells⟩
  | cons c s ih =>
    obtain ⟨hwritable, hspaceEnd, hendSpace⟩ := hcalm.head
    obtain ⟨hc, hs⟩ : c ≠ '\u0085' ∧ '\u0085' ∉ s := by
      simpa [eq_comm] using hnext
    rw [putSingle.eq_def]
    dsimp only
    by_cases hspace : c = ' '
    · -- one more space
      subst hspace
      rw [if_pos rfl]
      cases pending with
      | none => exact ih false (.spaces 1 first) hbegun ⟨by omega, rfl⟩ hcalm.of_cons hs
      | spaces count leading =>
        have hmore := ih false (.spaces (count + 1) leading) hbegun
          ⟨by omega, rfl⟩ hcalm.of_cons hs
        simpa [Pending.text, List.replicate_succ'] using hmore
      | breaks ends => exact absurd ⟨hpending.2.2, rfl⟩ hspaceEnd
    · rw [if_neg hspace]
      by_cases hend : isLineEnd c = true
      · -- one more line end
        have hkept := isKeptEnd_of_isLineEnd hend hc
        rw [if_pos hend]
        cases pending with
        | none =>
          exact ih false (.breaks [c]) hbegun ⟨by simp, by simpa using hkept, hend⟩
            hcalm.of_cons hs
        | spaces count leading => exact absurd ⟨hpending.2, hend⟩ hendSpace
        | breaks ends =>
          have hmore := ih false (.breaks (c :: ends)) hbegun
            ⟨by simp, List.forall_mem_cons.2 ⟨hkept, hpending.2.1⟩, hend⟩ hcalm.of_cons hs
          simpa [Pending.text] using hmore
      · rw [if_neg hend]
        obtain ⟨gap, hgap, hplace, hspells⟩ :=
          putPending_spells split hindent hbegun hpending
        have hwhite := not_white_of_isWritable hwritable hspace (by simpa using hend)
        have hclean := isClean_of_isWritable hwritable
        have hroom : Begun indent ((putPending split indent pending p).put
            (if c = '\'' then ['\'', '\''] else [c])) := by
          refine hplace.imp id fun hcolumn => ?_
          rw [Sheet.column_put]
          split <;> simp <;> omega
        obtain ⟨t, htext, hmore⟩ := ih false .none hroom trivial
          hcalm.of_cons hs
        rw [Sheet.text_put, hgap] at htext
        refine ⟨gap ++ ((if c = '\'' then ['\'', '\''] else [c]) ++ t), by simpa using htext, ?_⟩
        by_cases hquote : c = '\''
        · subst hquote
          exact hspells _ _ (fun d hd => by cases hd; decide) (.apostrophe hmore)
        · rw [if_neg hquote]
          exact hspells _ _ (fun d hd => by cases hd; exact hwhite)
            (.char c hquote (fun h => by cases h) hclean hwhite hmore)

/-! ## Between quotation marks -/

/-- Whether an escape meets a space that is not the last character. -/
def escapeMeetsSpace : List Char → Bool
  | c :: d :: e :: rest => (needsEscape c && d = ' ') || escapeMeetsSpace (d :: e :: rest)
  | _ => false

theorem breakDouble_eq {next : Char} (h : p.indenting = false) :
    (breakDouble indent next p).text = p.text ++
        ('\\' :: '\n' :: (List.replicate indent ' ' ++ if next = ' ' then ['\\'] else [])) ∧
      (breakDouble indent next p).indenting = false ∧
      (breakDouble indent next p).column = indent + if next = ' ' then 1 else 0 := by
  have hput : (p.put ['\\']).indenting = false := h
  rw [breakDouble, Sheet.toColumn_of_content hput]
  split
  next hspace =>
    simp [Sheet.text_put, Sheet.text_mark, Sheet.text_newLine]
    simp [Sheet.mark]
  next hspace =>
    simp [Sheet.text_mark, Sheet.text_newLine, Sheet.text_put]
    simp [Sheet.mark]

theorem not_white_of_not_needsEscape {c : Char} (h : needsEscape c = false) (hspace : c ≠ ' ') :
    isWhiteOrEnd c = false := by
  have hne : ∀ d, needsEscape d = true → c ≠ d := by
    intro d hd heq
    rw [heq, hd] at h
    cases h
  simp [isWhiteOrEnd, isSpaceOrEnd, isBreakOrEnd, isBreak, isLineEnd, hspace, hne '\t' (by decide),
    hne endMark (by decide), hne '\r' (by decide), hne '\n' (by decide), hne '\u0085' (by decide),
    hne '\u2028' (by decide), hne '\u2029' (by decide)]

theorem isClean_of_not_needsEscape {c : Char} (h : needsEscape c = false) : isClean c = true := by
  have hne : ∀ d, needsEscape d = true → c ≠ d := by
    intro d hd heq
    rw [heq, hd] at h
    cases h
  have hreadable : isReadable c = true := by
    simp only [needsEscape, Bool.or_eq_false_iff, Bool.not_eq_false', Bool.or_eq_true,
      Bool.and_eq_true, decide_eq_true_eq] at h
    simp only [isReadable, Bool.or_eq_true, Bool.and_eq_true, decide_eq_true_eq]
    omega
  simp [isClean, hreadable, hne '\r' (by decide), hne byteOrderMark (by decide)]

/-- What begins with white space begins with a space, and so does the text that it spells. -/
def Meets (s t : List Char) : Prop :=
  ∀ c ∈ t.head?, isWhiteOrEnd c = false ∨ (c = ' ' ∧ s.head? = some ' ')

theorem Meets.starts {s t : List Char} (h : Meets s t) (hs : s.head? ≠ some ' ') : Starts t :=
  fun c hc => (h c hc).resolve_right fun hand => hs hand.2

/-- Spaces at the front of a spelling are a whole run. -/
theorem Spells.run {quote : Quote} {s t : List Char} (h : Spells quote s t)
    (hhead : t.head? = some ' ') :
    ∃ k s' t', s = List.replicate (k + 1) ' ' ++ s' ∧ t = List.replicate (k + 1) ' ' ++ t' ∧
      Starts t' ∧ Spells quote s' t' := by
  cases h with
  | spaces k hstarts h => exact ⟨k, _, _, rfl, rfl, hstarts, h⟩
  | nil => cases hhead
  | char d hquote hescape hclean hwhite h =>
    cases hhead
    exact absurd hwhite (by decide)
  | apostrophe h => exact absurd hhead (by simp)
  | escape d h =>
    rw [escapeOf_eq_cons] at hhead
    exact absurd hhead (by simp)
  | keptSpace h => exact absurd hhead (by simp)
  | fold n hstarts h => exact absurd hhead (by simp)
  | breaks n hne hends hstarts h =>
    obtain ⟨d, rest, heq, hd⟩ := written_eq_cons hne hends
    rw [heq] at hhead
    cases hhead
    exact absurd hd (by decide)
  | split n hstarts h => exact absurd hhead (by simp)

/-- A character that needs no escape spells itself. -/
theorem Spells.raw {c : Char} {s t : List Char} (hc : needsEscape c = false) (hmeets : Meets s t)
    (h : Spells .double s t) : Spells .double (c :: s) (c :: t) := by
  by_cases hspace : c = ' '
  · subst hspace
    by_cases hhead : t.head? = some ' '
    · obtain ⟨k, s', t', rfl, rfl, hstarts, h⟩ := h.run hhead
      exact .spaces (k + 1) hstarts h
    · have hstarts : Starts t := fun d hd =>
        (hmeets d hd).resolve_right fun hand => hhead (by rw [← hand.1]; exact hd)
      exact .spaces 0 hstarts h
  · have hne : ∀ d, needsEscape d = true → c ≠ d := by
      intro d hd heq
      rw [heq, hd] at hc
      cases hc
    exact .char c (hne '"' (by decide)) (fun _ => hne '\\' (by decide))
      (isClean_of_not_needsEscape hc) (not_white_of_not_needsEscape hc hspace) h

theorem meets_raw {c : Char} {s t : List Char} (hc : needsEscape c = false) :
    Meets (c :: s) (c :: t) := by
  intro d hd
  cases hd
  by_cases hspace : c = ' '
  · exact Or.inr ⟨hspace, congrArg some hspace⟩
  · exact Or.inl (not_white_of_not_needsEscape hc hspace)

theorem meets_of_starts {s t : List Char} (h : Starts t) : Meets s t := fun c hc => Or.inl (h c hc)

theorem starts_escape (c : Char) (t : List Char) : Starts (escapeOf c ++ t) := by
  rw [escapeOf_eq_cons]
  intro d hd
  cases hd
  decide

theorem escapeMeetsSpace_tail {c : Char} {s : List Char} (h : escapeMeetsSpace (c :: s) = false) :
    escapeMeetsSpace s = false := by
  cases s with
  | nil => rfl
  | cons d s =>
    cases s with
    | nil => rfl
    | cons e s =>
      rw [escapeMeetsSpace, Bool.or_eq_false_iff] at h
      exact h.2

/-- What is written behind what is held back spells a text between quotation marks. -/
def Adds (held s : List Char) (p q : Sheet) : Prop :=
  ∃ t, q.text = p.text ++ (held.reverse ++ t) ∧ Spells .double s t ∧ Meets s t

/-- The step over an escape. -/
theorem Adds.escape {held s : List Char} {q : Sheet} (c : Char)
    (h : Adds [] s ((p.put held.reverse).put (escapeOf c)) q) : Adds held (c :: s) p q := by
  obtain ⟨t, htext, hspells, -⟩ := h
  refine ⟨escapeOf c ++ t, ?_, .escape c hspells, meets_of_starts (starts_escape c t)⟩
  rw [htext, Sheet.text_put, Sheet.text_put]
  simp

/-- The step over a character that is held back. -/
theorem Adds.raw {c : Char} {held s : List Char} {q : Sheet} (hc : needsEscape c = false)
    (h : Adds (c :: held) s p q) : Adds held (c :: s) p q := by
  obtain ⟨t, htext, hspells, hmeets⟩ := h
  exact ⟨c :: t, by simpa using htext, .raw hc hmeets hspells, meets_raw hc⟩

theorem Adds.flush {held s : List Char} {q : Sheet} (h : Adds [] s (p.put held.reverse) q) :
    Adds held s p q := by
  obtain ⟨t, htext, hspells, hmeets⟩ := h
  exact ⟨t, by rw [htext, Sheet.text_put]; simp, hspells, hmeets⟩

theorem Adds.nil (held : List Char) (p : Sheet) : Adds held [] p (p.put held.reverse) :=
  ⟨[], by simp [Sheet.text_put], .nil _, fun c hc => by cases hc⟩

/-- The line may be broken where no space follows. -/
theorem Adds.broken {next : Char} {s : List Char} {q : Sheet} (hindent : 0 < indent)
    (hline : p.indenting = false) (hnext : next ≠ ' ') (hs : s.head? ≠ some ' ')
    (h : Adds [] s (breakDouble indent next p) q) : Adds [] s p q := by
  obtain ⟨n, rfl⟩ : ∃ n, indent = n + 1 := ⟨indent - 1, by omega⟩
  obtain ⟨t, htext, hspells, hmeets⟩ := h
  refine ⟨_, ?_, .split n (hmeets.starts hs) hspells, fun d hd => by cases hd; exact Or.inl (by decide)⟩
  rw [htext, (breakDouble_eq hline).1, if_neg hnext]
  simp

/-- Where the line is broken in front of a space, a backslash keeps the space. -/
theorem Adds.kept {s : List Char} {q : Sheet} (hindent : 0 < indent) (hline : p.indenting = false)
    (h : Adds [' '] s (breakDouble indent ' ' p) q) : Adds [] (' ' :: s) p q := by
  obtain ⟨n, rfl⟩ : ∃ n, indent = n + 1 := ⟨indent - 1, by omega⟩
  obtain ⟨t, htext, hspells, -⟩ := h
  refine ⟨_, ?_, .split n (t := '\\' :: ' ' :: t) (fun d hd => by cases hd; decide) (.keptSpace hspells),
    fun d hd => by cases hd; exact Or.inl (by decide)⟩
  rw [htext, (breakDouble_eq hline).1, if_pos rfl]
  simp

/-- What is written between quotation marks spells the text. -/
theorem putDouble_spells {s held : List Char} (hindent : 0 < indent) (hline : p.indenting = false)
    (hroom : split = false ∨ indent < width ∨ escapeMeetsSpace s = false) :
    Adds held s p (putDouble split indent false held s p) := by
  induction s using List.twoStepInduction generalizing held p with
  | nil => exact .nil held p
  | singleton c =>
    rw [putDouble]
    split
    next hescape => exact .escape c (by simpa [Sheet.put] using Adds.nil [] _)
    next hescape => exact .raw (by simpa using hescape) (.nil _ p)
  | cons_cons c d rest ihspace ih =>
    have htail : split = false ∨ indent < width ∨ escapeMeetsSpace (d :: rest) = false :=
      hroom.imp id (.imp id escapeMeetsSpace_tail)
    rw [putDouble]
    dsimp only
    split
    next hescape =>
      refine .escape c ?_
      split
      next hbreak =>
        have hline' : ((p.put held.reverse).put (escapeOf c)).indenting = false := hline
        by_cases hspace : d = ' '
        · -- the space is kept by a backslash, and the line is not broken again behind that
          subst hspace
          refine .kept hindent hline' ?_
          cases rest with
          | nil => exact .nil [' '] _
          | cons e rest =>
            simp only [Bool.not_false, Bool.true_and, Bool.and_eq_true] at hbreak
            have hnarrow : indent < width := by
              rcases hroom with hwhole | hnarrow | hmeet
              · rw [hwhole] at hbreak
                exact absurd hbreak.1 (by simp)
              · exact hnarrow
              · simp [escapeMeetsSpace, hescape] at hmeet
            have hcolumn : (breakDouble indent ' ' _).column = _ := (breakDouble_eq hline').2.2
            have hstay : ¬(((!false && split) && (decide (' ' = ' ') || decide (([] : List Char) = [])) &&
                decide (width < (breakDouble indent ' '
                  ((p.put held.reverse).put (escapeOf c))).column + ([] : List Char).length)) = true) := by
              intro hwide
              simp only [Bool.and_eq_true, decide_eq_true_eq, hcolumn, if_true, List.length_nil] at hwide
              omega
            rw [putDouble]
            dsimp only
            rw [if_neg (by decide), if_neg hstay]
            exact ihspace (breakDouble_eq hline').2.1
              (htail.imp id (.imp id escapeMeetsSpace_tail))
        · refine .broken hindent hline' hspace (by simpa using hspace) ?_
          exact ih d (breakDouble_eq hline').2.1 htail
      next => exact ih d hline htail
    next hescape =>
      have hraw : needsEscape c = false := by simpa using hescape
      split
      next hbreak =>
        have hline' : (p.put held.reverse).indenting = false := hline
        refine .flush ?_
        by_cases hspace : c = ' '
        · subst hspace
          exact .kept hindent hline' (ih d (breakDouble_eq hline').2.1 htail)
        · refine .broken hindent hline' hspace (by simpa using hspace) (.raw hraw ?_)
          exact ih d (breakDouble_eq hline').2.1 htail
      next => exact .raw hraw (ih d hline htail)

/-- The line is never broken behind the first character. -/
theorem putDouble_whole (split : Bool) {s : List Char} (hindent : 0 < indent) (hline : p.indenting = false)
    (hroom : split = false ∨ indent < width ∨ escapeMeetsSpace s.tail = false) :
    Adds [] s p (putDouble split indent true [] s p) := by
  match s with
  | [] => exact .nil [] p
  | [c] =>
    have hspells : Adds [] [c] p (putDouble split indent false [] [c] p) :=
      putDouble_spells hindent hline (Or.inr (Or.inr rfl))
    exact hspells
  | c :: d :: rest =>
    rw [putDouble]
    dsimp only
    split
    next hescape => exact .escape c (putDouble_spells hindent hline hroom)
    next hescape =>
      exact .raw (by simpa using hescape) (putDouble_spells hindent hline hroom)

/-! ## On one line -/

/-- A text between apostrophes that has no line ends and is not broken. -/
theorem putSingle_line {first : Bool} {pending : Pending} {s : List Char}
    (hs : ∀ c ∈ s, isLineEnd c = false) (hpending : ∀ ends, pending ≠ .breaks ends) :
    (putSingle false indent first pending s p).text = p.text ++ (pending.text ++
      s.flatMap fun c => if c = '\'' then ['\'', '\''] else [c]) := by
  induction s generalizing first pending p with
  | nil =>
    cases pending with
    | none => simp [putSingle, putLastPending, Pending.text]
    | spaces count leading => simp [putSingle, putLastPending, Pending.text, Sheet.text_put]
    | breaks ends => exact absurd rfl (hpending ends)
  | cons c s ih =>
    obtain ⟨hc, htail⟩ := List.forall_mem_cons.1 hs
    rw [putSingle.eq_def]
    dsimp only
    by_cases hspace : c = ' '
    -- A space is only held back, to be written with the character behind it.
    · subst hspace
      rw [if_pos rfl]
      cases pending with
      | none => rw [ih htail (by simp)]; rfl
      | spaces count leading =>
        rw [ih htail (by simp)]
        simp [Pending.text, List.replicate_succ']
      | breaks ends => exact absurd rfl (hpending ends)
    · rw [if_neg hspace, if_neg (by simp [hc]), ih htail (by simp), Sheet.text_put]
      cases pending with
      | none => simp [putPending, Pending.text]
      | spaces count leading => simp [putPending, putSpaces, Pending.text, Sheet.text_put]
      | breaks ends => exact absurd rfl (hpending ends)

/-- A text between quotation marks that is not broken. -/
theorem putDouble_line {first : Bool} {held s : List Char} :
    (putDouble false indent first held s p).text = p.text ++ (held.reverse ++
      s.flatMap fun c => if needsEscape c then escapeOf c else [c]) := by
  induction s generalizing first held p with
  | nil => simp [putDouble, Sheet.text_put]
  | cons c s ih =>
    rw [putDouble.eq_def]
    cases s with
    | nil =>
      dsimp only
      split
      next hescape => simp [hescape, Sheet.text_put]
      next hescape => simp [hescape, Sheet.text_put]
    | cons d s =>
      dsimp only
      split
      next hescape =>
        rw [if_neg (by simp), ih, Sheet.text_put, Sheet.text_put]
        simp [hescape]
      next hescape =>
        rw [if_neg (by simp), ih]
        simp [hescape]

end RegistryTree.Yaml.Scalar
