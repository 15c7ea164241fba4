import RegistryTree.Proofs.Yaml.Scalar.Plain
import RegistryTree.Yaml.Node.Printer
import RegistryTree.Yaml.Token.Lexer

/-!
# Scalars in their place

Which texts come back from what is written for them depends on the style that is chosen, and that on
the place. Without quotes every text does. Between apostrophes the control character that ends a
line comes back as a line feed. Between quotation marks a key may become too long for a key that is
not announced, and a text in the depth of many collections may lose a space behind an escape.

> `writeScalar_faithful`: what is written for a text that comes back.
> `writeScalar_line`: a key is written on one line, and how long it is.
-/

namespace RegistryTree.Yaml.Scalar

/-- The column at which the further lines of a scalar begin. -/
def columnIn (indent : Option Nat) : Nat :=
  match indent with
  | some n => n + 2
  | none => 2

/-- The number of characters of a text between quotation marks on one line. -/
def quotedLength (s : List Char) : Nat :=
  (s.flatMap fun c => if needsEscape c then escapeOf c else [c]).length + 2

/-- Whether a text comes back from what is written for it in its place. -/
def faithfulText (place : Place) (indent : Option Nat) (s : List Char) : Bool :=
  match chooseStyle place .str s with
  | .single => !s.contains '\u0085'
  | .double =>
    if place = .key then quotedLength s ≤ keyReach
    else columnIn indent < width || !escapeMeetsSpace s.tail
  | _ => true

/-- What is written for a text as a scalar, and whether it is written without quotes. -/
inductive Writes (indent : Nat) : Bool → List Char → List Char → Prop
  | plain {s t : List Char} (h : Flows indent s t) (hstart : PlainStart s) : Writes indent true s t
  | quoted {quote : Quote} {s t : List Char} (h : Spells quote s t) :
      Writes indent false s (quote.char :: (t ++ [quote.char]))

theorem Writes.clean {indent : Nat} {plain : Bool} {s t : List Char} (h : Writes indent plain s t) :
    ∀ c ∈ t, isClean c = true := by
  cases h with
  | plain h _ => exact h.clean
  | @quoted quote s t h =>
    have hquote : isClean quote.char = true := by cases quote <;> decide
    exact List.forall_mem_cons.2 ⟨hquote, List.forall_mem_append.2 ⟨h.clean, by simpa using hquote⟩⟩

variable {place : Place} {indent : Option Nat} {s : List Char} {p : Sheet} {tag : Tag}
  {split : Bool} {column : Nat}

theorem columnIn_pos (indent : Option Nat) : 0 < columnIn indent := by
  cases indent <;> simp [columnIn]

/-! ## The choice of a style -/

theorem chooseStyle_eq (htag : tag ≠ .binary) : chooseStyle place tag s =
    if Form.tagOf s = tag ∧ (Shape.ofText s).plain = true ∧ (place ≠ .key ∨ s ≠ []) then .plain
    else if (Shape.ofText s).single = true ∧ (place ≠ .key ∨ (Shape.ofText s).breaks = false) then
      .single
    else .double := by
  simp [chooseStyle, htag, and_assoc]

/-- What is known of a text that is written without quotes. -/
theorem chooseStyle_plain (htag : tag ≠ .binary) (h : chooseStyle place tag s = .plain) :
    Form.tagOf s = tag ∧ (Shape.ofText s).plain = true := by
  rw [chooseStyle_eq htag] at h
  split at h
  next hplain => exact ⟨hplain.1, hplain.2.1⟩
  next => split at h <;> cases h

/-- What is known of a text that is written between apostrophes. -/
theorem chooseStyle_single (htag : tag ≠ .binary) (h : chooseStyle place tag s = .single) :
    (Shape.ofText s).single = true := by
  rw [chooseStyle_eq htag] at h
  split at h
  · cases h
  · split at h
    next hsingle => exact hsingle.1
    next => cases h

theorem chooseStyle_ne_literal (htag : tag ≠ .binary) : chooseStyle place tag s ≠ .literal := by
  rw [chooseStyle_eq htag]
  split
  · simp
  · split <;> simp

/-- Away from keys the place does not matter. -/
theorem chooseStyle_of_ne_key (h : place ≠ .key) : chooseStyle place tag s = chooseStyle .value tag s := by
  simp [chooseStyle, h]

/-- A key that is not announced is written in the style of a value. -/
theorem chooseStyle_key (hne : s ≠ []) (hbreaks : (Shape.ofText s).breaks = false) :
    chooseStyle .key .str s = chooseStyle .value .str s := by
  simp [chooseStyle, hne, hbreaks]

theorem faithfulText_of_ne_key (h : place ≠ .key) :
    faithfulText place indent s = faithfulText .value indent s := by
  simp only [faithfulText, chooseStyle_of_ne_key h, h, if_false, reduceCtorEq]

/-! ## Writing in a style -/

/-- The number of spaces in front of the next word. -/
def gap (p : Sheet) : Nat := if p.spaced then 0 else 1

theorem text_spaced (p : Sheet) :
    (if p.spaced then p else p.put [' ']).text = p.text ++ List.replicate (gap p) ' ' := by
  rw [gap]
  cases p.spaced with
  | true => simp
  | false => exact Sheet.text_put ..

theorem text_indicator (t : List Char) (spaced block : Bool) :
    (p.indicator t true spaced block).text = p.text ++ (List.replicate (gap p) ' ' ++ t) := by
  rw [Sheet.indicator, Sheet.text_mark, Sheet.text_put, gap]
  cases p.spaced <;> rfl

theorem text_indicator_close (t : List Char) (spaced block : Bool) :
    (p.indicator t false spaced block).text = p.text ++ t := by
  rw [Sheet.indicator, Sheet.text_mark, Sheet.text_put]
  cases p.spaced <;> rfl

theorem indenting_putPlain {k : Nat} (h : p.indenting = false) :
    (putPlain split column k s p).indenting = false := by
  induction s generalizing k p with
  | nil => exact h
  | cons d s ih =>
    rw [putPlain]
    split
    · exact ih h
    · refine ih ?_
      rw [Sheet.indenting_put]
      split
      · rfl
      · exact h

/-- A text in the shape for it is written without quotes. -/
theorem writeScalar_plain (split : Bool) (column : Nat) (p : Sheet)
    (h : (Shape.ofText s).plain = true) (hne : s ≠ []) :
    ∃ t, (writeScalar .plain split column s p).text = p.text ++ (List.replicate (gap p) ' ' ++ t) ∧
      (writeScalar .plain split column s p).indenting = false ∧ Writes column true s t := by
  obtain ⟨t, htext, hflows⟩ := putPlain_spells split column
    (p := (if p.spaced then p else p.put [' ']).mark false false) h hne rfl
  refine ⟨t, ?_, indenting_putPlain rfl, .plain hflows (plainStart_of_plain h)⟩
  rw [writeScalar, htext, Sheet.text_mark, text_spaced, List.append_assoc]

theorem calm_of_single (h : (Shape.ofText s).single = true) : Calm 'x' s := by
  cases s with
  | nil => rfl
  | cons d s => simpa [Calm, Shape.single, Shape.ofText, shapeFrom, isLineEnd] using h

/-- A text in the shape for it is written between apostrophes. -/
theorem writeScalar_single (split : Bool) (p : Sheet) (h : (Shape.ofText s).single = true) (hnext : '\u0085' ∉ s)
    (hcolumn : 0 < column) :
    ∃ t, (writeScalar .single split column s p).text = p.text ++ (List.replicate (gap p) ' ' ++ t) ∧
      (writeScalar .single split column s p).indenting = false ∧ Writes column false s t := by
  have hline : (p.indicator ['\''] true false false).indenting = false := by
    simp [Sheet.indicator, Sheet.mark]
  obtain ⟨t, htext, hspells⟩ := putSingle_spells split true .none
    (p := p.indicator ['\''] true false false) hcolumn (Or.inl hline) trivial (calm_of_single h) hnext
  refine ⟨_, ?_, by simp [writeScalar, Sheet.indicator, Sheet.mark], .quoted hspells⟩
  rw [writeScalar, text_indicator_close, htext, text_indicator]
  simp [Quote.char]

/-- A text is written between quotation marks. -/
theorem writeScalar_double
    (hroom : split = false ∨ column < width ∨ escapeMeetsSpace s.tail = false)
    (hcolumn : 0 < column) :
    ∃ t, (writeScalar .double split column s p).text = p.text ++ (List.replicate (gap p) ' ' ++ t) ∧
      (writeScalar .double split column s p).indenting = false ∧ Writes column false s t := by
  have hline : (p.indicator ['"'] true false false).indenting = false := by
    simp [Sheet.indicator, Sheet.mark]
  obtain ⟨t, htext, hspells, -⟩ := putDouble_whole split (s := s)
    (p := p.indicator ['"'] true false false) hcolumn hline hroom
  refine ⟨_, ?_, by simp [writeScalar, Sheet.indicator, Sheet.mark], .quoted hspells⟩
  rw [writeScalar, text_indicator_close, htext, text_indicator]
  simp [Quote.char]

/-- What is written for a text that comes back. -/
theorem writeScalar_faithful (h : faithfulText place indent s = true) :
    ∃ t plain, (writeScalar (chooseStyle place .str s) (place ≠ .key) (columnIn indent) s p).text =
        p.text ++ (List.replicate (gap p) ' ' ++ t) ∧
      (writeScalar (chooseStyle place .str s) (place ≠ .key) (columnIn indent) s p).indenting = false ∧
      plain = decide (chooseStyle place .str s = .plain) ∧ Writes (columnIn indent) plain s t := by
  rw [faithfulText] at h
  cases hstyle : chooseStyle place .str s with
  | plain =>
    obtain ⟨htag, hshape⟩ := chooseStyle_plain (by simp) hstyle
    have hne : s ≠ [] := by
      rintro rfl
      rw [Form.tagOf_empty] at htag
      cases htag
    obtain ⟨t, htext, hline, hwrites⟩ := writeScalar_plain (place ≠ .key)
      (columnIn indent) p hshape hne
    exact ⟨t, true, htext, hline, by simp, hwrites⟩
  -- With apostrophes or quotation marks the width of the line decides whether what is folded comes
  -- back.
  | single =>
    rw [hstyle] at h
    obtain ⟨t, htext, hline, hwrites⟩ := writeScalar_single (place ≠ .key) p
      (chooseStyle_single (by simp) hstyle) (by simpa using h) (columnIn_pos indent)
    exact ⟨t, false, htext, hline, by simp, hwrites⟩
  | double =>
    rw [hstyle] at h
    have hroom : (decide (place ≠ .key)) = false ∨ columnIn indent < width ∨
        escapeMeetsSpace s.tail = false := by
      by_cases hkey : place = .key
      · exact Or.inl (by simp [hkey])
      · simpa [hkey] using h
    obtain ⟨t, htext, hline, hwrites⟩ := writeScalar_double (p := p) hroom (columnIn_pos indent)
    exact ⟨t, false, htext, hline, by simp, hwrites⟩
  | literal => exact absurd hstyle (chooseStyle_ne_literal (by simp))

/-! ## Keys -/

theorem shapeFrom_breaks (before : Char) (s : List Char) :
    (shapeFrom before s).breaks = s.any isLineEnd := by
  induction s generalizing before with
  | nil => rfl
  | cons d s ih => simp [shapeFrom, ih, Bool.or_comm]

theorem shapeFrom_special (before : Char) (s : List Char) :
    (shapeFrom before s).special = s.any fun d => !isWritable d := by
  induction s generalizing before with
  | nil => rfl
  | cons d s ih => simp [shapeFrom, ih, Bool.or_comm]

theorem ofText_breaks (s : List Char) : (Shape.ofText s).breaks = s.any isLineEnd := by
  cases s with
  | nil => rfl
  | cons d s => simp [Shape.ofText, shapeFrom_breaks, Bool.or_comm]

theorem ofText_special (s : List Char) :
    (Shape.ofText s).special = s.any fun d => !isWritable d := by
  cases s with
  | nil => rfl
  | cons d s => simp [Shape.ofText, shapeFrom_special, Bool.or_comm]

/-- A text of one line that needs no escapes stays within the line. -/
theorem isInline_of_shape (hbreaks : (Shape.ofText s).breaks = false)
    (hspecial : (Shape.ofText s).special = false) : ∀ d ∈ s, isInline d = true := by
  rw [ofText_breaks, List.any_eq_false] at hbreaks
  rw [ofText_special, List.any_eq_false] at hspecial
  intro d hd
  exact isInline_of_isClean (isClean_of_isWritable (by simpa using hspecial d hd))
    (by simpa using hbreaks d hd)

theorem isInline_of_not_needsEscape {c : Char} (h : needsEscape c = false) : isInline c = true := by
  have hne : ∀ d, needsEscape d = true → c ≠ d := by
    intro d hd heq
    rw [heq, hd] at h
    cases h
  refine isInline_of_isClean (isClean_of_not_needsEscape h) ?_
  simp [isLineEnd, hne '\n' (by decide), hne '\u0085' (by decide), hne '\u2028' (by decide),
    hne '\u2029' (by decide)]

theorem length_doubled (s : List Char) :
    (s.flatMap fun c => if c = '\'' then ['\'', '\''] else [c]).length ≤ 2 * s.length := by
  induction s with
  | nil => simp
  | cons d s ih =>
    rw [List.flatMap_cons, List.length_append, List.length_cons]
    split <;> simp only [List.length_cons, List.length_nil] <;> omega

/-- A text stays on one line between its quotes when what its characters are written as does. -/
theorem isInline_between {quote : Char} {f : Char → List Char} (hquote : isInline quote = true)
    (h : ∀ c ∈ s, ∀ d ∈ f c, isInline d = true) :
    ∀ d ∈ quote :: (s.flatMap f ++ [quote]), isInline d = true := by
  refine List.forall_mem_cons.2 ⟨hquote, List.forall_mem_append.2 ⟨fun d hd => ?_, by simpa using hquote⟩⟩
  obtain ⟨c, hc, hd⟩ := List.mem_flatMap.1 hd
  exact h c hc d hd

/-- The length of a key that is not announced, and its line. -/
theorem writeScalar_line {t : List Char} (h : faithfulText .key indent s = true)
    (hlength : 5 + s.length < keyWidth) (hbreaks : (Shape.ofText s).breaks = false)
    (htext : (writeScalar (chooseStyle .key .str s) false column s p).text =
      p.text ++ (List.replicate (gap p) ' ' ++ t)) :
    (∀ d ∈ t, isInline d = true) ∧ t.length ≤ keyReach := by
  -- A key has to stand on one line within the reach of the reader; quotes and escapes can make it
  -- longer than its text.
  have hshort : s.length < 123 := by
    simp only [keyWidth] at hlength
    omega
  rw [faithfulText] at h
  cases hstyle : chooseStyle .key .str s with
  | plain =>
    rw [hstyle, writeScalar, putPlain_line, Sheet.text_mark, text_spaced, List.append_assoc] at htext
    obtain rfl : s = t := by simpa using htext
    have hshape := (chooseStyle_plain (by simp) hstyle).2
    have hspecial : (Shape.ofText s).special = false := by
      simp only [Shape.plain, Bool.and_eq_true, Bool.not_eq_true'] at hshape
      exact hshape.1.1.1.2
    refine ⟨isInline_of_shape hbreaks hspecial, ?_⟩
    rw [keyReach]
    omega
  | single =>
    have hends : ∀ d ∈ s, isLineEnd d = false := by
      rw [ofText_breaks, List.any_eq_false] at hbreaks
      simpa using hbreaks
    rw [hstyle, writeScalar, text_indicator_close, putSingle_line hends (by simp),
      text_indicator] at htext
    obtain rfl : '\'' :: (s.flatMap (fun c => if c = '\'' then ['\'', '\''] else [c]) ++ ['\'']) = t := by
      simpa [Pending.text] using htext
    have hspecial : (Shape.ofText s).special = false := by
      have hshape := chooseStyle_single (by simp) hstyle
      simp only [Shape.single, Bool.and_eq_true, Bool.not_eq_true'] at hshape
      exact hshape.1.1
    have hinline := isInline_of_shape hbreaks hspecial
    refine ⟨isInline_between (by decide) fun e he d hd => ?_, ?_⟩
    · split at hd
      next hquote => simp only [List.mem_cons, List.not_mem_nil, or_false, or_self] at hd; rw [hd]; decide
      next hquote => rw [List.mem_singleton.1 hd]; exact hinline e he
    · have hdoubled := length_doubled s
      rw [keyReach, List.length_cons, List.length_append, List.length_singleton]
      omega
  | double =>
    rw [hstyle] at h
    rw [hstyle, writeScalar, text_indicator_close, putDouble_line, text_indicator] at htext
    obtain rfl : '"' :: (s.flatMap (fun c => if needsEscape c then escapeOf c else [c]) ++ ['"']) = t := by
      simpa using htext
    refine ⟨isInline_between (by decide) fun e _ d hd => ?_, ?_⟩
    · split at hd
      next => exact isInline_escapeOf e d hd
      next hraw => rw [List.mem_singleton.1 hd]; exact isInline_of_not_needsEscape (by simpa using hraw)
    · have hreach : quotedLength s ≤ keyReach := by simpa using h
      rw [quotedLength] at hreach
      rw [List.length_cons, List.length_append, List.length_singleton]
      omega
  | literal => exact absurd hstyle (chooseStyle_ne_literal (by simp))

end RegistryTree.Yaml.Scalar
