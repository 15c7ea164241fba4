import RegistryTree.Proofs.Number.Numeral
import RegistryTree.Yaml.Scalar.Shape
import RegistryTree.Yaml.Tag.Form

/-!
# The forms of words

The words that are written for nothing, for truth values and for whole numbers have forms that show
what they are. A whole number is a sequence of digits, with a minus in front when it is negative:
it is no word for a truth value, for those begin with letters, and no decimal number, for there is no
point in it.

> `tagOf_null`, `tagOf_bool`, `tagOf_integerText`: the forms of the words.
> `plain_integerText`: a whole number needs no quotes.
-/

namespace RegistryTree.Yaml

open RegistryTree.Number

namespace Form

variable {f g : Form} {fs : List Form} {p : Char → Bool} {s rest : List Char}

/-! ## What forms leave -/

/-- A form leaves an end of the text. -/
def Trims (f : Form) : Prop := ∀ s, ∀ rest ∈ f s, rest <:+ s

/-- What takes nothing leaves the whole text. -/
theorem suffix_of_mem_singleton (h : rest ∈ [s]) : rest <:+ s :=
  List.mem_singleton.1 h ▸ List.suffix_refl rest

theorem trims_one : Trims (one p) := by
  intro s rest h
  cases s with
  | nil => cases h
  | cons c s =>
    rw [one] at h
    split at h
    · rw [List.mem_singleton.1 h]
      exact List.suffix_cons c s
    · cases h

theorem trims_many : Trims (many p) := by
  intro s rest h
  induction s with
  | nil =>
    exact suffix_of_mem_singleton h
  | cons c s ih =>
    rw [many] at h
    split at h
    · rcases List.mem_append.1 h with h | h
      · exact (ih h).trans (List.suffix_cons c s)
      · exact suffix_of_mem_singleton h
    · exact suffix_of_mem_singleton h

theorem Trims.seq (hf : Trims f) (hg : Trims g) : Trims (seq f g) := by
  intro s rest h
  obtain ⟨between, hbetween, hrest⟩ := mem_seq.1 h
  exact (hg _ _ hrest).trans (hf _ _ hbetween)

theorem Trims.opt (hf : Trims f) : Trims (opt f) := by
  intro s rest h
  rcases mem_opt.1 h with h | rfl
  · exact hf _ _ h
  · exact List.suffix_refl _

theorem Trims.star (hf : Trims f) : Trims (star f) := by
  intro s rest h
  rw [Form.star] at h
  generalize s.length = fuel at h
  induction fuel generalizing s with
  | zero =>
    exact suffix_of_mem_singleton h
  | succ fuel ih =>
    rcases List.mem_append.1 h with h | h
    · obtain ⟨between, hbetween, hrest⟩ := List.mem_flatMap.1 h
      exact (ih _ hrest).trans (hf _ _ hbetween)
    · exact suffix_of_mem_singleton h

theorem trims_row (h : ∀ f ∈ fs, Trims f) : Trims (row fs) := by
  induction fs with
  | nil =>
    intro s rest hrest
    exact suffix_of_mem_singleton hrest
  | cons f fs ih =>
    rw [List.forall_mem_cons] at h
    exact h.1.seq (ih h.2)

/-! ## Characters that a form needs -/

/-- A form takes a character with a property. -/
def Needs (p : Char → Bool) (f : Form) : Prop := ∀ s, f s ≠ [] → ∃ c ∈ s, p c = true

theorem needs_one : Needs p (one p) := by
  intro s h
  cases s with
  | nil => exact absurd rfl h
  | cons c s =>
    rw [one] at h
    split at h
    next hc => exact ⟨c, List.mem_cons_self, hc⟩
    next => exact absurd rfl h

/-- A row needs what one of its parts needs. -/
theorem needs_row (front : List Form) {back : List Form} (hfront : ∀ g ∈ front, Trims g) (h : Needs p f) :
    Needs p (row (front ++ f :: back)) := by
  intro s hne
  obtain ⟨rest, hrest⟩ := List.exists_mem_of_ne_nil _ hne
  induction front generalizing s with
  | nil =>
    obtain ⟨between, hbetween, -⟩ := mem_seq.1 hrest
    exact h s (List.ne_nil_of_mem hbetween)
  | cons g front ih =>
    rw [List.forall_mem_cons] at hfront
    obtain ⟨between, hbetween, hrest⟩ := mem_seq.1 hrest
    obtain ⟨c, hc, hp⟩ := ih hfront.2 between (List.ne_nil_of_mem hrest) hrest
    exact ⟨c, (hfront.1 _ _ hbetween).subset hc, hp⟩

theorem needs_alt (h : ∀ f ∈ fs, Needs p f) : Needs p (alt fs) := by
  intro s hne
  obtain ⟨rest, hrest⟩ := List.exists_mem_of_ne_nil _ hne
  obtain ⟨f, hf, hrest⟩ := mem_alt.1 hrest
  exact h f hf s (List.ne_nil_of_mem hrest)

theorem needs_lit {t : String} (h : t.toList.any p = true) : Needs p (lit t) := by
  intro s hne
  rw [lit] at hne
  split at hne
  next hprefix =>
    obtain ⟨c, hc, hp⟩ := List.any_eq_true.1 h
    exact ⟨c, (List.isPrefixOf_iff_prefix.1 hprefix).subset hc, hp⟩
  next => exact absurd rfl hne

/-- A text without what a form needs does not have the form. -/
theorem accepts_of_needs (h : Needs p f) (hs : ∀ c ∈ s, p c = false) : f.accepts s = false := by
  have hnone : f s = [] := by
    by_contra hne
    obtain ⟨c, hc, hp⟩ := h s hne
    rw [hs c hc] at hp
    cases hp
  rw [accepts, hnone]
  rfl

theorem accepts_of_mem (h : [] ∈ f s) : f.accepts s = true :=
  List.any_eq_true.2 ⟨[], h, rfl⟩

theorem nil_mem_many (h : ∀ c ∈ s, p c = true) : [] ∈ many p s := by
  induction s with
  | nil => exact List.mem_singleton.2 rfl
  | cons c s ih =>
    rw [List.forall_mem_cons] at h
    rw [many, if_pos h.1]
    exact List.mem_append_left _ (ih h.2)

/-! ## Words -/

theorem trims_sign : Trims sign := trims_one.opt

theorem trims_sixtyGroup : Trims sixtyGroup :=
  trims_row (by simpa [sixtyGroup] using ⟨trims_one, trims_one.opt, trims_one⟩)

/-- A decimal number has a point. -/
theorem needs_float : Needs (· = '.') float := by
  refine needs_alt ?_
  simp only [List.forall_mem_cons, List.not_mem_nil, false_implies, implies_true, and_true]
  refine ⟨?_, ?_, ?_, ?_, ?_⟩
  · exact needs_row [sign, one digit, many digitOrBar] (by
      simpa using ⟨trims_sign, trims_one, trims_many⟩) needs_one
  · exact needs_row [] (by simp) needs_one
  · exact needs_row [sign, one digit, many digitOrBar, sixtyGroup, star sixtyGroup] (by
      simpa using ⟨trims_sign, trims_one, trims_many, trims_sixtyGroup, trims_sixtyGroup.star⟩) needs_one
  · exact needs_row [sign] (by simpa using trims_sign) needs_one
  · exact needs_row [] (by simp) needs_one

/-- A word for a truth value has a letter. -/
theorem needs_bool : Needs Char.isAlpha (alt (boolWords.map lit)) := by
  refine needs_alt ?_
  intro f hf
  obtain ⟨t, ht, rfl⟩ := List.mem_map.1 hf
  exact needs_lit ((by decide : ∀ t ∈ boolWords, t.toList.any Char.isAlpha = true) t ht)

variable {ds : List Char} {k : Int}

/-- A sign may be taken or there may be none. -/
theorem mem_sign (s : List Char) : s ∈ sign s ∧ s ∈ sign ('-' :: s) :=
  ⟨mem_opt.2 (Or.inr rfl), mem_opt.2 (Or.inl (List.mem_singleton.2 rfl))⟩

/-- A sequence of digits without zeros that could be left out is a whole number. -/
theorem nil_mem_int (hdigits : ∀ c ∈ ds, c.isDigit = true) (hne : ds ≠ [])
    (hzero : ds.head? = some '0' → ds = ['0']) (hs : s = ds ∨ s = '-' :: ds) : [] ∈ int s := by
  refine mem_alt.2 ⟨_, List.mem_cons_of_mem _ (List.mem_cons_of_mem _ List.mem_cons_self), ?_⟩
  refine mem_seq.2 ⟨ds, by rcases hs with rfl | rfl <;> simp [mem_sign], ?_⟩
  refine mem_seq.2 ⟨[], mem_alt.2 ?_, List.mem_singleton.2 rfl⟩
  by_cases h : ds.head? = some '0'
  · rw [hzero h]
    exact ⟨lit "0", List.mem_cons_self, by decide⟩
  · obtain ⟨c, ds, rfl⟩ := List.exists_cons_of_ne_nil hne
    refine ⟨_, List.mem_cons_of_mem _ List.mem_cons_self, mem_seq.2 ⟨ds, ?_, nil_mem_many ?_⟩⟩
    · have hc : c = '0' ∨ ('1' ≤ c && c ≤ '9') = true :=
        forall_isDigit (p := fun c => c = '0' ∨ ('1' ≤ c && c ≤ '9') = true) (by decide)
          (hdigits c List.mem_cons_self)
      rw [one, if_pos (hc.resolve_left fun heq => h (by rw [heq]; rfl))]
      exact List.mem_singleton.2 rfl
    · intro d hd
      rw [digitOrBar, digit, hdigits d (List.mem_cons_of_mem _ hd), Bool.true_or]

/-- The parts of the numeral of a whole number. -/
theorem integerText?_parts (h : integerText? k = some s) :
    ∃ ds : List Char, (∀ c ∈ ds, c.isDigit = true) ∧ ds ≠ [] ∧ (ds.head? = some '0' → ds = ['0']) ∧
      (s = ds ∨ s = '-' :: ds) := by
  obtain ⟨-, rfl⟩ := integerText?_eq_some_iff.1 h
  refine ⟨Nat.toDigits 10 k.natAbs, fun c hc => Nat.isDigit_of_mem_toDigits (by decide) (by decide) hc,
    Nat.toDigits_ne_nil, fun hzero => by rw [head?_toDigits hzero, Nat.toDigits_zero], ?_⟩
  split
  · exact Or.inr rfl
  · exact Or.inl rfl

theorem tagOf_integerText (h : integerText? k = some s) : tagOf s = .int := by
  obtain ⟨ds, hdigits, hne, hzero, hs⟩ := integerText?_parts h
  have hall : ∀ c ∈ s, c.isDigit = true ∨ c = '-' := by
    rcases hs with rfl | rfl
    · exact fun c hc => Or.inl (hdigits c hc)
    · exact List.forall_mem_cons.2 ⟨Or.inr rfl, fun c hc => Or.inl (hdigits c hc)⟩
  have hnone : ∀ c ∈ s, c ≠ '\n' ∧ c.isAlpha = false ∧ decide (c = '.') = false := by
    intro c hc
    rcases hall c hc with hc | rfl
    · exact forall_isDigit
        (p := fun c => c ≠ '\n' ∧ c.isAlpha = false ∧ decide (c = '.') = false) (by decide) hc
    · decide
  rw [tagOf, if_neg fun heq => (hnone '\n' (by simp [heq])).1 rfl,
    if_neg (by simp [accepts_of_needs needs_bool fun c hc => (hnone c hc).2.1]),
    if_neg (by simp [accepts_of_needs needs_float fun c hc => (hnone c hc).2.2]),
    if_pos (accepts_of_mem (nil_mem_int hdigits hne hzero hs))]

theorem tagOf_null : tagOf "null".toList = .null := by
  decide +kernel

theorem tagOf_bool (b : Bool) : tagOf (if b then "true" else "false").toList = .bool := by
  cases b <;> decide +kernel

end Form

namespace Scalar

variable {ds s : List Char} {before : Char} {k : Int}

/-- Digits have no feature that would ask for quotes. -/
theorem shapeFrom_digits (hbefore : isLineEnd before = false ∧ before ≠ ' ')
    (h : ∀ c ∈ ds, c.isDigit = true) : shapeFrom before ds = {} := by
  induction ds generalizing before with
  | nil => simp [shapeFrom, hbefore]
  | cons c ds ih =>
    rw [List.forall_mem_cons] at h
    obtain ⟨hend, hspace, hcolon, hhash, hwritable⟩ :
        isLineEnd c = false ∧ c ≠ ' ' ∧ c ≠ ':' ∧ c ≠ '#' ∧ isWritable c = true :=
      forall_isDigit (p := fun c => isLineEnd c = false ∧ c ≠ ' ' ∧ c ≠ ':' ∧ c ≠ '#' ∧
        isWritable c = true) (by decide) h.1
    simp [shapeFrom, ih ⟨hend, hspace⟩ h.2, looksLikeIndicator, hend, hspace, hcolon, hhash, hwritable,
      hbefore]

/-- A whole number needs no quotes. -/
theorem plain_integerText (h : integerText? k = some s) : (Shape.ofText s).plain = true := by
  obtain ⟨ds, hdigits, hne, -, hs⟩ := Form.integerText?_parts h
  obtain ⟨c, ds, rfl⟩ := List.exists_cons_of_ne_nil hne
  rw [List.forall_mem_cons] at hdigits
  obtain ⟨hstart, hspecial, hwhite, hend, hspace, hwritable⟩ :
      c ∉ startIndicators ∧ (c ≠ '?' ∧ c ≠ ':' ∧ c ≠ '-' ∧ c ≠ '.') ∧
        isWhiteOrEnd c = false ∧ isLineEnd c = false ∧ c ≠ ' ' ∧ isWritable c = true :=
    forall_isDigit (p := fun c => c ∉ startIndicators ∧
      (c ≠ '?' ∧ c ≠ ':' ∧ c ≠ '-' ∧ c ≠ '.') ∧ isWhiteOrEnd c = false ∧ isLineEnd c = false ∧
      c ≠ ' ' ∧ isWritable c = true) (by decide) hdigits.1
  have hdash := hspecial.2.2.1.symm
  have hdot := hspecial.2.2.2.symm
  rcases hs with rfl | rfl
  · simp [Shape.ofText, shapeFrom_digits ⟨hend, hspace⟩ hdigits.2, startsLikeIndicator, hstart, hspecial,
      hend, hspace, hwritable, Shape.plain, List.isPrefixOf, hdash, hdot]
  · have hminus : '-' ∉ startIndicators ∧ isLineEnd '-' = false ∧ isWritable '-' = true := by decide
    have hbehind : shapeFrom '-' (c :: ds) = {} :=
      shapeFrom_digits (by decide) (List.forall_mem_cons.2 hdigits)
    simp [Shape.ofText, hbehind, startsLikeIndicator, hminus, hwhite, Shape.plain, List.isPrefixOf,
      hdash]

end Scalar

end RegistryTree.Yaml
