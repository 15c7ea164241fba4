import RegistryTree.Proofs.Number.Numeral
import RegistryTree.Proofs.VersionOrder

/-!
# How names are split

A name is split into texts and runs of digits in turn: a text in front, then runs of digits, each
with the text behind it. The pieces put together again are the name, and there is only one way to
take a name apart like this.

A name in plain form has its runs of digits written as numbers are written: in ASCII digits, and with
no zeros in front. Two names have one key exactly when they have one plain form, so that `1.0`,
`01.0` and `1.00` stand in no order.

> `ofName_inj_iff`: when two names have one key.
-/

namespace RegistryTree

namespace VersionKey

open RegistryTree.Number RegistryTree.Text

/-! ## Texts and runs of digits in turn -/

/-- The name that is split into a text and runs of digits, each with the text behind it. -/
def joined (pieces : List Char × List (List Char × List Char)) : List Char :=
  pieces.1 ++ pieces.2.flatMap fun e => e.1 ++ e.2

/-- Whether texts and runs of digits come in turn, behind a text: no run is empty, and between two
runs there is some text. -/
def RunsInTurn : List (List Char × List Char) → Prop
  | [] => True
  | (digits, text) :: more =>
    (digits ≠ [] ∧ ∀ c ∈ digits, isDigit c = true) ∧ (∀ c ∈ text, isDigit c = false) ∧
      (text = [] → more = []) ∧ RunsInTurn more

/-- Whether a text and runs of digits, each with the text behind it, are what a name is split into. -/
def InTurn (pieces : List Char × List (List Char × List Char)) : Prop :=
  (∀ c ∈ pieces.1, isDigit c = false) ∧ RunsInTurn pieces.2

/-! ## One character more -/

section

variable {c : Char} {s digits text : List Char} {more : List (List Char × List Char)}

theorem split_cons_text (h : isDigit c = false) :
    split (c :: s) = (c :: (split s).1, (split s).2) := by
  rw [split]
  simp [h]

/-- A digit in front of a run of digits belongs to the run. -/
theorem split_cons_run (h : isDigit c = true) (hs : split s = ([], (digits, text) :: more)) :
    split (c :: s) = ([], (c :: digits, text) :: more) := by
  rw [split, hs]
  simp [h]

/-- A digit in front of anything else is a run of its own. -/
theorem split_cons_digit (h : isDigit c = true) (hs : split s = (text, more))
    (hend : text = [] → more = []) : split (c :: s) = ([], ([c], text) :: more) := by
  rw [split, hs]
  simp only [h, if_true]
  cases text with
  | nil => rw [hend rfl]
  | cons d rest => rfl

end

/-- A name is split into texts and runs of digits in turn, and these put together again are the
name. -/
theorem joined_split_inTurn (s : List Char) : joined (split s) = s ∧ InTurn (split s) := by
  induction s with
  | nil => exact ⟨rfl, List.forall_mem_nil _, trivial⟩
  | cons c s ih =>
    cases hs : split s with
    | mk lead rest =>
      rw [hs] at ih
      obtain ⟨rfl, hlead, hrest⟩ := ih
      by_cases hdigit : isDigit c = true
      · have hnone : ∀ d ∈ ([] : List Char), isDigit d = false := List.forall_mem_nil _
        by_cases hend : lead = [] → rest = []
        · rw [split_cons_digit hdigit hs hend]
          exact ⟨rfl, hnone, ⟨by simp, by simpa using hdigit⟩, hlead, hend, hrest⟩
        · -- the name goes on with a run of digits, and the digit belongs to it
          push Not at hend
          obtain ⟨rfl, hne⟩ := hend
          obtain ⟨⟨digits, text⟩, more, rfl⟩ := List.exists_cons_of_ne_nil hne
          obtain ⟨⟨-, hdigits⟩, hbehind⟩ := hrest
          rw [split_cons_run hdigit hs]
          exact ⟨rfl, hnone, ⟨by simp, List.forall_mem_cons.2 ⟨hdigit, hdigits⟩⟩, hbehind⟩
      · rw [Bool.not_eq_true] at hdigit
        rw [split_cons_text hdigit, hs]
        exact ⟨rfl, List.forall_mem_cons.2 ⟨hdigit, hlead⟩, hrest⟩

/-! ## Texts and runs in front -/

/-- A text without digits goes in front of what the rest is split into. -/
theorem split_text_append {text : List Char} (h : ∀ c ∈ text, isDigit c = false) (s : List Char) :
    split (text ++ s) = (text ++ (split s).1, (split s).2) := by
  induction text with
  | nil => rfl
  | cons c text ih =>
    rw [List.forall_mem_cons] at h
    rw [List.cons_append, split_cons_text h.1, ih h.2]
    rfl

/-- A run of digits stands by itself, when what comes behind it does not begin with a digit. -/
theorem split_digits_append {digits text s : List Char} {more : List (List Char × List Char)}
    (hne : digits ≠ []) (hdigits : ∀ c ∈ digits, isDigit c = true) (hs : split s = (text, more))
    (hend : text = [] → more = []) : split (digits ++ s) = ([], (digits, text) :: more) := by
  induction digits with
  | nil => exact absurd rfl hne
  | cons c digits ih =>
    rw [List.forall_mem_cons] at hdigits
    cases digits with
    | nil => exact split_cons_digit hdigits.1 hs hend
    | cons d rest => exact split_cons_run hdigits.1 (ih (by simp) hdigits.2)

theorem split_runs {more : List (List Char × List Char)} (h : RunsInTurn more) :
    split (more.flatMap fun e => e.1 ++ e.2) = ([], more) := by
  induction more with
  | nil => rfl
  | cons run more ih =>
    obtain ⟨digits, text⟩ := run
    obtain ⟨⟨hne, hdigits⟩, htext, hend, hmore⟩ := h
    have hbehind : split (text ++ more.flatMap fun e => e.1 ++ e.2) = (text, more) := by
      rw [split_text_append htext, ih hmore, List.append_nil]
    rw [List.flatMap_cons, List.append_assoc]
    exact split_digits_append hne hdigits hbehind hend

theorem split_joined {pieces : List Char × List (List Char × List Char)} (h : InTurn pieces) :
    split (joined pieces) = pieces := by
  rw [joined, split_text_append h.1, split_runs h.2, List.append_nil]

/-! ## Plain form -/

theorem digit?_of_isDigit {c : Char} (h : c.isDigit = true) : digit? c = some (c.toNat - '0'.toNat) :=
  forall_isDigit (p := fun c => digit? c = some (c.toNat - '0'.toNat)) (by decide) h

/-- The numeral of a number consists of digits. -/
theorem isDigit_of_mem_toDigits {n : Nat} {c : Char} (h : c ∈ Nat.toDigits 10 n) :
    isDigit c = true := by
  have hc : c.isDigit = true := Nat.isDigit_of_mem_toDigits (by decide) (by decide) h
  rw [isDigit, digit?_of_isDigit hc]
  rfl

/-- The numeral of a number stands for the number. -/
theorem digitsValue_toDigits (n : Nat) : digitsValue (Nat.toDigits 10 n) = n := by
  have hfold : digitsValue (Nat.toDigits 10 n) = Nat.ofDigitChars 10 (Nat.toDigits 10 n) 0 := by
    rw [digitsValue, Nat.ofDigitChars_eq_foldl]
    refine List.foldl_ext _ _ _ fun m c hc => ?_
    have hdigit : c.isDigit = true := Nat.isDigit_of_mem_toDigits (by decide) (by decide) hc
    rw [digit?_of_isDigit hdigit, Option.getD_some]
  rw [hfold, Nat.ofDigitChars_ten_toDigits]

/-- Numbers with the texts behind them, as runs of digits with these texts. -/
def numerals (rest : List (Nat × List Char)) : List (List Char × List Char) :=
  rest.map fun e => (Nat.toDigits 10 e.1, e.2)

theorem numerals_injective {xs ys : List (Nat × List Char)} (h : numerals xs = numerals ys) :
    xs = ys := by
  refine List.map_injective_iff.2 (fun e e' he => ?_) h
  obtain ⟨hdigits, htext⟩ := Prod.mk.inj he
  have hvalue := congrArg digitsValue hdigits
  rw [digitsValue_toDigits, digitsValue_toDigits] at hvalue
  exact Prod.ext hvalue htext

theorem runsInTurn_numerals {runs : List (List Char × List Char)} (h : RunsInTurn runs) :
    RunsInTurn (numerals (runs.map fun e => (digitsValue e.1, e.2))) := by
  induction runs with
  | nil => trivial
  | cons run runs ih =>
    obtain ⟨-, htext, hend, hmore⟩ := h
    refine ⟨⟨Nat.toDigits_ne_nil, fun c hc => isDigit_of_mem_toDigits hc⟩, htext, ?_, ih hmore⟩
    intro hempty
    simp [hend hempty]

/-- A name with its runs of digits written as numbers are written. -/
def plainName (name : String) : List Char :=
  joined ((split name.toList).1,
    numerals ((split name.toList).2.map fun e => (digitsValue e.1, e.2)))

/-- A name in plain form is split as the name is. -/
theorem split_plainName (name : String) : split (plainName name) = ((split name.toList).1,
    numerals ((split name.toList).2.map fun e => (digitsValue e.1, e.2))) := by
  obtain ⟨-, hlead, hrest⟩ := joined_split_inTurn name.toList
  exact split_joined ⟨hlead, runsInTurn_numerals hrest⟩

/-- Two names have one key when they have one plain form. -/
theorem ofName_inj_iff {a b : String} {ka kb : VersionKey} (ha : ofName a = .ok ka)
    (hb : ofName b = .ok kb) : ka = kb ↔ plainName a = plainName b := by
  obtain ⟨-, rfl⟩ := ofName_eq_ok_iff.1 ha
  obtain ⟨-, rfl⟩ := ofName_eq_ok_iff.1 hb
  constructor
  · intro h
    obtain ⟨hlead, hrest⟩ := VersionKey.mk.inj h
    rw [plainName, plainName, hlead, hrest]
  · intro h
    have hsplit := congrArg split h
    rw [split_plainName, split_plainName, Prod.mk.injEq] at hsplit
    rw [hsplit.1, numerals_injective hsplit.2]

/-- Zeros in front, and digits of another script, make no difference. -/
example : plainName "v01.٢" = plainName "v1.02" := by decide

end VersionKey

end RegistryTree
