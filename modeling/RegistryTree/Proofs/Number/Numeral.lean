import Mathlib.Algebra.Group.Nat.Defs
import Mathlib.Data.List.Basic
import Mathlib.Data.List.TakeWhile
import RegistryTree.Number.Numeral

/-!
# Numerals are read back

The numeral that is written for a whole number is read as the number: it consists of digits, with a
minus in front of a negative number, and has no zeros that could be left out. A hexadecimal numeral
has a fixed width, and is read as the number when it is wide enough.

> `hexRead?_hexNumeral`: a hexadecimal numeral that is wide enough is read as the number.
> `readInteger_toDigits`: the numeral of a natural number is read as the number.
> `integerText?_eq_some_iff`: the numerals of whole numbers.
-/

namespace RegistryTree

/-! ## Hexadecimal numerals -/

namespace Text

theorem hexValue?_hexDigit (letters : LetterCase) :
    ∀ n < 16, hexValue? (hexDigit letters n) = some n := by
  cases letters <;> decide

theorem length_hexNumeral (letters : LetterCase) (width n : Nat) :
    (hexNumeral letters width n).length = width := by
  induction width generalizing n with
  | zero => rfl
  | succ w ih => simp [hexNumeral, ih]

/-- A numeral reads back as the number, when it is wide enough. -/
theorem hexRead?_hexNumeral (letters : LetterCase) {width n : Nat} (h : n < 16 ^ width) :
    hexRead? (hexNumeral letters width n) = some n := by
  induction width generalizing n with
  | zero =>
    obtain rfl : n = 0 := by simpa using h
    rfl
  | succ w ih =>
    have hfront : n / 16 < 16 ^ w := by
      rw [Nat.div_lt_iff_lt_mul (by decide)]
      rwa [Nat.pow_succ] at h
    have hdigit := hexValue?_hexDigit letters (n % 16) (Nat.mod_lt _ (by decide))
    have hread := ih hfront
    rw [hexRead?] at hread
    rw [hexRead?, hexNumeral, List.foldlM_append, hread]
    simp only [Option.bind_eq_bind, Option.bind_some, List.foldlM_cons, List.foldlM_nil, hdigit,
      Option.map_some, Nat.div_add_mod]
    rfl

end Text

/-! ## Decimal numerals -/

namespace Number

open RegistryTree.Text

variable {c : Char} {ds : List Char} {n : Nat}

theorem eq_digitChar_of_isDigit (h : c.isDigit = true) : ∃ d < 10, c = Nat.digitChar d := by
  simp only [Char.isDigit, Bool.and_eq_true, decide_eq_true_eq, ge_iff_le, UInt32.le_iff_toNat_le] at h
  change 48 ≤ c.toNat ∧ c.toNat ≤ 57 at h
  refine ⟨c.toNat - 48, by omega, Char.toNat_inj.1 ?_⟩
  rw [Nat.toNat_digitChar_of_lt_ten (by omega)]
  omega

/-- What holds of the ten digits. -/
theorem forall_isDigit {p : Char → Prop} (h : ∀ d < 10, p (Nat.digitChar d)) (hc : c.isDigit = true) :
    p c := by
  obtain ⟨d, hd, rfl⟩ := eq_digitChar_of_isDigit hc
  exact h d hd

theorem plainDigit_of_isDigit (h : c.isDigit = true) : plainDigit c = c :=
  forall_isDigit (p := fun c => plainDigit c = c) (by decide) h

theorem surroundsNumeral_of_isDigit (h : c.isDigit = true) : surroundsNumeral c = false :=
  forall_isDigit (p := fun c => surroundsNumeral c = false) (by decide) h

theorem baseDigit?_of_isDigit (h : c.isDigit = true) :
    baseDigit? 10 c = some (c.toNat - '0'.toNat) :=
  forall_isDigit (p := fun c => baseDigit? 10 c = some (c.toNat - '0'.toNat)) (by decide) h

theorem ne_sign_of_isDigit (h : c.isDigit = true) : c ≠ '-' ∧ c ≠ '+' :=
  forall_isDigit (p := fun c => c ≠ '-' ∧ c ≠ '+') (by decide) h

theorem plainNumeral_of_digits (h : ∀ c ∈ ds, c.isDigit = true) : plainNumeral ds = ds := by
  rw [plainNumeral, trimWith_of_ends (fun c hc => surroundsNumeral_of_isDigit (h c (List.mem_of_head? hc)))
    fun c hc => surroundsNumeral_of_isDigit (h c (List.mem_of_getLast? hc))]
  rw [List.map_congr_left fun c hc => plainDigit_of_isDigit (h c hc), List.map_id']

theorem splitSign_of_digits (h : ∀ c ∈ ds, c.isDigit = true) : splitSign ds = (false, ds) := by
  unfold splitSign
  split
  next rest => exact absurd rfl (ne_sign_of_isDigit (h '-' (by simp))).1
  next rest => exact absurd rfl (ne_sign_of_isDigit (h '+' (by simp))).2
  next => rfl

theorem dropBase_ten (s : List Char) : dropBase 10 s = s := by
  unfold dropBase
  split <;> rfl

/-- A run of digits is read as what it stands for. -/
theorem readInteger_of_digits (hdigits : ∀ c ∈ ds, c.isDigit = true) (hne : ds ≠ [])
    (hlength : ds.length ≤ digitLimit) : readInteger 10 ds = .ok (Nat.ofDigitChars 10 ds 0 : Nat) := by
  have htake : ds.takeWhile (fun c => (baseDigit? 10 c).isSome) = ds :=
    List.takeWhile_eq_self_iff.2 fun c hc => by rw [baseDigit?_of_isDigit (hdigits c hc)]; rfl
  have hfold : ∀ n, ds.foldl (fun n c => 10 * n + (baseDigit? 10 c).getD 0) n =
      Nat.ofDigitChars 10 ds n := by
    intro n
    rw [Nat.ofDigitChars_eq_foldl]
    refine List.foldl_ext _ _ _ fun m c hc => ?_
    rw [baseDigit?_of_isDigit (hdigits c hc), Option.getD_some]
  rw [readInteger, plainNumeral_of_digits hdigits, splitSign_of_digits hdigits]
  dsimp only
  rw [dropBase_ten, htake, if_neg (by omega), if_neg (by simp [hne]), hfold]
  rfl

/-- The numeral of a natural number is read as the number. -/
theorem readInteger_toDigits (h : (Nat.toDigits 10 n).length ≤ digitLimit) :
    readInteger 10 (Nat.toDigits 10 n) = .ok (n : Int) := by
  rw [readInteger_of_digits (fun c hc => Nat.isDigit_of_mem_toDigits (by decide) (by decide) hc)
    Nat.toDigits_ne_nil h, Nat.ofDigitChars_ten_toDigits]

/-- Only zero begins with a zero. -/
theorem head?_toDigits (h : (Nat.toDigits 10 n).head? = some '0') : n = 0 := by
  induction n using Nat.strongRecOn with
  | ind n ih =>
    rw [Nat.toDigits_eq_if (by decide)] at h
    split at h
    next => simpa using h
    next hlt =>
      rw [List.head?_append, List.head?_eq_some_head Nat.toDigits_ne_nil, Option.some_or,
        ← List.head?_eq_some_head] at h
      have := ih (n / 10) (by omega) h
      omega

/-- The numerals of whole numbers. -/
theorem integerText?_eq_some_iff {k : Int} {s : List Char} : integerText? k = some s ↔
    (Nat.toDigits 10 k.natAbs).length ≤ digitLimit ∧
      s = if k < 0 then '-' :: Nat.toDigits 10 k.natAbs else Nat.toDigits 10 k.natAbs := by
  rw [integerText?]
  split
  next hlong => simp [Nat.not_le.2 hlong]
  next hshort => simp [Nat.le_of_not_lt hshort, eq_comm]

end Number

end RegistryTree
