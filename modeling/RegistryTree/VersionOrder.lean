import RegistryTree.Number.Numeral

/-!
# The order of versions

Names of versions are ordered by what their digits stand for. A name is split into text and runs of
digits; texts compare as texts and runs of digits as numbers, from the front on, so that `0.9.0`
comes before `0.10.0`.

> `less_irrefl`: no key is less than itself.
> `sort_perm`: sorting loses nothing.
-/

namespace RegistryTree

open RegistryTree.Number RegistryTree.Text

/-- What a name is ordered by: the text in front of its first digit, then numbers, each with the
text behind it. -/
structure VersionKey where
  lead : List Char
  rest : List (Nat × List Char)
  deriving DecidableEq, Repr

namespace VersionKey

/-- A name split at its runs of digits: the text in front, then runs of digits, each with the text
behind it. -/
def split : List Char → List Char × List (List Char × List Char)
  | [] => ([], [])
  | c :: s =>
    let (lead, rest) := split s
    if isDigit c then
      match lead, rest with
      | [], (digits, text) :: more => ([], (c :: digits, text) :: more)
      | text, more => ([], ([c], text) :: more)
    else (c :: lead, rest)

/-- The number that a run of digits stands for. -/
def number (digits : List Char) : Except NumeralFault Nat :=
  if digitLimit < digits.length then .error (.tooLong digits.length) else .ok (digitsValue digits)

/-- The key of a name. -/
def ofName (name : String) : Except NumeralFault VersionKey := do
  let (lead, rest) := split name.toList
  let rest ← rest.mapM fun (digits, text) => do return (← number digits, text)
  return ⟨lead, rest⟩

/-- Whether one text comes before another, by the numbers of their characters. -/
def textLess : List Char → List Char → Bool
  | _, [] => false
  | [], _ :: _ => true
  | c :: s, d :: t => c.toNat < d.toNat || (c = d && textLess s t)

/-- Whether one sequence of numbers with texts comes before another. -/
def restLess : List (Nat × List Char) → List (Nat × List Char) → Bool
  | _, [] => false
  | [], _ :: _ => true
  | (m, s) :: xs, (n, t) :: ys =>
    m < n || (m = n && (textLess s t || (s = t && restLess xs ys)))

/-- Whether one key comes before another. -/
def less (a b : VersionKey) : Bool :=
  textLess a.lead b.lead || (a.lead = b.lead && restLess a.rest b.rest)

/-- Things in the order of their keys; those with one key stay as they are. -/
def sort {α : Type} (keyOf : α → VersionKey) (xs : List α) : List α :=
  xs.mergeSort fun x y => !(keyOf y).less (keyOf x)

/-- Things in the order of the versions that they are named for. -/
def sortOn {α : Type} (nameOf : α → String) (xs : List α) : Except NumeralFault (List α) := do
  let keyed ← xs.mapM fun x => do return (← ofName (nameOf x), x)
  return (sort (·.1) keyed).map (·.2)

/-- Names in the order of versions. -/
def sortNames (names : List String) : Except NumeralFault (List String) := sortOn id names

theorem textLess_irrefl (s : List Char) : textLess s s = false := by
  induction s with
  | nil => rfl
  | cons c r ih => simp [textLess, ih]

theorem restLess_irrefl (xs : List (Nat × List Char)) : restLess xs xs = false := by
  induction xs with
  | nil => rfl
  | cons x r ih => simp [restLess, textLess_irrefl, ih]

theorem less_irrefl (a : VersionKey) : a.less a = false := by
  simp [less, textLess_irrefl, restLess_irrefl]

theorem sort_perm {α : Type} (keyOf : α → VersionKey) (xs : List α) : (sort keyOf xs).Perm xs :=
  List.mergeSort_perm ..

end VersionKey

end RegistryTree
