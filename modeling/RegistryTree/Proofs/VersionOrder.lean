import Mathlib.Data.Char
import Mathlib.Data.List.Lex
import Mathlib.Data.Prod.Lex
import RegistryTree.Proofs.Except
import RegistryTree.VersionOrder

/-!
# Sorting by versions

Names can be put in the order of versions unless a run of digits in one of them is too long to be
read as a number. Sorting things by their names is the same as sorting the names.

> `ofName_eq_ok_iff`: what the key of a name is, and when it has one.
> `ofName_eq`: a name that is not too long has a key.
> `sortOn_eq`: things whose names have keys are sorted by these keys.
> `sortNames_map`: the names of things are sorted as the things are.
> `less_iff`: keys are ordered by their parts, the first that differ decide.
> `sort_pairwise`: what is sorted is in order.
-/

namespace RegistryTree

namespace VersionKey

open RegistryTree.Number RegistryTree.Text

/-! ## The order of keys -/

theorem textLess_iff {s t : List Char} : textLess s t = true ↔ s < t := by
  induction s generalizing t with
  | nil => cases t <;> simp [textLess]
  | cons c s ih =>
    cases t with
    | nil => simp [textLess]
    | cons d t =>
      rw [textLess, List.cons_lt_cons_iff, ← ih]
      simp [Char.lt_def, UInt32.lt_iff_toNat_lt]

theorem restLess_iff {xs ys : List (Nat × List Char)} :
    restLess xs ys = true ↔ xs.map toLex < ys.map toLex := by
  induction xs generalizing ys with
  | nil => cases ys <;> simp [restLess]
  | cons x xs ih =>
    cases ys with
    | nil => simp [restLess]
    | cons y ys =>
      obtain ⟨m, s⟩ := x
      obtain ⟨n, t⟩ := y
      rw [restLess, List.map_cons, List.map_cons, List.cons_lt_cons_iff, ← ih,
        Prod.Lex.toLex_lt_toLex, toLex_inj]
      simp only [Bool.or_eq_true, Bool.and_eq_true, decide_eq_true_eq, textLess_iff, Prod.mk.injEq]
      grind

/-- The parts of a key, to be compared one after the other. -/
def parts (a : VersionKey) : List Char ×ₗ List (Nat ×ₗ List Char) := toLex (a.lead, a.rest.map toLex)

/-- One key comes before another when its parts do. -/
theorem less_iff {a b : VersionKey} : a.less b = true ↔ a.parts < b.parts := by
  rw [less, parts, parts, Prod.Lex.toLex_lt_toLex, ← textLess_iff, ← restLess_iff]
  simp

theorem not_less_iff {a b : VersionKey} : (!a.less b) = true ↔ b.parts ≤ a.parts := by
  rw [Bool.not_eq_true', ← Bool.not_eq_true, less_iff, not_lt]

/-- What is sorted is in order: nothing comes before what has a lesser key. -/
theorem sort_pairwise {α : Type} (keyOf : α → VersionKey) (xs : List α) :
    (sort keyOf xs).Pairwise fun x y => (keyOf y).less (keyOf x) = false := by
  have htrans : ∀ x y z : α, (!(keyOf y).less (keyOf x)) = true →
      (!(keyOf z).less (keyOf y)) = true → (!(keyOf z).less (keyOf x)) = true := by
    intro x y z hxy hyz
    exact not_less_iff.2 ((not_less_iff.1 hxy).trans (not_less_iff.1 hyz))
  have htotal : ∀ x y : α, (!(keyOf y).less (keyOf x) || !(keyOf x).less (keyOf y)) = true := by
    intro x y
    rw [Bool.or_eq_true, not_less_iff, not_less_iff]
    exact le_total _ _
  have hsorted := List.pairwise_mergeSort htrans htotal xs
  exact hsorted.imp fun h => by simpa using h

/-! ## Names and their keys -/

/-- A text has no more characters than octets. -/
theorem length_toList_le (s : String) : s.toList.length ≤ s.utf8ByteSize := by
  have hlist : ∀ l : List Char, l.length ≤ l.utf8Encode.size := by
    intro l
    induction l with
    | nil => exact Nat.zero_le _
    | cons c rest ih =>
      have hpos := Char.utf8Size_pos c
      rw [List.utf8Encode_cons, ByteArray.size_append, List.utf8Encode_singleton,
        List.size_toByteArray, String.length_utf8EncodeChar, List.length_cons]
      omega
  rw [← String.size_toByteArray, ← String.utf8Encode_toList]
  exact hlist s.toList

/-- The key of a name; a name without a key counts as empty. -/
def keyOf (name : String) : VersionKey := (ofName name).toOption.getD ⟨[], []⟩

/-- No run of digits in a name is longer than the name. -/
theorem length_le_of_mem_split (s : List Char) :
    (∀ e ∈ (split s).2, e.1.length ≤ s.length) := by
  induction s with
  | nil => exact fun e he => by cases he
  | cons c s ih =>
    have hmore : ∀ e ∈ (split s).2, e.1.length ≤ (c :: s).length := fun e he =>
      Nat.le_succ_of_le (ih e he)
    rw [split]
    simp only
    split
    -- A digit lengthens the first run only, and the name is longer by the same digit.
    next =>
      split
      next digits text more heq =>
        rw [heq] at hmore ih
        refine List.forall_mem_cons.2 ⟨?_, fun e he => hmore e (List.mem_cons_of_mem _ he)⟩
        have hfirst := ih _ List.mem_cons_self
        simpa using hfirst
      next => exact List.forall_mem_cons.2 ⟨by simp, hmore⟩
    next => exact hmore

/-- The key of a name is made of its pieces, each run of digits as the number that it stands for; a
name has a key when none of its runs is too long. -/
theorem ofName_eq_ok_iff {name : String} {key : VersionKey} : ofName name = .ok key ↔
    (∀ e ∈ (split name.toList).2, e.1.length ≤ digitLimit) ∧
      key = ⟨(split name.toList).1, (split name.toList).2.map fun e => (digitsValue e.1, e.2)⟩ := by
  constructor
  · intro h
    simp only [ofName, bind_eq_ok_iff, mapM_eq_ok_iff] at h
    obtain ⟨rest, hrest, hkey⟩ := h
    -- The reading stops at the first run that is too long, so when it ends every run was short
    -- enough.
    have hall : List.Forall₂ (fun e r => e.1.length ≤ digitLimit ∧ (digitsValue e.1, e.2) = r)
        (split name.toList).2 rest := by
      refine hrest.imp fun e r hr => ?_
      obtain ⟨n, hn, hpair⟩ := hr
      unfold number at hn
      split at hn
      next => cases hn
      next hshort =>
        cases hn
        exact ⟨Nat.le_of_not_lt hshort, Except.ok.inj hpair⟩
    refine ⟨fun e he => ?_, ?_⟩
    · obtain ⟨r, -, hshort, -⟩ := mem_of_forall₂ hall.flip he
      exact hshort
    · have hsame := map_eq_of_forall₂ (g := id) (fun e r hr => hr.2.symm) hall
      rw [← hsame, List.map_id]
      exact (Except.ok.inj hkey).symm
  · intro h
    obtain ⟨hshort, rfl⟩ := h
    simp only [ofName, bind_eq_ok_iff, mapM_eq_ok_iff]
    refine ⟨_, ?_, rfl⟩
    rw [List.forall₂_map_right_iff, List.forall₂_same]
    intro e he
    refine ⟨digitsValue e.1, ?_, rfl⟩
    rw [number, if_neg (Nat.not_lt.2 (hshort e he))]

/-- A name that is not too long has a key. -/
theorem ofName_eq {name : String} (h : name.toList.length ≤ digitLimit) :
    ofName name = .ok (keyOf name) := by
  have hok := ofName_eq_ok_iff.2
    ⟨fun e he => (length_le_of_mem_split name.toList e he).trans h, rfl⟩
  rw [keyOf, hok]
  rfl

variable {α : Type} {nameOf : α → String} {xs : List α}

/-- Things whose names have keys are sorted by these keys. -/
theorem sortOn_eq (h : ∀ x ∈ xs, ofName (nameOf x) = .ok (keyOf (nameOf x))) :
    sortOn nameOf xs = .ok (sort (fun x => keyOf (nameOf x)) xs) := by
  have hkeyed : (xs.mapM fun x => do return (← ofName (nameOf x), x)) =
      .ok (xs.map fun x => (keyOf (nameOf x), x)) := by
    rw [mapM_eq_ok_iff, List.forall₂_map_right_iff, List.forall₂_same]
    intro x hx
    rw [h x hx]
    rfl
  have hsorted : (sort (fun x => keyOf (nameOf x)) xs).map (fun x => (keyOf (nameOf x), x)) =
      sort (·.1) (xs.map fun x => (keyOf (nameOf x), x)) :=
    List.map_mergeSort fun a _ b _ => rfl
  simp only [sortOn, bind_eq_ok_iff]
  refine ⟨_, hkeyed, ?_⟩
  rw [← hsorted, List.map_map]
  simp [pure, Except.pure, Function.comp_def]

/-- Things that were sorted are the same things. -/
theorem sortOn_perm {ys : List α} (h : sortOn nameOf xs = .ok ys) : ys.Perm xs := by
  simp only [sortOn, bind_eq_ok_iff] at h
  obtain ⟨keyed, hkeyed, heq⟩ := h
  have hsame : keyed.map (·.2) = xs := by
    refine (map_eq_of_forall₂ (f := id) (fun x y hxy => ?_) (mapM_eq_ok_iff.1 hkeyed)).trans
      (List.map_id xs)
    obtain ⟨key, -, hpair⟩ := bind_eq_ok_iff.1 hxy
    cases hpair
    rfl
  cases heq
  rw [← hsame]
  exact (sort_perm _ _).map _

/-- The names of things are sorted as the things are. -/
theorem sortNames_map (h : ∀ x ∈ xs, ofName (nameOf x) = .ok (keyOf (nameOf x))) :
    sortNames (xs.map nameOf) = .ok ((sort (fun x => keyOf (nameOf x)) xs).map nameOf) := by
  have hnames : ∀ name ∈ xs.map nameOf, ofName (id name) = .ok (keyOf (id name)) := by
    intro name hname
    obtain ⟨x, hx, rfl⟩ := List.mem_map.1 hname
    exact h x hx
  have hsorted : (sort (fun x => keyOf (nameOf x)) xs).map nameOf =
      sort (fun name => keyOf (id name)) (xs.map nameOf) :=
    List.map_mergeSort fun a _ b _ => rfl
  rw [sortNames, sortOn_eq hnames, hsorted]

end VersionKey

end RegistryTree
