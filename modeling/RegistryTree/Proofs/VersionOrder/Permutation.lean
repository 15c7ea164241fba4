import Mathlib.Data.List.Nodup
import RegistryTree.Proofs.VersionOrder.Numbers

/-!
# Sorting what comes in any order

Names with keys of their own are sorted the same in whatever order they come. Names that share a key
are left in the order in which they came, so that this order shows in what is sorted.

> `sort_eq_of_perm`: things with keys of their own are sorted the same.
> `distinct_of_sort_reverse`: things that share a key are not.
> `sortNames_perm_iff`: names are sorted the same in every order when no two have one plain form.
-/

namespace RegistryTree

namespace VersionKey

/-! ## Things and their keys -/

section

variable {α : Type} {keyOf : α → VersionKey} {xs ys : List α}

theorem parts_injective {a b : VersionKey} (h : a.parts = b.parts) : a = b := by
  obtain ⟨lead, rest⟩ := a
  obtain ⟨lead', rest'⟩ := b
  obtain ⟨hlead, hrest⟩ := Prod.mk.inj (toLex_inj.1 h)
  dsimp only at hlead hrest
  rw [hlead, List.map_injective_iff.2 toLex.injective hrest]

/-- Two keys are one when neither is less. -/
theorem eq_of_not_less {a b : VersionKey} (hab : a.less b = false) (hba : b.less a = false) :
    a = b := by
  rw [less_eq_false_iff] at hab hba
  exact parts_injective (le_antisymm hba hab)

/-- Things with keys of their own are sorted the same in whatever order they come. -/
theorem sort_eq_of_perm (h : ys.Perm xs)
    (hdistinct : ∀ x ∈ xs, ∀ y ∈ xs, keyOf x = keyOf y → x = y) :
    sort keyOf ys = sort keyOf xs := by
  have hperm : (sort keyOf ys).Perm (sort keyOf xs) :=
    (sort_perm keyOf ys).trans (h.trans (sort_perm keyOf xs).symm)
  refine List.Perm.eq_of_pairwise ?_ (sort_pairwise keyOf ys) (sort_pairwise keyOf xs) hperm
  intro x y hx hy hxy hyx
  have hmem : x ∈ xs := ((sort_perm keyOf ys).trans h).mem_iff.1 hx
  have hmem' : y ∈ xs := (sort_perm keyOf xs).mem_iff.1 hy
  exact hdistinct x hmem y hmem' (eq_of_not_less hyx hxy)

/-- Two things that share a key stay in the order in which they came. -/
theorem pair_sublist_sort {x y : α} (hkey : keyOf x = keyOf y) (h : [x, y].Sublist xs) :
    [x, y].Sublist (sort keyOf xs) := by
  refine List.pair_sublist_mergeSort (fun a b c hab hbc => ?_) (fun a b => ?_) ?_ h
  · exact not_less_iff.2 ((not_less_iff.1 hab).trans (not_less_iff.1 hbc))
  · rw [Bool.or_eq_true, not_less_iff, not_less_iff]
    exact le_total _ _
  · rw [hkey, less_irrefl]
    rfl

/-- A list without repetition has two of its elements in one order only. -/
theorem not_sublist_swap {x y : α} (hxs : xs.Nodup) (h : [x, y].Sublist xs) :
    ¬ [y, x].Sublist xs := by
  induction xs with
  | nil => cases h
  | cons z rest ih =>
    rw [List.nodup_cons] at hxs
    intro hback
    cases h with
    | cons _ hrest =>
      cases hback with
      | cons _ hback => exact ih hxs.2 hrest hback
      | cons_cons _ hback => exact hxs.1 (hrest.subset (by simp))
    | cons_cons _ hrest =>
      cases hback with
      | cons _ hback => exact hxs.1 (hback.subset (by simp))
      | cons_cons _ hback => exact hxs.1 (hback.subset (by simp))

/-- Things without repetition are sorted the same from behind only when they have keys of their own:
of two that share a key the one in front would come last. -/
theorem distinct_of_sort_reverse (hxs : xs.Nodup) (h : sort keyOf xs.reverse = sort keyOf xs) :
    ∀ x ∈ xs, ∀ y ∈ xs, keyOf x = keyOf y → x = y := by
  suffices hdistinct : (xs.map keyOf).Nodup from (List.nodup_map_iff_inj_on hxs).1 hdistinct
  rw [List.Nodup, List.pairwise_map, List.pairwise_iff_forall_sublist]
  intro x y hpair hkey
  have hback : [y, x].Sublist (sort keyOf xs) := by
    rw [← h]
    exact pair_sublist_sort hkey.symm hpair.reverse
  exact not_sublist_swap ((sort_perm keyOf xs).nodup_iff.2 hxs) (pair_sublist_sort hkey hpair) hback

end

/-! ## Names -/

variable {names names' found : List String}

theorem ofName_eq_keyOf {name : String} {key : VersionKey} (h : ofName name = .ok key) :
    ofName name = .ok (keyOf name) := by
  rw [keyOf, h]
  rfl

theorem keyOf_inj_iff {a b : String} (ha : ofName a = .ok (keyOf a)) (hb : ofName b = .ok (keyOf b)) :
    keyOf a = keyOf b ↔ plainName a = plainName b := ofName_inj_iff ha hb

/-- Names can be sorted when all of them have keys. -/
theorem sortNames_eq_ok_iff : sortNames names = .ok found ↔
    (∀ name ∈ names, ofName name = .ok (keyOf name)) ∧ sort keyOf names = found := by
  constructor
  · intro h
    have hkeys : ∀ name ∈ names, ofName name = .ok (keyOf name) := by
      intro name hname
      simp only [sortNames, sortOn, bind_eq_ok_iff, mapM_eq_ok_iff] at h
      obtain ⟨keyed, hkeyed, -⟩ := h
      obtain ⟨_, -, key, hkey, -⟩ := mem_of_forall₂ hkeyed.flip hname
      exact ofName_eq_keyOf hkey
    exact ⟨hkeys, Except.ok.inj ((sortOn_eq hkeys).symm.trans h)⟩
  · intro h
    obtain ⟨hkeys, rfl⟩ := h
    exact sortOn_eq hkeys

/-- Whether no two of some names have one plain form. -/
def Distinct (names : List String) : Prop :=
  ∀ a ∈ names, ∀ b ∈ names, plainName a = plainName b → a = b

/-- Names of which no two have one plain form are sorted the same in whatever order they come. -/
theorem sortNames_of_perm (hperm : names'.Perm names) (hdistinct : Distinct names)
    (h : sortNames names = .ok found) : sortNames names' = .ok found := by
  obtain ⟨hkeys, rfl⟩ := sortNames_eq_ok_iff.1 h
  refine sortNames_eq_ok_iff.2 ⟨fun name hname => hkeys name (hperm.mem_iff.1 hname), ?_⟩
  refine sort_eq_of_perm hperm fun a ha b hb hkey => ?_
  exact hdistinct a ha b hb ((keyOf_inj_iff (hkeys a ha) (hkeys b hb)).1 hkey)

/-- Names without repetition are sorted the same from behind only when no two have one plain form. -/
theorem distinct_of_sortNames_reverse (hnames : names.Nodup) (h : sortNames names = .ok found)
    (hreverse : sortNames names.reverse = .ok found) : Distinct names := by
  obtain ⟨hkeys, rfl⟩ := sortNames_eq_ok_iff.1 h
  have hsorted := distinct_of_sort_reverse hnames (sortNames_eq_ok_iff.1 hreverse).2
  intro a ha b hb hplain
  exact hsorted a ha b hb ((keyOf_inj_iff (hkeys a ha) (hkeys b hb)).2 hplain)

/-- Names that entries can have, none of them twice, are sorted the same in every order when no two
have one plain form, and only then. -/
theorem sortNames_perm_iff (hnames : names.Nodup)
    (hshort : ∀ name ∈ names, FileSystem.isTooLong name = false) :
    (∀ names' : List String, names'.Perm names → sortNames names' = sortNames names) ↔
      Distinct names := by
  have hkeys : ∀ name ∈ names, ofName name = .ok (keyOf name) := by
    intro name hname
    obtain ⟨key, hkey⟩ := exists_ofName (hshort name hname)
    exact ofName_eq_keyOf hkey
  have hsorted : sortNames names = .ok (sort keyOf names) := sortOn_eq hkeys
  rw [hsorted]
  constructor
  · intro hall
    exact distinct_of_sortNames_reverse hnames hsorted (hall _ (List.reverse_perm names))
  · intro hdistinct names' hperm
    exact sortNames_of_perm hperm hdistinct hsorted

end VersionKey

end RegistryTree
