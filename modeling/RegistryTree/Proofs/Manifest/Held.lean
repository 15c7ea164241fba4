import Mathlib.Data.List.Forall2
import Mathlib.Data.String.Basic
import RegistryTree.Proofs.Manifest.Standing

/-!
# What a bundle holds

A release may own several definitions with one name. They have one file, and it holds the last of
them, so that a bundle holds one definition of each name. What a bundle holds is met in the order of
the names of the files; among the definitions of several bundles the first of each name is kept.

> `find?_keepFirst`, `mem_keepFirst`: of each name the first is kept.
> `find?_heldDefinitions`: what a bundle holds under a name.
> `matching_eq`: the order in which what it holds is met.
-/

namespace RegistryTree.Manifest

/-! ## Definitions with one name -/

/-- Where at most one element is looked for, the one that is found is that one. -/
theorem find?_eq_some_iff_of_unique {α : Type} {f : α → Bool} {xs : List α}
    (h : ∀ x ∈ xs, ∀ y ∈ xs, f x = true → f y = true → x = y) {x : α} :
    xs.find? f = some x ↔ x ∈ xs ∧ f x = true := by
  constructor
  · intro hfind
    exact ⟨List.mem_of_find?_eq_some hfind, List.find?_some hfind⟩
  · intro hgiven
    obtain ⟨hx, hfx⟩ := hgiven
    cases hfind : xs.find? f with
    | none => exact absurd hfx (List.find?_eq_none.1 hfind x hx)
    | some y =>
      rw [h y (List.mem_of_find?_eq_some hfind) x hx (List.find?_some hfind) hfx]

/-- Where no name is had twice, a name leads to the definition that has it. -/
theorem find?_name_eq_some_iff {ds : List Definition} (h : (ds.map (·.name)).Nodup) {name : String}
    {d : Definition} : ds.find? (·.name = name) = some d ↔ d ∈ ds ∧ d.name = name := by
  have hunique : ∀ d ∈ ds, ∀ e ∈ ds, decide (d.name = name) = true →
      decide (e.name = name) = true → d = e := by
    intro d hd e he hdn hen
    refine List.inj_on_of_nodup_map h hd he ?_
    rw [of_decide_eq_true hdn, of_decide_eq_true hen]
  rw [find?_eq_some_iff_of_unique hunique, decide_eq_true_iff]

/-- What is kept of a list of definitions is what was kept before, and of each name that was not,
the first. -/
theorem mem_foldl_keep {ds kept : List Definition} {d : Definition} :
    d ∈ ds.foldl keep kept ↔
      d ∈ kept ∨ (∀ c ∈ kept, c.name ≠ d.name) ∧ ds.find? (·.name = d.name) = some d := by
  induction ds generalizing kept with
  | nil => simp
  | cons c rest ih =>
    rw [List.foldl_cons, ih, List.find?_cons, keep]
    by_cases hknown : kept.any (·.name = c.name) = true
    · rw [if_pos hknown]
      obtain ⟨e, he, hname⟩ := List.any_eq_true.1 hknown
      by_cases hc : c.name = d.name
      · -- of this name something is kept already
        have hnot : ¬ ∀ c ∈ kept, c.name ≠ d.name := fun hall =>
          hall e he (by rw [← hc]; simpa using hname)
        simp [hnot]
      · simp [hc]
    · rw [if_neg hknown]
      have hnew : ∀ e ∈ kept, e.name ≠ c.name := by simpa using hknown
      by_cases hc : c.name = d.name
      -- It is the first of its name, and from now on it keeps out the others.
      · have hnot : ¬ ∀ e ∈ kept ++ [c], e.name ≠ d.name := fun hall => hall c (by simp) hc
        have hfree : ∀ e ∈ kept, e.name ≠ d.name := fun e he => hc ▸ hnew e he
        rw [decide_eq_true hc, List.mem_append, List.mem_singleton]
        constructor
        · intro hgiven
          rcases hgiven with (hd | rfl) | ⟨hall, -⟩
          · exact Or.inl hd
          · exact Or.inr ⟨hfree, rfl⟩
          · exact absurd hall hnot
        · intro hgiven
          rcases hgiven with hd | ⟨-, hd⟩
          · exact Or.inl (Or.inl hd)
          · exact Or.inl (Or.inr (Option.some.inj hd).symm)
      · have hne : d ≠ c := fun he => hc (by rw [he])
        simp [hc, hne, or_imp, forall_and]

theorem mem_keepFirst {ds : List Definition} {d : Definition} :
    d ∈ keepFirst ds ↔ ds.find? (·.name = d.name) = some d := by
  rw [keepFirst, mem_foldl_keep]
  simp

/-- A definition is kept when it is the first of its name. -/
theorem find?_keepFirst (ds : List Definition) (name : String) :
    (keepFirst ds).find? (·.name = name) = ds.find? (·.name = name) := by
  ext d
  rw [find?_name_eq_some_iff (keepFirst_names ds), mem_keepFirst]
  constructor
  · intro hgiven
    obtain ⟨hfind, rfl⟩ := hgiven
    exact hfind
  · intro hfind
    have hname : d.name = name := by simpa using List.find?_some hfind
    subst hname
    exact ⟨hfind, rfl⟩

/-- What is kept of two lists is alike when the lists are, provided that what is alike has one
name. -/
theorem forall₂_keepFirst {R : Definition → Definition → Prop} {ds es : List Definition}
    (hname : ∀ d e, R d e → e.name = d.name) (h : List.Forall₂ R ds es) :
    List.Forall₂ R (keepFirst ds) (keepFirst es) := by
  suffices hall : ∀ kept kept' : List Definition, List.Forall₂ R kept kept' →
      List.Forall₂ R (ds.foldl keep kept) (es.foldl keep kept') from hall [] [] .nil
  induction h with
  | nil => exact fun _ _ hkept => hkept
  | @cons d e ds es hde _ ih =>
    intro kept kept' hkept
    rw [List.foldl_cons, List.foldl_cons]
    refine ih _ _ ?_
    -- Whether a name is known is asked of the names alone.
    have hknown : kept'.any (·.name = e.name) = kept.any (·.name = d.name) := by
      clear ih
      induction hkept with
      | nil => rfl
      | @cons c c' rest rest' hcc _ ihrest =>
        rw [List.any_cons, List.any_cons, ihrest, hname c c' hcc, hname d e hde]
    unfold keep
    rw [hknown]
    split
    next => exact hkept
    next => exact List.rel_append hkept (.cons hde .nil)

/-! ## The definitions of a bundle -/

section

variable {package : Package} {r : Release}

/-- The definitions that the bundle of a release holds, in the order of the names of their files. -/
def heldDefinitions (package : Package) (r : Release) : List Definition :=
  (keepFirst (ownedDefinitions package r).reverse).mergeSort fun a b =>
    !(definitionName b < definitionName a)

theorem heldDefinitions_perm :
    (heldDefinitions package r).Perm (keepFirst (ownedDefinitions package r).reverse) :=
  List.mergeSort_perm ..

theorem nodup_heldDefinitions : ((heldDefinitions package r).map (·.name)).Nodup :=
  (heldDefinitions_perm.map _).nodup_iff.2 (keepFirst_names _)

/-- What a bundle holds under a name is the one of its definitions that has the name. -/
theorem find?_heldDefinitions (name : String) :
    (heldDefinitions package r).find? (·.name = name) = heldDefinition package r name := by
  ext d
  rw [heldDefinition, ← find?_keepFirst (ownedDefinitions package r).reverse,
    find?_name_eq_some_iff nodup_heldDefinitions, find?_name_eq_some_iff (keepFirst_names _),
    heldDefinitions_perm.mem_iff]

theorem mem_heldDefinitions {d : Definition} :
    d ∈ heldDefinitions package r ↔ heldDefinition package r d.name = some d := by
  rw [← find?_heldDefinitions, find?_name_eq_some_iff nodup_heldDefinitions]
  simp

/-- The order in which names are met does not depend on the order in which they are listed. -/
theorem mergeSort_eq_of_perm {xs ys : List String} (h : xs.Perm ys) :
    (xs.mergeSort fun a b => !(b < a)) = ys.mergeSort fun a b => !(b < a) := by
  have hle : ∀ a b : String, (!decide (b < a)) = true ↔ a ≤ b := by
    intro a b
    simp only [Bool.not_eq_true', decide_eq_false_iff_not, not_lt]
  have hsorted : ∀ zs : List String,
      (zs.mergeSort fun a b => !(b < a)).Pairwise fun a b => (!decide (b < a)) = true := by
    refine List.pairwise_mergeSort (fun a b c hab hbc => ?_) fun a b => ?_
    · exact (hle a c).2 (((hle a b).1 hab).trans ((hle b c).1 hbc))
    · rw [Bool.or_eq_true, hle, hle]
      exact le_total a b
  refine List.Perm.eq_of_pairwise (fun a b _ _ hab hba => ?_) (hsorted xs) (hsorted ys)
    (((List.mergeSort_perm ..).trans h).trans (List.mergeSort_perm ..).symm)
  exact le_antisymm ((hle a b).1 hab) ((hle b a).1 hba)

/-- The names of the files of definitions are met in the order in which a bundle holds these, when
they are the names of those that it holds. -/
theorem matching_eq {names : List String} (hnames : names.Nodup)
    (hmem : ∀ name, name ∈ matching names Layout.definitionSuffix ↔
      ∃ d, heldDefinition package r d.name = some d ∧ name = definitionName d) :
    matching names Layout.definitionSuffix = (heldDefinitions package r).map definitionName := by
  have hkept : ((keepFirst (ownedDefinitions package r).reverse).map definitionName).Nodup := by
    have hdistinct := keepFirst_names (ownedDefinitions package r).reverse
    refine List.Nodup.map_on (fun d hd d' hd' heq => ?_) (.of_map _ hdistinct)
    exact List.inj_on_of_nodup_map hdistinct hd hd' (definitionName_eq_iff.1 heq)
  have hperm : (names.filter (hasSuffix Layout.definitionSuffix)).Perm
      ((keepFirst (ownedDefinitions package r).reverse).map definitionName) := by
    refine (List.perm_ext_iff_of_nodup (hnames.filter _) hkept).2 fun name => ?_
    have hin : name ∈ names.filter (hasSuffix Layout.definitionSuffix) ↔
        name ∈ matching names Layout.definitionSuffix := List.mem_mergeSort.symm
    rw [hin, hmem, List.mem_map]
    refine exists_congr fun d => ?_
    rw [← mem_heldDefinitions, heldDefinitions_perm.mem_iff, eq_comm]
  have hsort : (heldDefinitions package r).map definitionName =
      ((keepFirst (ownedDefinitions package r).reverse).map definitionName).mergeSort
        fun a b => !(b < a) := List.map_mergeSort fun _ _ _ _ => rfl
  rw [hsort]
  exact mergeSort_eq_of_perm hperm

end

end RegistryTree.Manifest
