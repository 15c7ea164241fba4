import RegistryTree.Manifest.Tree
import RegistryTree.Proofs.Manifest.Plan

/-!
# Files that are known by their names

What kind of document a file holds is told by the end of its name. The ends that are used differ, and
those of releases and definitions have one length, so that no name has both.

> `hasSuffix_releaseName`, `hasSuffix_definitionName`: the file of a release is not taken for that of
> a definition, nor the other way round.
> `only_eq_ok_iff`: when there is one name with a suffix.
-/

namespace RegistryTree.Manifest

theorem hasSuffix_iff {suffix name : String} :
    hasSuffix suffix name = true ↔ suffix.toList <:+ name.toList := by
  rw [hasSuffix, List.isSuffixOf_iff_suffix]

theorem hasSuffix_append (name suffix : String) : hasSuffix suffix (name ++ suffix) = true := by
  rw [hasSuffix_iff, String.toList_append]
  exact List.suffix_append ..

/-- A name with a suffix does not have another suffix of that length. -/
theorem hasSuffix_append_other {suffix other : String} (hlength : suffix.length = other.length)
    (hne : suffix ≠ other) (name : String) : hasSuffix other (name ++ suffix) = false := by
  rw [← Bool.not_eq_true, hasSuffix_iff]
  rintro ⟨front, hfront⟩
  refine Layout.append_ne_append hlength hne name (String.ofList front) (String.toList_inj.1 ?_)
  rw [← hfront, String.toList_append, String.toList_ofList]

theorem hasSuffix_releaseName (r : Release) :
    hasSuffix Layout.releaseSuffix (releaseName r) = true ∧
      hasSuffix Layout.definitionSuffix (releaseName r) = false :=
  ⟨hasSuffix_append .., hasSuffix_append_other (by decide) (by decide) r.name⟩

theorem hasSuffix_definitionName (d : Definition) :
    hasSuffix Layout.definitionSuffix (definitionName d) = true ∧
      hasSuffix Layout.releaseSuffix (definitionName d) = false :=
  ⟨hasSuffix_append .., hasSuffix_append_other (by decide) (by decide) d.name⟩

/-! ## Names with a suffix -/

theorem mem_matching {names : List String} {suffix name : String} :
    name ∈ matching names suffix ↔ name ∈ names ∧ hasSuffix suffix name = true := by
  unfold matching
  rw [List.mem_mergeSort, List.mem_filter]

/-- There is one name with a suffix when the names with this suffix are that one. -/
theorem only_eq_ok_iff {p : Path} {names : List String} {suffix name : String} :
    only p names suffix = .ok name ↔ names.filter (hasSuffix suffix) = [name] := by
  have hperm : (matching names suffix).Perm (names.filter (hasSuffix suffix)) :=
    List.mergeSort_perm ..
  have hmatching : matching names suffix = [name] ↔ names.filter (hasSuffix suffix) = [name] := by
    constructor
    · intro h
      rw [h] at hperm
      exact List.perm_singleton.1 hperm.symm
    · intro h
      rw [h] at hperm
      exact List.perm_singleton.1 hperm
  rw [← hmatching]
  unfold only
  split
  next found hfound => simp [hfound]
  next hne =>
    simp only [reduceCtorEq, false_iff]
    exact hne name

end RegistryTree.Manifest
