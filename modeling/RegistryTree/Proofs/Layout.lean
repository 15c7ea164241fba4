import RegistryTree.Layout
import RegistryTree.Proofs.FileSystem.Walk

/-!
# Names of entries

Every path of the layout is the path of a directory with one name more: a text from a document that
is the name of an entry, and a suffix. With its suffix the text is the name of an entry again.

> `entry_eq`: the path of an entry, or the refusal of its name.
> `isComponent_append`: a name stays the name of an entry behind which a suffix is put.
-/

namespace RegistryTree

namespace Layout

theorem isComponent_iff {value : String} :
    isComponent value = true ↔
      value ≠ "" ∧ value ≠ "." ∧ value ≠ ".." ∧ '\x00' ∉ value.toList ∧ '/' ∉ value.toList := by
  simp only [isComponent, Bool.and_eq_true, decide_eq_true_eq, Bool.not_eq_true',
    List.contains_eq_mem, decide_eq_false_iff_not, and_assoc]

/-- A suffix that can stand behind the name of an entry: none, or one of at least two characters
that neither ends paths nor parts them. -/
structure IsSuffix (suffix : String) : Prop where
  size : suffix = "" ∨ 2 ≤ suffix.length
  null : '\x00' ∉ suffix.toList
  slash : '/' ∉ suffix.toList

theorem isSuffix_empty : IsSuffix "" := ⟨Or.inl rfl, by simp, by simp⟩

theorem isSuffix_package : IsSuffix packageSuffix :=
  ⟨Or.inr (by decide), by decide, by decide⟩

theorem isSuffix_release : IsSuffix releaseSuffix :=
  ⟨Or.inr (by decide), by decide, by decide⟩

theorem isSuffix_definition : IsSuffix definitionSuffix :=
  ⟨Or.inr (by decide), by decide, by decide⟩

/-- Names with two suffixes of one length are different. -/
theorem append_ne_append {suffix suffix' : String} (hlength : suffix.length = suffix'.length)
    (hne : suffix ≠ suffix') (value other : String) : value ++ suffix ≠ other ++ suffix' := by
  intro heq
  have hlist : value.toList ++ suffix.toList = other.toList ++ suffix'.toList := by
    rw [← String.toList_append, ← String.toList_append, heq]
  exact hne (String.toList_inj.1 (List.append_inj' hlist hlength).2)

/-- A name stays the name of an entry when a suffix is put behind it. -/
theorem isComponent_append {value suffix : String} (h : isComponent value = true)
    (hs : IsSuffix suffix) : isComponent (value ++ suffix) = true := by
  rcases hs.size with rfl | hsize
  · rwa [String.append_empty]
  · obtain ⟨hne, -, -, hnull, hslash⟩ := isComponent_iff.1 h
    have hpos : 0 < value.length := by
      rw [Nat.pos_iff_ne_zero]
      exact fun h0 => hne (String.length_eq_zero_iff.1 h0)
    -- the texts that are no names are shorter than a name with a suffix
    have hlong : ∀ s : String, s.length < 3 → value ++ suffix ≠ s := by
      rintro s hshort rfl
      rw [String.length_append] at hshort
      omega
    refine isComponent_iff.2 ⟨hlong _ (by decide), hlong _ (by decide), hlong _ (by decide), ?_, ?_⟩
    · rw [String.toList_append, List.mem_append]
      exact fun hm => hm.elim hnull hs.null
    · rw [String.toList_append, List.mem_append]
      exact fun hm => hm.elim hslash hs.slash

/-- The path of an entry is that of its directory with one name more; a text that is not the name
of an entry is refused. -/
theorem entry_eq {suffix : String} (hs : IsSuffix suffix) (directory : Path)
    (what value : String) :
    entry directory what value suffix =
      if isComponent value then .ok (directory.child (value ++ suffix))
      else .error ⟨what, value⟩ := by
  cases h : isComponent value with
  | true =>
    rw [if_pos rfl]
    exact entry_of_component h (hs.size.imp_right fun hl => ⟨hs.slash, hl⟩)
  | false =>
    rw [if_neg (by simp), entry, component, h]
    rfl

theorem packageRoot_eq (registry : Path) (id : String) :
    packageRoot registry id =
      if isComponent id then .ok (registry.child id) else .error ⟨"package id", id⟩ := by
  rw [packageRoot, entry_eq isSuffix_empty, String.append_empty]

theorem packageFile_eq (root : Path) (id : String) :
    packageFile root id =
      if isComponent id then .ok (root.child (id ++ packageSuffix))
      else .error ⟨"package id", id⟩ :=
  entry_eq isSuffix_package ..

theorem bundleDirectory_eq (root : Path) (version : String) :
    bundleDirectory root version =
      if isComponent version then .ok (root.child version)
      else .error ⟨"CSV version", version⟩ := by
  rw [bundleDirectory, entry_eq isSuffix_empty, String.append_empty]

theorem releaseFile_eq (bundle : Path) (name : String) :
    releaseFile bundle name =
      if isComponent name then .ok (bundle.child (name ++ releaseSuffix))
      else .error ⟨"CSV name", name⟩ :=
  entry_eq isSuffix_release ..

theorem definitionFile_eq (bundle : Path) (name : String) :
    definitionFile bundle name =
      if isComponent name then .ok (bundle.child (name ++ definitionSuffix))
      else .error ⟨"CRD name", name⟩ :=
  entry_eq isSuffix_definition ..

end Layout

end RegistryTree
