import RegistryTree.Proofs.Path

/-!
# The entries of the layout

Each path of the layout is made of a directory and a text. The text with a suffix behind it is the
name of an entry of the directory, so that the path goes one step down and nowhere else. A text that
would lead elsewhere is refused before there is a path.

Two entries of a directory are shown by one text just if their names are the same. What keeps them
apart are their suffixes. Behind one suffix different texts stay different, and with two suffixes of
one length no texts meet. A suffix beside none keeps nothing apart: the text may bring the suffix with
it.

> `toText_eq_iff_of_entry`: when two entries of a directory have one path.
> `entries_apart`: the paths of the layout are those of entries, and which of them can meet.
-/

namespace RegistryTree

namespace Layout

/-- Whether a text would lead elsewhere than to an entry of the directory that it is used in. -/
def IsUnsafe (value : String) : Prop :=
  value = "" ∨ value = "." ∨ value = ".." ∨ '\x00' ∈ value.toList ∨ '/' ∈ value.toList

instance (value : String) : Decidable (IsUnsafe value) :=
  inferInstanceAs (Decidable (_ ∨ _))

/-- Whether a function gives the paths of entries of a directory that are named for texts, with a
suffix behind them. -/
structure EntriesIn (directory : Path) (what suffix : String)
    (path : String → Except UnsafeName Path) : Prop where
  /-- Just the texts that would lead elsewhere are refused, and the error has the text. -/
  refused : ∀ value e, path value = .error e ↔ e = ⟨what, value⟩ ∧ IsUnsafe value
  /-- Every other text has a path, with the directory above and the text and the suffix at its end. -/
  placed : ∀ value p, path value = .ok p ↔
    ¬IsUnsafe value ∧ p.parent = directory ∧ p.name = value ++ suffix
  /-- No two texts have paths that are shown alike. -/
  apart : ∀ value other p q, path value = .ok p → path other = .ok q → p.toText = q.toText →
    value = other

variable {directory p q : Path} {what what' value other suffix suffix' : String}

theorem isComponent_eq_false_iff : isComponent value = false ↔ IsUnsafe value := by
  rw [← Bool.not_eq_true, isComponent_iff, IsUnsafe]
  simp only [ne_eq, Classical.not_and_iff_not_or_not, Classical.not_not]

theorem entry_eq_error_iff (hs : IsSuffix suffix) {e : UnsafeName} :
    entry directory what value suffix = .error e ↔ e = ⟨what, value⟩ ∧ IsUnsafe value := by
  rw [entry_eq hs, ← isComponent_eq_false_iff]
  cases isComponent value <;> simp [eq_comm]

theorem entry_eq_ok_iff (hs : IsSuffix suffix) :
    entry directory what value suffix = .ok p ↔
      ¬IsUnsafe value ∧ p = directory.child (value ++ suffix) := by
  rw [entry_eq hs, ← isComponent_eq_false_iff]
  cases isComponent value <;> simp [eq_comm]

/-- Two entries of a directory have one path just if they have one name. -/
theorem toText_eq_iff_of_entry (hs : IsSuffix suffix) (hs' : IsSuffix suffix')
    (hp : entry directory what value suffix = .ok p)
    (hq : entry directory what' other suffix' = .ok q) :
    p.toText = q.toText ↔ value ++ suffix = other ++ suffix' := by
  obtain ⟨-, rfl⟩ := (entry_eq_ok_iff hs).1 hp
  obtain ⟨-, rfl⟩ := (entry_eq_ok_iff hs').1 hq
  exact Path.toText_child_inj

/-- Entries with a suffix that can stand behind names are in their directory, and apart. -/
theorem entriesIn_entry (hs : IsSuffix suffix) (directory : Path) (what : String) :
    EntriesIn directory what suffix (entry directory what · suffix) where
  refused _ _ := entry_eq_error_iff hs
  placed value p := by
    rw [entry_eq_ok_iff hs]
    refine and_congr_right fun hsafe => Path.eq_child_iff ?_
    rw [ne_eq, String.append_eq_empty_iff]
    exact fun hempty => hsafe (Or.inl hempty.1)
  apart value other p q hp hq htext := by
    rw [toText_eq_iff_of_entry hs hs hp hq, String.append_left_inj] at htext
    exact htext

/-- Each function of the layout gives the paths of entries of its directory, with the suffix that it
puts behind names, and refuses just the texts that would lead elsewhere. No file of a release has the
path of a file of a definition. The file of a descriptor has the path of a bundle just if the version
is the identifier with the suffix of the file. -/
theorem entries_apart (directory : Path) :
    EntriesIn directory "package id" "" (packageRoot directory) ∧
    EntriesIn directory "package id" packageSuffix (packageFile directory) ∧
    EntriesIn directory "CSV version" "" (bundleDirectory directory) ∧
    EntriesIn directory "CSV name" releaseSuffix (releaseFile directory) ∧
    EntriesIn directory "CRD name" definitionSuffix (definitionFile directory) ∧
    (∀ name other p q, releaseFile directory name = .ok p → definitionFile directory other = .ok q →
      p.toText ≠ q.toText) ∧
    (∀ id version p q, packageFile directory id = .ok p → bundleDirectory directory version = .ok q →
      (p.toText = q.toText ↔ version = id ++ packageSuffix)) := by
  refine ⟨entriesIn_entry isSuffix_empty .., entriesIn_entry isSuffix_package ..,
    entriesIn_entry isSuffix_empty .., entriesIn_entry isSuffix_release ..,
    entriesIn_entry isSuffix_definition .., ?_, ?_⟩
  · intro name other p q hp hq
    rw [ne_eq, toText_eq_iff_of_entry isSuffix_release isSuffix_definition hp hq]
    exact append_ne_append (by decide) (by decide) name other
  · intro id version p q hp hq
    rw [toText_eq_iff_of_entry isSuffix_package isSuffix_empty hp hq, String.append_empty, eq_comm]

/-- The directory is written with two slashes, empty names, a point and a step up. The version that
names the file of the descriptor is no unsafe text. -/
theorem entries_apart_doubleTop :
    packageRoot (.ofText "//reg/.//..") "../demo" = .error ⟨"package id", "../demo"⟩ ∧
    (∃ p q, packageFile (.ofText "//reg/.//..") "demo" = .ok p ∧
      bundleDirectory (.ofText "//reg/.//..") "demo.package.yaml" = .ok q ∧ p.toText = q.toText) ∧
    ∃ p q, releaseFile (.ofText "//reg/.//..") "demo" = .ok p ∧
      definitionFile (.ofText "//reg/.//..") "demo" = .ok q ∧ p.toText ≠ q.toText := by
  obtain ⟨hroot, hpackage, hbundle, hrelease, hdefinition, hfiles, hdescriptor⟩ :=
    entries_apart (.ofText "//reg/.//..")
  have hat : ∀ name, ∃ p : Path, p.parent = .ofText "//reg/.//.." ∧ p.name = name := fun name =>
    ⟨(Path.ofText "//reg/.//..").child name, Path.parent_of_child .., Path.name_of_child ..⟩
  refine ⟨(hroot.refused ..).2 ⟨rfl, by decide⟩, ?_, ?_⟩
  · obtain ⟨p, hp⟩ := hat "demo.package.yaml"
    have hpackageAt := (hpackage.placed "demo" p).2 ⟨by decide, hp⟩
    have hbundleAt := (hbundle.placed "demo.package.yaml" p).2 ⟨by decide, hp⟩
    exact ⟨p, p, hpackageAt, hbundleAt, (hdescriptor _ _ _ _ hpackageAt hbundleAt).2 rfl⟩
  · obtain ⟨p, hp⟩ := hat "demo.csv.yaml"
    obtain ⟨q, hq⟩ := hat "demo.crd.yaml"
    have hreleaseAt := (hrelease.placed "demo" p).2 ⟨by decide, hp⟩
    have hdefinitionAt := (hdefinition.placed "demo" q).2 ⟨by decide, hq⟩
    exact ⟨p, q, hreleaseAt, hdefinitionAt, hfiles _ _ _ _ hreleaseAt hdefinitionAt⟩

end Layout

end RegistryTree
