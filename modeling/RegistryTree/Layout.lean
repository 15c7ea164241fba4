import RegistryTree.Path
import RegistryTree.Text.Quoted

/-!
# The layout of a registry

A registry is a directory with a directory for each package. The directory of a package holds the
descriptor and, for each release, a bundle: a directory named for the version, with the release and
the definitions that it owns.

Identifiers, versions and names come from documents and become names of single entries; one that
would lead elsewhere is refused.

> `component_eq_ok_iff`: which texts name an entry.
> `entry_of_component`: the path of an entry is the path of its directory with one name added.
-/

namespace RegistryTree

/-- A text that is not the name of an entry, and what it was to name. -/
structure UnsafeName where
  what : String
  value : String
  deriving DecidableEq, Repr

/-- The words an unsafe name is reported with. -/
def UnsafeName.message (n : UnsafeName) : String :=
  n.what ++ " " ++ Text.quote n.value ++ " is not a valid file or directory name"

namespace Layout

/-- What the name of a descriptor ends in. -/
def packageSuffix : String := ".package.yaml"

/-- What the name of a release ends in. -/
def releaseSuffix : String := ".csv.yaml"

/-- What the name of a definition ends in. -/
def definitionSuffix : String := ".crd.yaml"

/-- The permissions of the directories that are made. -/
def directoryMode : Nat := 0o700

/-- The permissions of the files that are written. -/
def fileMode : Nat := 0o644

/-- Whether a text is the name of one entry in whatever directory it is used. -/
def isComponent (value : String) : Bool :=
  value ≠ "" && value ≠ "." && value ≠ ".." && !value.toList.contains '\x00' &&
    !value.toList.contains '/'

/-- A text as the name of an entry. -/
def component (what value : String) : Except UnsafeName String :=
  if isComponent value then .ok value else .error ⟨what, value⟩

/-- The path of an entry that is named for a text. -/
def entry (directory : Path) (what value suffix : String) : Except UnsafeName Path :=
  (component what value).map fun name => directory.join (name ++ suffix)

/-- The directory of a package. -/
def packageRoot (registry : Path) (id : String) : Except UnsafeName Path :=
  entry registry "package id" id ""

/-- The file of a descriptor. -/
def packageFile (root : Path) (id : String) : Except UnsafeName Path :=
  entry root "package id" id packageSuffix

/-- The directory of a bundle. -/
def bundleDirectory (root : Path) (version : String) : Except UnsafeName Path :=
  entry root "CSV version" version ""

/-- The file of a release. -/
def releaseFile (bundle : Path) (name : String) : Except UnsafeName Path :=
  entry bundle "CSV name" name releaseSuffix

/-- The file of a definition. -/
def definitionFile (bundle : Path) (name : String) : Except UnsafeName Path :=
  entry bundle "CRD name" name definitionSuffix

theorem component_eq_ok_iff {what value name : String} :
    component what value = .ok name ↔ name = value ∧ isComponent value = true := by
  unfold component
  cases isComponent value <;> simp [eq_comm]

/-- The path of an entry is the path of its directory with one name added. -/
theorem entry_of_component {directory : Path} {what value suffix : String}
    (h : isComponent value = true) (hs : suffix = "" ∨ '/' ∉ suffix.toList ∧ 2 ≤ suffix.length) :
    entry directory what value suffix =
      .ok ⟨directory.start, directory.parts ++ [value ++ suffix]⟩ := by
  have hc : component what value = .ok value := component_eq_ok_iff.2 ⟨rfl, h⟩
  simp only [isComponent, Bool.and_eq_true, decide_eq_true_eq, Bool.not_eq_true',
    List.contains_eq_mem, decide_eq_false_iff_not] at h
  obtain ⟨⟨⟨⟨h0, h1⟩, -⟩, -⟩, h3⟩ := h
  have hlead : Path.leads (value ++ suffix).toList = true := by
    simp only [Path.leads, Bool.and_eq_true, decide_eq_true_eq, ne_eq]
    rcases hs with rfl | ⟨-, hl⟩
    · rw [String.append_empty]
      refine ⟨fun e => h0 (String.toList_eq_nil_iff.1 e), fun e => h1 (String.toList_inj.1 e)⟩
    · have : 2 ≤ (value ++ suffix).toList.length := by
        rw [String.toList_append, List.length_append, String.length_toList, String.length_toList]
        omega
      constructor <;> intro e <;> rw [e] at this <;> simp at this
  have hslash : '/' ∉ (value ++ suffix).toList := by
    rw [String.toList_append, List.mem_append]
    rcases hs with rfl | ⟨hn, -⟩
    · simpa using h3
    · exact fun hm => hm.elim h3 hn
  rw [entry, hc, Except.map, Path.join_of_leads hlead hslash]

end Layout

end RegistryTree
