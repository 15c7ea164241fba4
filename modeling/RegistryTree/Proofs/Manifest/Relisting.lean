import RegistryTree.Proofs.CommandLine.Soundness
import RegistryTree.Proofs.FileSystem.Listing
import RegistryTree.Proofs.FileSystem.Trail
import RegistryTree.Proofs.Manifest.Held
import RegistryTree.Proofs.VersionOrder.Permutation

/-!
# In whatever order directories list their entries

A directory may list its entries in any order. What is looked up in it by the ends of names is put in
the order of the names first, and the bundles are put in the order of their versions. Versions are
compared as numbers, and so this order says nothing of two bundles whose names have one plain form,
such as `1` and `01`: of these the one that is listed first is read first. Where there are no such
bundles, a manifest is read the same from all orders.

> `readBundle_of_sameFiles`: a bundle is read the same.
> `read_of_sameFiles`: so is a manifest, when no two bundles have names of one plain form.
> `bundleNames_relisted_iff`: only then the bundles come in the same order from all listings.
> `read_relisted`: manifests are read and names are sorted the same whatever is listed first.
-/

namespace RegistryTree

open FileSystem

variable {files files' : FileSystem} {p : Path} {names names' : List String}

/-! ## The same files -/

namespace FileSystem

theorem SameFiles.symm (h : SameFiles files files') : SameFiles files' files :=
  ⟨h.current.symm, fun q => (h.get? q).symm, h.entries.symm⟩

theorem SameFiles.sameOn (h : SameFiles files files') : SameOn (fun _ => True) files files' :=
  ⟨h.current, fun q _ => h.get? q⟩

theorem follow_of_sameFiles (h : SameFiles files files') (p : Path) :
    files'.follow p = files.follow p := follow_of_sameOn h.sameOn fun _ _ => trivial

theorem isDirectoryAt_of_sameFiles (h : SameFiles files files') (place : Place) :
    files'.isDirectoryAt place = files.isDirectoryAt place := h.sameOn.isDirectoryAt trivial

/-- A directory lists the same names, in some order. -/
theorem names_of_sameFiles (h : SameFiles files files') (place : Place) :
    (files'.names place).Perm (files.names place) := h.entries.filterMap _

theorem leadsToDirectory_of_sameFiles (h : SameFiles files files') (p : Path) :
    files'.leadsToDirectory p = files.leadsToDirectory p := by
  unfold leadsToDirectory
  rw [follow_of_sameFiles h]
  split
  next place hf => rw [isDirectoryAt_of_sameFiles h]
  next => rfl

theorem readFile_of_sameFiles (h : SameFiles files files') (p : Path) :
    files'.readFile p = files.readFile p := by
  unfold readFile find
  rw [follow_of_sameFiles h]
  split
  next place hf => simp only [bind, Except.bind, h.get?]
  next => rfl

end FileSystem

theorem readDocument_of_sameFiles (h : SameFiles files files') (p : Path) :
    readDocument files' p = readDocument files p := by
  unfold readDocument readContent
  rw [readFile_of_sameFiles h]

namespace Manifest

open CommandLine VersionKey

/-! ## Names in another order -/

theorem matching_of_perm (h : names'.Perm names) (suffix : String) :
    matching names' suffix = matching names suffix := mergeSort_eq_of_perm (h.filter _)

theorem only_of_perm (h : names'.Perm names) (p : Path) (suffix : String) :
    only p names' suffix = only p names suffix := by
  unfold only
  rw [matching_of_perm h]

theorem namesIn_of_sameFiles (h : SameFiles files files') (hnames : namesIn files p = .ok names) :
    ∃ names', namesIn files' p = .ok names' ∧ names'.Perm names := by
  obtain ⟨place, hf, hd, rfl⟩ := namesIn_eq_ok_iff.1 hnames
  refine ⟨files'.names place, namesIn_eq_ok_iff.2 ⟨place, ?_, ?_, rfl⟩, names_of_sameFiles h place⟩
  · rw [follow_of_sameFiles h, hf]
  · rw [isDirectoryAt_of_sameFiles h, hd]

/-! ## What is read -/

/-- A bundle is read the same. -/
theorem readBundle_of_sameFiles (h : SameFiles files files') {b : Bundle}
    (hb : readBundle files p = .ok b) : readBundle files' p = .ok b := by
  unfold readBundle at hb ⊢
  obtain ⟨names, hnames, hrest⟩ := bind_eq_ok_iff.1 hb
  obtain ⟨names', hnames', hperm⟩ := namesIn_of_sameFiles h hnames
  refine bind_eq_ok_iff.2 ⟨names', hnames', ?_⟩
  simp only [only_of_perm hperm, matching_of_perm hperm, readDocument_of_sameFiles h]
  exact hrest

/-- The bundles of a directory come in the same order, when no two have names of one plain form. -/
theorem bundleNames_of_sameFiles (h : SameFiles files files') (hperm : names'.Perm names)
    {found : List String} (hdistinct : Distinct found) (hfound : bundleNames files p names = .ok found) :
    bundleNames files' p names' = .ok found := by
  simp only [bundleNames, bind_eq_ok_iff, mapError_eq_ok_iff, filterM_eq_ok_iff] at hfound ⊢
  obtain ⟨_, ⟨isBundle, hlooked, rfl⟩, hsorted⟩ := hfound
  refine ⟨names'.filter isBundle, ⟨isBundle, fun name hname => ?_, rfl⟩, ?_⟩
  · rw [leadsToDirectory_of_sameFiles h]
    exact hlooked name (hperm.mem_iff.1 hname)
  · refine sortNames_of_perm (hperm.filter _) (fun a ha b hb => ?_) hsorted
    have hfound := sortOn_perm hsorted
    exact hdistinct a (hfound.mem_iff.2 ha) b (hfound.mem_iff.2 hb)

/-- Whether no two subdirectories of a directory have names of one plain form. -/
def DistinctVersions (files : FileSystem) (p : Path) : Prop :=
  ∀ a b, Subdirectory files p a → Subdirectory files p b → plainName a = plainName b → a = b

theorem subdirectory_of_sameFiles (h : SameFiles files files') {name : String} :
    Subdirectory files' p name ↔ Subdirectory files p name := by
  unfold Subdirectory Listed
  simp only [follow_of_sameFiles h, isDirectoryAt_of_sameFiles h, (names_of_sameFiles h _).mem_iff]

theorem distinctVersions_of_sameFiles (h : SameFiles files files') (hd : DistinctVersions files p) :
    DistinctVersions files' p := fun a b ha hb =>
  hd a b ((subdirectory_of_sameFiles h).1 ha) ((subdirectory_of_sameFiles h).1 hb)

/-- The bundles of a manifest have names of which no two have one plain form, when its subdirectories
have. -/
theorem distinct_bundleNames (hdistinct : DistinctVersions files p) (hnames : namesIn files p = .ok names)
    {found : List String} (hfound : bundleNames files p names = .ok found) : Distinct found := by
  obtain ⟨place, hf, hd, rfl⟩ := namesIn_eq_ok_iff.1 hnames
  have hsub : ∀ name ∈ found, Subdirectory files p name := by
    intro name hname
    obtain ⟨hlisted, hdirectory⟩ := ((mem_bundleNames_iff hfound).2 name).1 hname
    exact ⟨(listed_iff hf hd).2 hlisted, hdirectory⟩
  intro a ha b hb
  exact hdistinct a b (hsub a ha) (hsub b hb)

theorem read_of_sameFiles_of_ok (h : SameFiles files files') (hdistinct : DistinctVersions files p)
    {package : Package} (hread : read files p = .ok package) : read files' p = .ok package := by
  unfold Manifest.read at hread ⊢
  split at hread
  next => cases hread
  next hnull =>
    rw [if_neg hnull, leadsToDirectory_of_sameFiles h]
    obtain ⟨isDirectory, hd, hread⟩ := bind_eq_ok_iff.1 hread
    refine bind_eq_ok_iff.2 ⟨isDirectory, hd, ?_⟩
    cases isDirectory with
    | false => cases hread
    | true =>
      simp only [Bool.not_true, Bool.false_eq_true, if_false, bind_eq_ok_iff] at hread ⊢
      obtain ⟨names, hnames, file, hfile, document, hdocument, found, hfound, bundles, hbundles,
        hpackage⟩ := hread
      obtain ⟨names', hnames', hperm⟩ := namesIn_of_sameFiles h hnames
      have hfound' := bundleNames_of_sameFiles h hperm (distinct_bundleNames hdistinct hnames hfound)
        hfound
      refine ⟨names', hnames', file, ?_, document, ?_, found, hfound', bundles, ?_, hpackage⟩
      · rw [only_of_perm hperm, hfile]
      · rw [readDocument_of_sameFiles h, hdocument]
      · exact mapM_eq_ok_iff.2 ((mapM_eq_ok_iff.1 hbundles).imp fun _ _ => readBundle_of_sameFiles h)

/-- A manifest is read the same, when no two bundles have names of one plain form. -/
theorem read_of_sameFiles (h : SameFiles files files') (hdistinct : DistinctVersions files p)
    (package : Package) : read files' p = .ok package ↔ read files p = .ok package := by
  constructor
  · exact read_of_sameFiles_of_ok h.symm (distinctVersions_of_sameFiles h hdistinct)
  · exact read_of_sameFiles_of_ok h hdistinct

/-- The bundles of a directory come in the same order from all listings when no two have names of one
plain form, and only then. -/
theorem bundleNames_relisted_iff {place : Place} {found : List String} (ht : files.IsRegular)
    (hfollow : files.follow p = .ok place) (hd : files.isDirectoryAt place = true)
    (hfound : bundleNames files p (files.names place) = .ok found) :
    (∀ files', SameFiles files files' → bundleNames files' p (files'.names place) = .ok found) ↔
      DistinctVersions files p := by
  constructor
  · intro hall
    -- One other listing is enough to tell: that of the same entries from behind.
    have hsame := sameFiles_fromBehind ht.distinct
    have hback := hall _ hsame
    rw [names_fromBehind] at hback
    simp only [bundleNames, bind_eq_ok_iff, mapError_eq_ok_iff, filterM_eq_ok_iff] at hfound hback
    obtain ⟨_, ⟨isBundle, hlooked, rfl⟩, hsorted⟩ := hfound
    obtain ⟨_, ⟨isBundle', hlooked', rfl⟩, hsorted'⟩ := hback
    have hagree : ∀ name ∈ (files.names place).reverse, isBundle' name = isBundle name := by
      intro name hname
      have hlook := hlooked' name hname
      rw [leadsToDirectory_of_sameFiles hsame, hlooked name (List.mem_reverse.1 hname)] at hlook
      exact (Except.ok.inj hlook).symm
    rw [List.filter_congr hagree, List.filter_reverse] at hsorted'
    have hdistinct := distinct_of_sortNames_reverse ((nodup_names ht.distinct place).filter _) hsorted
      hsorted'
    have hmem : ∀ name, Subdirectory files p name → name ∈ (files.names place).filter isBundle := by
      intro name hname
      have hlisted := (listed_iff hfollow hd).1 hname.1
      have hlook := hlooked name hlisted
      rw [leadsToDirectory_eq_true_iff.2 hname.2] at hlook
      exact List.mem_filter.2 ⟨hlisted, (Except.ok.inj hlook).symm⟩
    intro a b ha hb
    exact hdistinct a (hmem a ha) b (hmem b hb)
  · intro hdistinct files' hsame
    have hnames : namesIn files p = .ok (files.names place) :=
      namesIn_eq_ok_iff.2 ⟨place, hfollow, hd, rfl⟩
    exact bundleNames_of_sameFiles hsame (names_of_sameFiles hsame place)
      (distinct_bundleNames hdistinct hnames hfound) hfound

/-- Directories may list their entries in any order. A manifest is read the same from all of them when
no two bundles have names of one plain form, and only then the bundles come in the same order from all
of them. Names that entries can have, none of them twice, are sorted the same in whatever order they
come when no two have one plain form, and only then. -/
theorem read_relisted {files : FileSystem} (p : Path) (ht : files.IsRegular) :
    (DistinctVersions files p → ∀ files', SameFiles files files' →
      ∀ package, read files' p = .ok package ↔ read files p = .ok package) ∧
    (∀ place found, files.follow p = .ok place → files.isDirectoryAt place = true →
      bundleNames files p (files.names place) = .ok found →
      ((∀ files', SameFiles files files' → bundleNames files' p (files'.names place) = .ok found) ↔
        DistinctVersions files p)) ∧
    ∀ names : List String, names.Nodup → (∀ name ∈ names, isTooLong name = false) →
      ((∀ names' : List String, names'.Perm names → sortNames names' = sortNames names) ↔
        Distinct names) :=
  ⟨fun hdistinct _ h => read_of_sameFiles h hdistinct, fun _ _ => bundleNames_relisted_iff ht,
    fun _ => sortNames_perm_iff⟩

/-- The text of the release of a version that owns nothing. -/
def releaseText (name version : String) : String :=
  "metadata:\n  name: " ++ name ++ "\nspec:\n  version: " ++ version ++ "\n"

/-- The text of a definition of widgets that serves one version. -/
def widgetsText (version : String) : String :=
  "metadata:\n  name: widgets.demo.io\nspec:\n  group: demo.io\n  names:\n    kind: Widget\n" ++
    "  version: " ++ version ++ "\n"

/-- A directory with two bundles, each of which has a definition of widgets. -/
def bundlesTree : FileSystem :=
  ⟨[(["demo"], .directory 0o755),
    (["demo", "demo.package.yaml"], textFile "packageName: demo\n"),
    (["demo", "0.9.0"], .directory 0o755),
    (["demo", "0.9.0", "demo.v1.csv.yaml"], textFile (releaseText "demo.v1" "0.9.0")),
    (["demo", "0.9.0", "widgets.crd.yaml"], textFile (widgetsText "v1")),
    (["demo", "0.10.0"], .directory 0o755),
    (["demo", "0.10.0", "demo.v2.csv.yaml"], textFile (releaseText "demo.v2" "0.10.0")),
    (["demo", "0.10.0", "widgets.crd.yaml"], textFile (widgetsText "v2"))], []⟩

theorem isRegular_bundlesTree : bundlesTree.IsRegular :=
  ⟨by decide, by decide, by decide, by decide, by decide⟩

theorem distinctVersions_bundlesTree : DistinctVersions bundlesTree (.ofText "demo") := by
  have hfollow : bundlesTree.follow (.ofText "demo") = .ok ["demo"] := by decide
  have hlisted : ∀ name, Listed bundlesTree (.ofText "demo") name →
      name ∈ ["demo.package.yaml", "0.9.0", "0.10.0"] := fun _ =>
    (listed_iff hfollow (by decide)).1
  have hforms : Distinct ["demo.package.yaml", "0.9.0", "0.10.0"] := by
    unfold Distinct
    decide
  intro a b ha hb
  exact hforms a (hlisted a ha.1) b (hlisted b hb.1)

/-- The two bundles are listed in the order of their versions. -/
theorem bundleNames_bundlesTree : bundleNames bundlesTree (.ofText "demo")
    (bundlesTree.names ["demo"]) = .ok ["0.9.0", "0.10.0"] := by
  have hfound : (bundlesTree.names ["demo"]).filterM (fun name =>
      (bundlesTree.leadsToDirectory (entryPath (.ofText "demo") name)).mapError Failure.system) =
        .ok ["0.9.0", "0.10.0"] := by decide +kernel
  have hsorted : sortNames ["0.9.0", "0.10.0"] = .ok ["0.9.0", "0.10.0"] :=
    sortNames_eq_ok_iff.2 ⟨by decide +kernel, List.mergeSort_of_pairwise (by decide +kernel)⟩
  rw [bundleNames, hfound]
  exact bind_eq_ok_iff.2 ⟨_, rfl, mapError_eq_ok_iff.2 hsorted⟩

/-- The releases come in the order of the bundles, and of the two definitions with one name the first
is kept. -/
theorem read_bundlesTree : (read bundlesTree (.ofText "demo")).toOption.map
    (fun p => (p.releases.map (·.name), p.definitions.map (·.versions))) =
      some (["demo.v1", "demo.v2"], [["v1"]]) := by
  have hleads : bundlesTree.LeadsTo (.ofText "demo") ["demo"] := ⟨by decide, by decide⟩
  have hfile : only (.ofText "demo") (bundlesTree.names ["demo"]) Layout.packageSuffix =
      .ok "demo.package.yaml" := by decide +kernel
  rw [read_of_leadsTo hleads (by decide) (by decide), hfile, bundleNames_bundlesTree]
  decide +kernel

/-- Two bundles are read the same when all is listed from behind, and come in one order from all
listings; two versions are sorted the same, and a version with a zero in front stays where it
comes. -/
theorem read_relisted_widgets :
    (∃ package, read bundlesTree.fromBehind (.ofText "demo") = .ok package ∧
      read bundlesTree (.ofText "demo") = .ok package ∧
      package.releases.map (·.name) = ["demo.v1", "demo.v2"] ∧
      package.definitions.map (·.versions) = [["v1"]]) ∧
    (∀ files', SameFiles bundlesTree files' → bundleNames files' (.ofText "demo")
      (files'.names ["demo"]) = .ok ["0.9.0", "0.10.0"]) ∧
    sortNames ["0.10.0", "0.9.0"] = sortNames ["0.9.0", "0.10.0"] ∧
    ∃ names' : List String, names'.Perm ["1", "01"] ∧ sortNames names' ≠ sortNames ["1", "01"] := by
  obtain ⟨hread, hbundles, hsort⟩ := read_relisted (.ofText "demo") isRegular_bundlesTree
  refine ⟨?_, ?_, ?_, ?_⟩
  · have hparts := read_bundlesTree
    cases hpackage : read bundlesTree (.ofText "demo") with
    | error fault =>
      rw [hpackage] at hparts
      cases hparts
    | ok package =>
      rw [hpackage] at hparts
      obtain ⟨hreleases, hdefinitions⟩ := Prod.mk.inj (Option.some.inj hparts)
      have hsame := sameFiles_fromBehind isRegular_bundlesTree.distinct
      exact ⟨package, (hread distinctVersions_bundlesTree _ hsame _).2 hpackage, rfl, hreleases,
        hdefinitions⟩
  · exact (hbundles _ _ (by decide) (by decide) bundleNames_bundlesTree).2
      distinctVersions_bundlesTree
  · have hforms : Distinct ["0.9.0", "0.10.0"] := by
      unfold Distinct
      decide
    exact (hsort _ (by decide) (by decide)).2 hforms _ (.swap _ _ _)
  · by_contra hsame
    push Not at hsame
    have hforms : Distinct ["1", "01"] := (hsort _ (by decide) (by decide)).1 hsame
    exact absurd (hforms "1" (by decide) "01" (by decide) (by decide)) (by decide)

end Manifest

end RegistryTree
