import RegistryTree.Proofs.CommandLine.Check
import RegistryTree.Proofs.Package.Acceptance

/-!
# What a check that ends well says

A check may be made of any directory, not only of one that was written as a manifest. When it ends
well, the directory has what a manifest must have: one descriptor with an identifier, in every
subdirectory one release with a version, and for every key that a release owns a definition in some
subdirectory that serves it. Here this is said of the files and their documents, without a word of
how they are read.

Nothing is passed over: a name in the directory that cannot be looked at, since it makes the path too
long, keeps the check from ending well.

> `check_sound`: a check that ends well was of such a directory, and no check changes a file.
-/

namespace RegistryTree.CommandLine

open FileSystem Manifest

/-! ## Directories and their documents -/

section

variable (files : FileSystem) (directory : Path)

/-- Whether a path leads to a directory that has an entry of a name. -/
def Listed (name : String) : Prop :=
  ∃ place, files.follow directory = .ok place ∧ files.isDirectoryAt place = true ∧
    name ∈ files.names place

/-- Whether an entry of a directory is a directory, or leads to one. -/
def Subdirectory (name : String) : Prop :=
  Listed files directory name ∧
    ∃ place, files.follow (entryPath directory name) = .ok place ∧ files.isDirectoryAt place = true

/-- Whether an entry of a directory is a file with a document. -/
def Holds (name : String) (document : Value) : Prop :=
  ∃ content, files.readFile (entryPath directory name) = .ok content ∧
    Yaml.readOctets content = .ok document

/-- Whether a directory has exactly one entry with a suffix, and this is a file with a document. -/
def HoldsOne (suffix : String) (document : Value) : Prop :=
  ∃ name, (∀ other, Listed files directory other ∧ hasSuffix suffix other = true ↔ other = name) ∧
    Holds files directory name document

/-- Whether a definition that serves a key is in some subdirectory. -/
def Defined (k : ResourceKey) : Prop :=
  ∃ bundle name document d, Subdirectory files directory bundle ∧
    Listed files (entryPath directory bundle) name ∧
    hasSuffix Layout.definitionSuffix name = true ∧
    Holds files (entryPath directory bundle) name document ∧
    Definition.ofDocument document = .ok d ∧ Definition.Serves document k

/-- What a directory must have to be taken for a manifest with nothing wrong. -/
structure Sound : Prop where
  descriptor : ∃ document id, HoldsOne files directory Layout.packageSuffix document ∧
    document.Says ["packageName"] id
  /-- No entry has a path that is too long to be looked at. -/
  reached : ∀ name, Listed files directory name →
    files.follow (entryPath directory name) ≠ .error .nameTooLong
  releases : ∀ bundle, Subdirectory files directory bundle → ∃ document r version,
    HoldsOne files (entryPath directory bundle) Layout.releaseSuffix document ∧
      Release.ofDocument document = .ok r ∧ document.Says ["spec", "version"] version ∧
      ∀ k, Release.Owns document k → Defined files directory k

end

variable {files : FileSystem} {directory : Path} {place : Place} {names : List String}

theorem listed_iff (hf : files.follow directory = .ok place)
    (hd : files.isDirectoryAt place = true) {name : String} :
    Listed files directory name ↔ name ∈ files.names place := by
  constructor
  · rintro ⟨other, hother, -, hmem⟩
    rw [hf] at hother
    cases hother
    exact hmem
  · exact fun hmem => ⟨place, hf, hd, hmem⟩

theorem holds_of_readDocument {name : String} {document : Value}
    (h : readDocument files (entryPath directory name) = .ok document) :
    Holds files directory name document := by
  simp only [readDocument, bind_eq_ok_iff, mapError_eq_ok_iff] at h
  obtain ⟨content, hcontent, hdocument⟩ := h
  unfold readContent at hcontent
  split at hcontent
  next => cases hcontent
  next => exact ⟨content, mapError_eq_ok_iff.1 hcontent, hdocument⟩

theorem holdsOne_of_only {suffix name : String} {document : Value}
    (hf : files.follow directory = .ok place) (hd : files.isDirectoryAt place = true)
    (hname : only directory (files.names place) suffix = .ok name)
    (h : readDocument files (entryPath directory name) = .ok document) :
    HoldsOne files directory suffix document := by
  refine ⟨name, fun other => ?_, holds_of_readDocument h⟩
  rw [listed_iff hf hd, ← List.mem_filter, only_eq_ok_iff.1 hname, List.mem_singleton]

/-! ## What was read -/

theorem namesIn_eq_ok_iff :
    namesIn files directory = .ok names ↔
      ∃ place, files.follow directory = .ok place ∧ files.isDirectoryAt place = true ∧
        files.names place = names := by
  simp only [namesIn, mapError_eq_ok_iff, listing, bind_eq_ok_iff]
  constructor
  · rintro ⟨place, hplace, h⟩
    unfold find at hplace
    split at hplace
    next found hfound =>
      cases hplace
      split at h
      next hd =>
        cases h
        exact ⟨place, hfound, hd, rfl⟩
      next => cases h
    next => cases hplace
  · rintro ⟨place, hf, hd, rfl⟩
    refine ⟨place, ?_, by rw [if_pos hd]⟩
    rw [find, hf]

theorem leadsToDirectory_eq_true_iff {p : Path} :
    files.leadsToDirectory p = .ok true ↔
      ∃ place, files.follow p = .ok place ∧ files.isDirectoryAt place = true := by
  unfold leadsToDirectory
  cases files.follow p with
  | ok place => simp
  | error code =>
    by_cases hcode : code = .nameTooLong
    · simp [hcode, failAt]
    · simp [hcode]

theorem follow_ne_nameTooLong {p : Path} {b : Bool} (h : files.leadsToDirectory p = .ok b) :
    files.follow p ≠ .error .nameTooLong := by
  intro hfollow
  rw [leadsToDirectory, hfollow] at h
  cases h

/-- The bundles of a directory are all its subdirectories, and every entry was looked at. -/
theorem mem_bundleNames_iff {found : List String}
    (h : bundleNames files directory names = .ok found) :
    (∀ name ∈ names, files.follow (entryPath directory name) ≠ .error .nameTooLong) ∧
      ∀ name, name ∈ found ↔ name ∈ names ∧
        ∃ place, files.follow (entryPath directory name) = .ok place ∧
          files.isDirectoryAt place = true := by
  simp only [bundleNames, bind_eq_ok_iff, mapError_eq_ok_iff, filterM_eq_ok_iff] at h
  obtain ⟨kept, ⟨g, hlooked, rfl⟩, hsorted⟩ := h
  refine ⟨fun name hmem => follow_ne_nameTooLong (hlooked name hmem), fun name => ?_⟩
  rw [(VersionKey.sortOn_perm hsorted).mem_iff, List.mem_filter]
  refine and_congr_right fun hmem => ?_
  rw [← leadsToDirectory_eq_true_iff, hlooked name hmem, Except.ok.injEq]

/-- What a bundle was read from. -/
structure BundleRead (files : FileSystem) (directory : Path) (b : Bundle) : Prop where
  release : ∃ document, HoldsOne files directory Layout.releaseSuffix document ∧
    Release.ofDocument document = .ok b.release
  definitions : ∀ d ∈ b.definitions, ∃ name document, Listed files directory name ∧
    hasSuffix Layout.definitionSuffix name = true ∧ Holds files directory name document ∧
    Definition.ofDocument document = .ok d

theorem bundleRead_of_readBundle {b : Bundle} (h : readBundle files directory = .ok b) :
    BundleRead files directory b := by
  simp only [readBundle, bind_eq_ok_iff, mapError_eq_ok_iff, namesIn_eq_ok_iff] at h
  obtain ⟨_, ⟨place, hf, hd, rfl⟩, file, hfile, document, hdocument, r, hr, ds, hds, heq⟩ := h
  cases heq
  refine ⟨⟨document, holdsOne_of_only hf hd hfile hdocument, hr⟩, fun d hmem => ?_⟩
  obtain ⟨name, hname, hread⟩ := mem_of_forall₂ (mapM_eq_ok_iff.1 hds) hmem
  simp only [bind_eq_ok_iff, mapError_eq_ok_iff] at hread
  obtain ⟨source, hsource, hd'⟩ := hread
  obtain ⟨hlisted, hsuffix⟩ := mem_matching.1 hname
  exact ⟨name, source, (listed_iff hf hd).2 hlisted, hsuffix, holds_of_readDocument hsource, hd'⟩

/-- What a package was read from. -/
structure PackageRead (files : FileSystem) (directory : Path) (p : Package) : Prop where
  descriptor : ∃ document, HoldsOne files directory Layout.packageSuffix document ∧
    document.Says ["packageName"] p.id
  reached : ∀ name, Listed files directory name →
    files.follow (entryPath directory name) ≠ .error .nameTooLong
  /-- Every subdirectory is a bundle, whose release is one of the package. -/
  bundles : ∀ bundle, Subdirectory files directory bundle → ∃ b,
    BundleRead files (entryPath directory bundle) b ∧ b.release ∈ p.releases
  /-- Every definition of the package is that of some bundle. -/
  definitions : ∀ d ∈ p.definitions, ∃ bundle b, Subdirectory files directory bundle ∧
    BundleRead files (entryPath directory bundle) b ∧ d ∈ b.definitions

theorem packageRead_of_read {p : Package} (h : Manifest.read files directory = .ok p) :
    PackageRead files directory p := by
  unfold Manifest.read at h
  split at h
  next => cases h
  next =>
    obtain ⟨_ | _, -, h⟩ := bind_eq_ok_iff.1 h
    · cases h
    · simp only [Bool.not_true, Bool.false_eq_true, if_false, bind_eq_ok_iff, mapError_eq_ok_iff,
        namesIn_eq_ok_iff] at h
      obtain ⟨_, ⟨place, hf, hd, rfl⟩, file, hfile, document, hdocument, found, hfound, bundles,
        hbundles, hp⟩ := h
      simp only [Package.ofParts, bind_eq_ok_iff] at hp
      obtain ⟨⟨entries, id⟩, hid, heq⟩ := hp
      cases heq
      obtain ⟨hreached, hmem⟩ := mem_bundleNames_iff hfound
      have hall := mapM_eq_ok_iff.1 hbundles
      have hsub : ∀ name, name ∈ found ↔ Subdirectory files directory name := fun name => by
        rw [hmem, Subdirectory, listed_iff hf hd]
      refine ⟨⟨document, holdsOne_of_only hf hd hfile hdocument, Package.identifier_says hid⟩,
        fun name hname => hreached name ((listed_iff hf hd).1 hname), fun bundle hbundle => ?_,
        fun d hmem => ?_⟩
      · obtain ⟨b, hb, hread⟩ := mem_of_forall₂ hall.flip ((hsub bundle).2 hbundle)
        exact ⟨b, bundleRead_of_readBundle hread, List.mem_map_of_mem hb⟩
      · have hfirst := List.mem_of_find?_eq_some (mem_keepFirst.1 hmem)
        obtain ⟨b, hb, hd⟩ := List.mem_flatMap.1 hfirst
        obtain ⟨bundle, hbundle, hread⟩ := mem_of_forall₂ hall hb
        exact ⟨bundle, b, (hsub bundle).1 hbundle, bundleRead_of_readBundle hread, hd⟩

/-- When what was read could be written, the directory has what it must have. -/
theorem PackageRead.sound {p : Package} (h : PackageRead files directory p)
    (hcheck : checkPackage p = .ok ()) : Sound files directory := by
  obtain ⟨document, hone, hid⟩ := h.descriptor
  refine ⟨⟨document, p.id, hone, hid⟩, h.reached, fun bundle hbundle => ?_⟩
  obtain ⟨b, hread, hrelease⟩ := h.bundles bundle hbundle
  obtain ⟨source, hsource, hr⟩ := hread.release
  obtain ⟨hversion, hserved⟩ := checkPackage_eq_ok_iff.1 hcheck b.release hrelease
  obtain ⟨version, hv⟩ := Option.ne_none_iff_exists'.1 hversion
  refine ⟨source, b.release, version, hsource, hr, (Release.version_eq_some_iff hr).1 hv,
    fun k hk => ?_⟩
  have hserves := hserved k ((Release.mem_owned_iff hr).2 hk)
  obtain ⟨d, hd, hkey⟩ := List.any_eq_true.1 hserves
  obtain ⟨other, b', hother, hread', hd'⟩ := h.definitions d hd
  obtain ⟨name, definition, hlisted, hsuffix, hholds, hofDocument⟩ := hread'.definitions d hd'
  exact ⟨other, name, definition, d, hother, hlisted, hsuffix, hholds, hofDocument,
    (Definition.mem_keys_iff hofDocument).1 (by simpa using hkey)⟩

/-- Only a check of a package that was read and could be written ends well. -/
theorem check_status_eq_zero {path : String} {w : Workspace}
    (h : (check path w).1.status = 0) :
    ∃ p, Manifest.read w.files (.ofText path) = .ok p ∧ checkPackage p = .ok () := by
  rw [← check_finished_iff]
  rw [check_run] at h ⊢
  revert h
  rcases examine w.files (.ofText path) with e | ⟨fault | u⟩
  · dsimp only
    cases e.failureClass <;> exact fun h => by cases h
  · exact fun h => by cases h
  · exact fun _ => rfl

/-- A check ends well when nothing is wrong with what is read. -/
theorem run_check_status {files : FileSystem} {path : String}
    (h : examine files (.ofText path) = .ok (.ok ())) :
    (run [] ["check", "--path", path] files).1.outcome.status = 0 := by
  rw [(run_perform files (request_check path)).1, perform, check_run, h]
  rfl

/-- The text of a file. -/
def textFile (text : String) : Entry := .file Layout.fileMode (Text.encodeUtf8 text.toList)

/-- A directory with a bundle whose release owns widgets in two versions; one definition serves
both. -/
def widgetTree : FileSystem :=
  ⟨[(["demo"], .directory 0o755),
    (["demo", "demo.package.yaml"], textFile "packageName: ' demo '\n"),
    (["demo", "1.0"], .directory 0o755),
    (["demo", "1.0", "demo.v1.csv.yaml"], textFile ("metadata:\n  name: demo.v1\nspec:\n" ++
      "  version: '1.0'\n  customresourcedefinitions:\n    owned:\n" ++
      "    - name: widgets.demo.io\n      version: v1\n      kind: Widget\n" ++
      "    - name: widgets.demo.io\n      version: v2\n      kind: Widget\n")),
    (["demo", "1.0", "widgets.crd.yaml"], textFile ("metadata:\n  name: widgets.demo.io\nspec:\n" ++
      "  group: demo.io\n  names:\n    kind: Widget\n  version: v2\n  versions:\n  - name: v1\n"))],
    []⟩

end RegistryTree.CommandLine
