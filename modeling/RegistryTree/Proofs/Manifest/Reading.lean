import RegistryTree.Proofs.Manifest.Held
import RegistryTree.Proofs.VersionOrder

/-!
# Reading what was written

A package that was written is read back from its directory, given that its documents are. Its
releases come back in the order of their versions. Its definitions need not all come back: in a
bundle the last of those with one name stands, and of the bundles the first that has the name
counts.

> `Stands.readBundle_eq`: what is read of a bundle.
> `Stands.read_parts`, `Stands.read_eq`: what is read of a package, when no version is taken for a
> descriptor.
> `Stands.read_error`: nothing is read when one is.
-/

namespace RegistryTree.Manifest

open FileSystem

/-! ## Reading a bundle -/

/-- What is read of a bundle: the release, and the definitions that the bundle holds, in order. -/
structure BundleReadAs (package : Package) (r : Release) (b : Bundle) : Prop where
  release : r.ReadAs b.release
  definitions : List.Forall₂ Definition.ReadAs (heldDefinitions package r) b.definitions

/-- What comes back of a bundle: the release, and for each name the definition that the bundle holds
under it. -/
structure Reread (package : Package) (r : Release) (b : Bundle) : Prop where
  release : r.Twin b.release
  held : ∀ name, Option.Rel Definition.Twin (heldDefinition package r name)
    (b.definitions.find? (·.name = name))

theorem Reread.version {package : Package} {r : Release} {b : Bundle} (h : Reread package r b) :
    b.release.version = r.version := by
  rw [h.release.rest]

theorem Reread.owned {package : Package} {r : Release} {b : Bundle} (h : Reread package r b) :
    b.release.owned = r.owned := by
  rw [h.release.rest]

/-- When no two releases have one version, a version leads to its release. -/
theorem find?_version {releases : List Release} {r : Release} {version : String}
    (h : (releases.filterMap (·.version)).Nodup) (hr : r ∈ releases)
    (hv : r.version = some version) : releases.find? (·.version = some version) = some r := by
  induction releases with
  | nil => cases hr
  | cons r' rest ih =>
    rw [List.find?_cons]
    rw [List.filterMap_cons] at h
    rcases List.mem_cons.1 hr with rfl | hr
    · rw [decide_eq_true hv]
    · cases hv' : r'.version with
      | none =>
        rw [hv'] at h
        exact ih h hr
      | some version' =>
        rw [hv', List.nodup_cons] at h
        have hne : version' ≠ version := by
          intro heq
          subst heq
          exact h.1 (List.mem_filterMap.2 ⟨r, hr, hv⟩)
        rw [decide_eq_false (by simpa using hne)]
        exact ih h.2 hr

/-- Below the version of a release stand the files of its bundle. -/
theorem treeOf_file {package : Package} {r : Release} {version : String}
    (h : (taken package package.releases).Nodup) (hr : r ∈ package.releases)
    (hv : r.version = some version) (name : String) :
    treeOf package [version, name] = fileOf package r name := by
  rw [treeOf, find?_version (List.nodup_cons.1 h).2 hr hv]
  rfl

/-- What is read for the definitions of a package is their twins. -/
theorem forall₂_twin {package : Package} (hgenuine : package.Genuine) (hback : AllReadBack package)
    {ds ds' : List Definition} (hsub : ds ⊆ package.definitions)
    (h : List.Forall₂ Definition.ReadAs ds ds') : List.Forall₂ Definition.Twin ds ds' :=
  forall₂_imp_of_mem h fun d hd _ hread =>
    hread.twin (hback.definitions d (hsub hd)) (hgenuine.definitions d (hsub hd))

theorem heldDefinitions_subset {package : Package} {r : Release} :
    heldDefinitions package r ⊆ package.definitions := fun _ hd =>
  mem_definitions_of_owned (heldDefinition_mem (mem_heldDefinitions.1 hd)).1

/-- What is read of a bundle comes back, when its documents do. -/
theorem BundleReadAs.reread {package : Package} {r : Release} {b : Bundle}
    (h : BundleReadAs package r b) (hgenuine : package.Genuine) (hback : AllReadBack package)
    (hr : r ∈ package.releases) : Reread package r b := by
  refine ⟨h.release.twin (hback.releases r hr) (hgenuine.releases r hr), fun name => ?_⟩
  rw [← find?_heldDefinitions]
  exact rel_find? (fun d d' htwin => by rw [htwin.name_eq])
    (forall₂_twin hgenuine hback heldDefinitions_subset h.definitions)

/-- The releases of a package in the order of their versions. -/
def inOrder (package : Package) : List Release :=
  VersionKey.sort (fun r => VersionKey.keyOf (r.version.getD "")) package.releases

/-- What is read of a package, part by part: the descriptor, the releases in the order of their
versions, and of what the bundles hold, bundle by bundle, the first definition of each name. -/
structure PartsReadAs (package p : Package) : Prop where
  descriptor : package.DescriptorReadAs p
  releases : List.Forall₂ Release.ReadAs (inOrder package) p.releases
  definitions : List.Forall₂ Definition.ReadAs
    (keepFirst ((inOrder package).flatMap (heldDefinitions package))) p.definitions

namespace Stands

variable {base files : FileSystem} {root : Path} {place : Place} {package : Package} {r : Release}
  {version : String}

/-- Under a version stands the directory of its release. -/
theorem leads_version (h : Stands base files root place package) (hr : r ∈ package.releases)
    (hb : Bundled base root package r version) :
    files.LeadsTo (root.child version) (place ++ [version]) := by
  obtain ⟨hdescriptor, hversions⟩ := List.nodup_cons.1 h.fresh
  have hne : version ≠ descriptorName package := by
    intro heq
    subst heq
    exact hdescriptor (List.mem_filterMap.2 ⟨r, hr, hb.named⟩)
  have htree := h.tree [version]
  rw [treeOf, if_neg hne, find?_version hversions hr hb.named] at htree
  obtain ⟨-, hdot, hup, -, -⟩ := Layout.isComponent_iff.1 hb.component
  exact h.leads.child (isDirectoryAt_iff.2 ⟨_, htree⟩) hdot hup hb.short

/-- In the directory of a release stand the files of its bundle. -/
theorem get?_file (h : Stands base files root place package) (hr : r ∈ package.releases)
    (hb : Bundled base root package r version) (name : String) :
    files.get? (place ++ [version] ++ [name]) = fileOf package r name := by
  rw [List.append_assoc, ← treeOf_file h.fresh hr hb.named]
  exact h.tree [version, name]

/-- The one release in the bundle of a release is that release. -/
theorem only_release (h : Stands base files root place package) (hr : r ∈ package.releases)
    (hb : Bundled base root package r version) :
    only (root.child version) (files.names (place ++ [version])) Layout.releaseSuffix =
      .ok (releaseName r) := by
  rw [only_eq_ok_iff, ← List.perm_singleton]
  refine (List.perm_ext_iff_of_nodup ((nodup_names h.distinct _).filter _)
    (List.nodup_singleton _)).2 fun name => ?_
  rw [List.mem_filter, mem_names_iff, h.get?_file hr hb, List.mem_singleton]
  constructor
  · intro hgiven
    obtain ⟨hfile, hsuffix⟩ := hgiven
    rcases fileOf_ne_none hfile with rfl | ⟨d, -, rfl⟩
    · rfl
    · rw [(hasSuffix_definitionName d).2] at hsuffix
      cases hsuffix
  · intro heq
    subst heq
    rw [fileOf_release]
    exact ⟨Option.some_ne_none _, (hasSuffix_releaseName r).1⟩

/-- The names of the definitions in the bundle of a release are those that it holds. -/
theorem mem_matching_definition (h : Stands base files root place package)
    (hr : r ∈ package.releases) (hb : Bundled base root package r version) {name : String} :
    name ∈ matching (files.names (place ++ [version])) Layout.definitionSuffix ↔
      ∃ d, heldDefinition package r d.name = some d ∧ name = definitionName d := by
  rw [mem_matching, mem_names_iff, h.get?_file hr hb]
  constructor
  · intro hgiven
    obtain ⟨hfile, hsuffix⟩ := hgiven
    rcases fileOf_ne_none hfile with rfl | hheld
    · rw [(hasSuffix_releaseName r).2] at hsuffix
      cases hsuffix
    · exact hheld
  · intro hgiven
    obtain ⟨d, hheld, rfl⟩ := hgiven
    refine ⟨?_, (hasSuffix_definitionName d).1⟩
    rw [definitionName, fileOf_definition, hheld]
    exact Option.some_ne_none _

/-- A definition that a bundle holds is read from its file. -/
theorem readDefinition_eq (h : Stands base files root place package) (hgenuine : package.Genuine)
    (hback : AllReadBack package) (hr : r ∈ package.releases)
    (hb : Bundled base root package r version) {d : Definition}
    (hd : heldDefinition package r d.name = some d) :
    ∃ d', (do
        let document ← readDocument files (entryPath (root.child version) (definitionName d))
        (Definition.ofDocument document).mapError Failure.field) = .ok d' ∧ d.ReadAs d' := by
  have howned := (heldDefinition_mem hd).1
  have hmem := mem_definitions_of_owned howned
  obtain ⟨hc, hrec⟩ := hb.definitions d howned
  have hfile : files.get? (place ++ [version] ++ [definitionName d]) =
      some (documentOf d.toValue) := by
    rw [h.get?_file hr hb, definitionName, fileOf_definition, hd]
    rfl
  obtain ⟨value, hread⟩ := (hback.definitions d hmem).exists_readAs hrec.renders
  have hvalue := readDocument_eq (h.leads_version hr hb) (Path.hasNull_child h.usable hb.component)
    (Layout.isComponent_append hc Layout.isSuffix_definition) hrec hfile hread
  obtain ⟨d', hd', -⟩ := Definition.exists_twin ((hback.definitions d hmem).equal hread)
    (hgenuine.definitions d hmem)
  refine ⟨d', ?_, value, hread, hd'⟩
  simp only [bind_eq_ok_iff, mapError_eq_ok_iff]
  exact ⟨value, hvalue, hd'⟩

/-- What is read of the bundle of a release. -/
theorem readBundle_eq (h : Stands base files root place package) (hgenuine : package.Genuine)
    (hback : AllReadBack package) (hr : r ∈ package.releases)
    (hb : Bundled base root package r version) :
    ∃ b, readBundle files (root.child version) = .ok b ∧ BundleReadAs package r b := by
  have hl := h.leads_version hr hb
  have husable := Path.hasNull_child h.usable hb.component
  -- the release
  obtain ⟨value, hread⟩ := (hback.releases r hr).exists_readAs hb.release.renders
  have hvalue := readDocument_eq hl husable
    (Layout.isComponent_append hb.name Layout.isSuffix_release) hb.release
    (by rw [h.get?_file hr hb]; exact fileOf_release) hread
  obtain ⟨r', hrelease, -⟩ := Release.exists_twin ((hback.releases r hr).equal hread)
    (hgenuine.releases r hr)
  -- the definitions, in the order of their names
  obtain ⟨ds, hds, hall⟩ := exists_mapM_eq_ok fun d (hd : d ∈ heldDefinitions package r) =>
    h.readDefinition_eq hgenuine hback hr hb (mem_heldDefinitions.1 hd)
  refine ⟨⟨r', ds⟩, ?_, ⟨value, hread, hrelease⟩, hall⟩
  simp only [readBundle, bind_eq_ok_iff, mapError_eq_ok_iff]
  refine ⟨_, namesIn_eq hl hb.path, _, h.only_release hr hb, value, hvalue, _, hrelease, ds, ?_, rfl⟩
  rw [matching_eq (nodup_names h.distinct _) fun _ => h.mem_matching_definition hr hb,
    List.mapM_map]
  exact hds

/-! ## Reading a package -/

/-- Every version is short enough to have a key. -/
theorem ofName_version (h : Stands base files root place package) (hr : r ∈ package.releases) :
    VersionKey.ofName (r.version.getD "") = .ok (VersionKey.keyOf (r.version.getD "")) := by
  obtain ⟨version, hb⟩ := h.bundled r hr
  have hshort : version.utf8ByteSize ≤ nameLimit := by simpa [isTooLong] using hb.short
  have hlength := VersionKey.length_toList_le version
  have hlimit : nameLimit ≤ Number.digitLimit := by decide
  rw [hb.named, Option.getD_some]
  exact VersionKey.ofName_eq (by omega)

/-- Below the directory of a package the descriptor is no directory, and each version is one. -/
theorem leadsToDirectory_eq (h : Stands base files root place package) {name : String}
    (hname : name ∈ taken package package.releases) :
    files.leadsToDirectory (entryPath root name) = .ok (name ≠ descriptorName package) := by
  obtain ⟨hdescriptor, -⟩ := List.nodup_cons.1 h.fresh
  have hfollow : ∀ place', files.follow (entryPath root name) = .ok place' →
      files.leadsToDirectory (entryPath root name) = .ok (files.isDirectoryAt place') := by
    intro place' hf
    rw [leadsToDirectory, hf]
  -- The names below are the descriptor and the versions, and no version is called as the descriptor
  -- is.
  rcases List.mem_cons.1 hname with rfl | hversion
  · have htree := h.tree [descriptorName package]
    rw [treeOf, if_pos rfl] at htree
    have hc := Layout.isComponent_append h.id Layout.isSuffix_package
    obtain ⟨-, hdot, hup, -, -⟩ := Layout.isComponent_iff.1 hc
    have hf := h.leads.follow_child htree (fun _ he => by cases he) hdot hup
      h.descriptor.fits.short h.descriptor.fits.path
    rw [hfollow _ hf, isDirectoryAt, htree]
    simp [documentOf, Entry.isDirectory]
  · obtain ⟨r, hr, hv⟩ := List.mem_filterMap.1 hversion
    obtain ⟨version, hb⟩ := h.bundled r hr
    cases Option.some.inj (hb.named.symm.trans hv)
    have hl := h.leads_version hr hb
    have hne : name ≠ descriptorName package := by
      intro heq
      subst heq
      exact hdescriptor hversion
    rw [hfollow _ (hl.follow hb.path), hl.directory]
    simp [hne]

/-- The bundles are met in the order of the versions. -/
theorem bundleNames_eq (h : Stands base files root place package) :
    bundleNames files root (files.names place) =
      .ok ((inOrder package).map (·.version.getD "")) := by
  obtain ⟨hdescriptor, -⟩ := List.nodup_cons.1 h.fresh
  have hversions : package.releases.filterMap (·.version) =
      package.releases.map (·.version.getD "") := by
    rw [← List.filterMap_eq_map]
    refine List.filterMap_congr fun r hr => ?_
    obtain ⟨version, hb⟩ := h.bundled r hr
    simp [hb.named]
  have hfound : (taken package package.releases).filter (· ≠ descriptorName package) =
      package.releases.map (·.version.getD "") := by
    rw [taken, List.filter_cons, if_neg (by simp), ← hversions]
    refine List.filter_eq_self.2 fun name hname => ?_
    simpa using fun he : name = descriptorName package => hdescriptor (he ▸ hname)
  -- of the names in the directory only that of the descriptor is no version
  have hfilter : (files.names place).filterM (fun name =>
      (files.leadsToDirectory (entryPath root name)).mapError Failure.system) =
      .ok (package.releases.map (·.version.getD "")) := by
    rw [h.names, ← hfound]
    refine filterM_eq fun name hname => ?_
    rw [h.leadsToDirectory_eq hname]
    rfl
  simp only [bundleNames, bind_eq_ok_iff, mapError_eq_ok_iff]
  exact ⟨_, hfilter, VersionKey.sortNames_map fun r hr => h.ofName_version hr⟩

/-- Of the releases of a package in order, all are read. -/
theorem readBundles_eq (h : Stands base files root place package) (hgenuine : package.Genuine)
    (hback : AllReadBack package) :
    ∃ bundles, ((inOrder package).map (·.version.getD "")).mapM
        (fun name => readBundle files (entryPath root name)) = .ok bundles ∧
      List.Forall₂ (BundleReadAs package) (inOrder package) bundles := by
  rw [List.mapM_map]
  refine exists_mapM_eq_ok fun r hr => ?_
  have hmem := (VersionKey.sort_perm _ _).mem_iff.1 hr
  obtain ⟨version, hb⟩ := h.bundled r hmem
  obtain ⟨b, hread, hparts⟩ := h.readBundle_eq hgenuine hback hmem hb
  refine ⟨b, ?_, hparts⟩
  rw [Function.comp_apply, hb.named]
  exact hread

/-- The descriptor is the only one when no version is taken for one. -/
theorem only_descriptor_iff (h : Stands base files root place package) {file : String} :
    only root (files.names place) Layout.packageSuffix = .ok file ↔
      file = descriptorName package ∧
        ∀ r ∈ package.releases, ∀ version, r.version = some version →
          hasSuffix Layout.packageSuffix version = false := by
  have hdescriptor : hasSuffix Layout.packageSuffix (descriptorName package) = true :=
    hasSuffix_append ..
  rw [only_eq_ok_iff, h.names, taken, List.filter_cons, if_pos hdescriptor, List.cons.injEq,
    List.filter_eq_nil_iff, eq_comm]
  refine and_congr_right fun _ => ⟨fun hall r hr version hv => ?_, fun hall name hname => ?_⟩
  · simpa using hall version (List.mem_filterMap.2 ⟨r, hr, hv⟩)
  · obtain ⟨r, hr, hv⟩ := List.mem_filterMap.1 hname
    simpa using hall r hr name hv

/-- What is read of a package, when no version is taken for a descriptor. -/
theorem read_package (h : Stands base files root place package) (hgenuine : package.Genuine)
    (hback : AllReadBack package)
    (hversions : ∀ r ∈ package.releases, ∀ version, r.version = some version →
      hasSuffix Layout.packageSuffix version = false) :
    ∃ p bundles, read files root = .ok p ∧ package.DescriptorReadAs p ∧
      p.releases = bundles.map (·.release) ∧
      p.definitions = keepFirst (bundles.flatMap (·.definitions)) ∧
      List.Forall₂ (BundleReadAs package) (inOrder package) bundles := by
  have htree := h.tree [descriptorName package]
  rw [treeOf, if_pos rfl] at htree
  obtain ⟨value, hread⟩ := hback.descriptor.exists_readAs h.descriptor.renders
  have hvalue := readDocument_eq h.leads h.usable
    (Layout.isComponent_append h.id Layout.isSuffix_package) h.descriptor htree hread
  obtain ⟨document, hid, -⟩ := Package.exists_identifier (hback.descriptor.equal hread)
    hgenuine.descriptor
  obtain ⟨bundles, hbundles, hall⟩ := h.readBundles_eq hgenuine hback
  refine ⟨⟨document, package.id, bundles.map (·.release),
    keepFirst (bundles.flatMap (·.definitions))⟩, bundles, ?_, ⟨value, hread, hid⟩, rfl, rfl, hall⟩
  rw [read_of_leadsTo h.leads h.path h.usable]
  simp only [bind_eq_ok_iff, mapError_eq_ok_iff, Package.ofParts]
  exact ⟨_, h.only_descriptor_iff.2 ⟨rfl, hversions⟩, value, hvalue, _, h.bundleNames_eq, bundles,
    hbundles, _, hid, rfl⟩

/-- What is read of a package, part by part. -/
theorem read_parts (h : Stands base files root place package) (hgenuine : package.Genuine)
    (hback : AllReadBack package)
    (hversions : ∀ r ∈ package.releases, ∀ version, r.version = some version →
      hasSuffix Layout.packageSuffix version = false) :
    ∃ p, read files root = .ok p ∧ PartsReadAs package p := by
  obtain ⟨p, bundles, hread, hdescriptor, hreleases, hdefinitions, hall⟩ :=
    h.read_package hgenuine hback hversions
  refine ⟨p, hread, hdescriptor, ?_, ?_⟩
  · rw [hreleases, List.forall₂_map_right_iff]
    exact hall.imp fun _ _ hb => hb.release
  · rw [hdefinitions]
    have hread : List.Forall₂ Definition.ReadAs ((inOrder package).flatMap (heldDefinitions package))
        (bundles.flatMap (·.definitions)) := List.rel_flatMap hall fun _ _ hb => hb.definitions
    -- what is read for a definition has its name
    have hnamed : List.Forall₂ (fun d d' : Definition => d.ReadAs d' ∧ d'.name = d.name)
        ((inOrder package).flatMap (heldDefinitions package)) (bundles.flatMap (·.definitions)) := by
      refine forall₂_imp_of_mem hread fun d hd d' hread => ⟨hread, ?_⟩
      obtain ⟨r, -, hheld⟩ := List.mem_flatMap.1 hd
      have hmem := heldDefinitions_subset hheld
      exact (hread.twin (hback.definitions d hmem) (hgenuine.definitions d hmem)).name_eq
    exact (forall₂_keepFirst (fun _ _ h => h.2) hnamed).imp fun _ _ h => h.1

/-- The releases and the definitions that are read of a package. -/
theorem read_eq (h : Stands base files root place package) (hgenuine : package.Genuine)
    (hback : AllReadBack package)
    (hversions : ∀ r ∈ package.releases, ∀ version, r.version = some version →
      hasSuffix Layout.packageSuffix version = false) :
    ∃ p bundles, read files root = .ok p ∧ p.releases = bundles.map (·.release) ∧
      p.definitions = keepFirst (bundles.flatMap (·.definitions)) ∧
      List.Forall₂ (Reread package) (inOrder package) bundles := by
  obtain ⟨p, bundles, hread, -, hreleases, hdefinitions, hall⟩ :=
    h.read_package hgenuine hback hversions
  refine ⟨p, bundles, hread, hreleases, hdefinitions, forall₂_imp_of_mem hall fun r hr _ hb => ?_⟩
  exact hb.reread hgenuine hback ((VersionKey.sort_perm _ _).mem_iff.1 hr)

/-- Nothing is read of a package when a version is taken for a descriptor. -/
theorem read_error (h : Stands base files root place package) {version : String}
    (hr : r ∈ package.releases) (hv : r.version = some version)
    (hsuffix : hasSuffix Layout.packageSuffix version = true) :
    ∃ e, read files root = .error e := by
  cases hread : read files root with
  | error e => exact ⟨e, rfl⟩
  | ok p =>
    rw [read_of_leadsTo h.leads h.path h.usable] at hread
    obtain ⟨file, hfile, -⟩ := bind_eq_ok_iff.1 hread
    rw [(h.only_descriptor_iff.1 hfile).2 r hr version hv] at hsuffix
    cases hsuffix

end Stands

/-! ## The definitions that come back -/

/-- What comes back under a name is what the first release that holds the name has under it. -/
theorem find?_reread {package : Package} {rs : List Release} {bundles : List Bundle}
    (h : List.Forall₂ (Reread package) rs bundles) (name : String) :
    Option.Rel Definition.Twin (rs.findSome? (heldDefinition package · name))
      ((bundles.flatMap (·.definitions)).find? (·.name = name)) := by
  induction h with
  | nil => exact .none
  | @cons r b rs bundles hr _ ih =>
    have hheld := hr.held name
    rw [List.flatMap_cons, List.find?_append, List.findSome?_cons]
    generalize heldDefinition package r name = expected at hheld ⊢
    generalize b.definitions.find? (·.name = name) = found at hheld ⊢
    cases hheld with
    | none => exact ih
    | some htwin => exact .some htwin

/-- A key is served by what comes back when it is one of the keys under some name. -/
theorem served_reread_iff {package : Package} {rs : List Release} {bundles : List Bundle}
    (h : List.Forall₂ (Reread package) rs bundles) (k : ResourceKey) :
    (∃ d ∈ keepFirst (bundles.flatMap (·.definitions)), k ∈ d.keys) ↔
      ∃ name d, rs.findSome? (heldDefinition package · name) = some d ∧ k ∈ d.keys := by
  constructor
  · intro hgiven
    obtain ⟨d, hd, hk⟩ := hgiven
    have htwin := find?_reread h d.name
    rw [mem_keepFirst.1 hd] at htwin
    cases hheld : rs.findSome? (heldDefinition package · d.name) with
    | none =>
      rw [hheld] at htwin
      cases htwin
    | some d' =>
      rw [hheld] at htwin
      cases htwin with
      | some htwin => exact ⟨d.name, d', hheld, by rwa [← htwin.keys_eq]⟩
  · intro hgiven
    obtain ⟨name, d, hd, hk⟩ := hgiven
    have htwin := find?_reread h name
    rw [hd, ← find?_keepFirst] at htwin
    -- The first of its name among all that the bundles hold is the one that is kept.
    generalize hfound : (keepFirst (bundles.flatMap (·.definitions))).find? (·.name = name) =
      found at htwin
    cases htwin with
    | some htwin =>
      exact ⟨_, List.mem_of_find?_eq_some hfound, by rwa [htwin.keys_eq]⟩

end RegistryTree.Manifest
