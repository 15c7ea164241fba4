import RegistryTree.Proofs.Manifest.Copy
import RegistryTree.Proofs.Manifest.RoundTrip

/-!
# Writing again what was read

A package that was written and read back can be written again. Whether the second tree is the first
one is another matter. What is read back lists the definitions in the order in which the files are
met, and not in that of the package, and of the definitions that serve a key the first is owned. So
when a key is served by two definitions, what a release owns may change with the order, and with it
the files of its bundle.

> `Sound.reread`: what is read back can be written.
> `treeOf_reread_iff`: it has the tree of the package when each release owns the same.
> `create_reread`: what is written when a package that was read back is written again.
-/

namespace RegistryTree.Manifest

open FileSystem

/-- The package that is read back, but for its documents: the releases in the order of their
versions, and of what the bundles hold, bundle by bundle, the first definition of each name. -/
def reread (package : Package) : Package :=
  { package with
    releases := inOrder package
    definitions := keepFirst ((inOrder package).flatMap (heldDefinitions package)) }

/-- What is read of a package whose documents are restored is a copy of the package that is read
back. -/
theorem PartsReadAs.copy {package p : Package} (h : PartsReadAs package p)
    (hgenuine : package.Genuine) (hrestored : AllRestored package) : (reread package).Copy p := by
  have hid := (h.rereadAs hgenuine hrestored.readBack).id
  refine ⟨hid, ?_, ?_, ?_⟩
  · obtain ⟨value, hread, hidentifier⟩ := h.descriptor
    obtain ⟨share, rfl⟩ := Package.identifier_mapping hidentifier
    exact hrestored.descriptor.render_eq hread
  · refine forall₂_imp_of_mem h.releases fun r hr r' hread => ?_
    have hmem := (VersionKey.sort_perm _ _).mem_iff.1 hr
    exact hread.copy (hrestored.releases r hmem) (hgenuine.releases r hmem)
  · refine forall₂_imp_of_mem h.definitions fun d hd d' hread => ?_
    obtain ⟨r, -, hheld⟩ := List.mem_flatMap.1 (List.mem_of_find?_eq_some (mem_keepFirst.1 hd))
    have hmem := heldDefinitions_subset hheld
    exact hread.copy (hrestored.definitions d hmem) (hgenuine.definitions d hmem)

section

variable {package : Package} {r : Release} {d : Definition}

theorem mem_inOrder : r ∈ inOrder package ↔ r ∈ package.releases :=
  (VersionKey.sort_perm _ _).mem_iff

/-- Among definitions of a package in which no name is had twice, a name leads to the one that has
it. -/
theorem find?_name_of_subset (hnames : (package.definitions.map (·.name)).Nodup)
    {ds : List Definition} (hsub : ds ⊆ package.definitions) (hd : d ∈ ds) :
    ds.find? (·.name = d.name) = some d := by
  refine (find?_eq_some_iff_of_unique fun c hc e he hcn hen => ?_).2 ⟨hd, by simp⟩
  refine List.inj_on_of_nodup_map hnames (hsub hc) (hsub he) ?_
  rw [of_decide_eq_true hcn, of_decide_eq_true hen]

/-- What is read back are the definitions that some release owns. -/
theorem mem_reread_definitions (hnames : (package.definitions.map (·.name)).Nodup) :
    d ∈ (reread package).definitions ↔ ∃ r ∈ package.releases, d ∈ ownedDefinitions package r := by
  show d ∈ keepFirst ((inOrder package).flatMap (heldDefinitions package)) ↔ _
  constructor
  · intro hd
    obtain ⟨r, hr, hheld⟩ := List.mem_flatMap.1 (List.mem_of_find?_eq_some (mem_keepFirst.1 hd))
    exact ⟨r, mem_inOrder.1 hr, (heldDefinition_mem (mem_heldDefinitions.1 hheld)).1⟩
  · intro hgiven
    obtain ⟨r, hr, howned⟩ := hgiven
    have hheld : d ∈ heldDefinitions package r := by
      refine mem_heldDefinitions.2 (find?_name_of_subset hnames ?_ (List.mem_reverse.2 howned))
      intro e he
      exact mem_definitions_of_owned (List.mem_reverse.1 he)
    refine mem_keepFirst.2 (find?_name_of_subset hnames ?_ (List.mem_flatMap.2 ⟨r, mem_inOrder.2 hr,
      hheld⟩))
    intro e he
    obtain ⟨r', -, hheld'⟩ := List.mem_flatMap.1 he
    exact heldDefinitions_subset hheld'

theorem reread_definitions_subset : (reread package).definitions ⊆ package.definitions := by
  intro d hd
  obtain ⟨r, -, hheld⟩ := List.mem_flatMap.1 (List.mem_of_find?_eq_some (mem_keepFirst.1 hd))
  exact heldDefinitions_subset hheld

/-- What is read back of a package that can be written can be written. -/
theorem Sound.reread (h : Sound package) (hnames : (package.definitions.map (·.name)).Nodup) :
    Sound (reread package) := by
  refine ⟨h.id, h.short, h.descriptor, ?_, fun r hr => ?_⟩
  · have hperm : (taken package (inOrder package)).Perm (taken package package.releases) :=
      ((VersionKey.sort_perm _ _).filterMap _).cons _
    exact hperm.nodup_iff.2 h.fresh
  · have hmem := mem_inOrder.1 hr
    have hsound := h.releases r hmem
    refine ⟨hsound.version, fun k hk => ?_, hsound.name, hsound.release, fun d hd => ?_⟩
    · -- what serves the key in the package is owned by the release, and so comes back
      have hserved := hsound.served k hk
      rw [serves, ← List.isSome_find?, Option.isSome_iff_exists] at hserved
      obtain ⟨d, hfind⟩ := hserved
      have howned : d ∈ ownedDefinitions package r := List.mem_filterMap.2 ⟨k, hk, hfind⟩
      rw [serves, List.any_eq_true]
      refine ⟨d, (mem_reread_definitions hnames).2 ⟨r, hmem, howned⟩, ?_⟩
      exact List.find?_some (p := fun d : Definition => decide (k ∈ d.keys)) hfind
    · obtain ⟨r', hr', howned⟩ :=
        (mem_reread_definitions hnames).1 (mem_definitions_of_owned hd)
      exact (h.releases r' hr').definitions d howned

theorem fileOf_definitionName_ne_none (hd : d ∈ ownedDefinitions package r) :
    fileOf package r (definitionName d) ≠ none := by
  rw [definitionName, fileOf_definition, heldDefinition, Ne, Option.map_eq_none_iff,
    List.find?_eq_none]
  intro hnone
  exact hnone d (List.mem_reverse.2 hd) (by simp)

section

variable {p q : Package}

/-- What a release owns in one package it owns in another in which its bundle has the same files,
provided that no two definitions have one name. -/
theorem mem_owned_of_files (hnames : (package.definitions.map (·.name)).Nodup)
    (hp : p.definitions ⊆ package.definitions) (hq : q.definitions ⊆ package.definitions)
    (hfiles : ∀ name, fileOf p r name = fileOf q r name) (hd : d ∈ ownedDefinitions p r) :
    d ∈ ownedDefinitions q r := by
  have hfile := fileOf_definitionName_ne_none hd
  rw [hfiles] at hfile
  rcases fileOf_ne_none hfile with heq | ⟨e, hheld, heq⟩
  · have hsuffix := (hasSuffix_releaseName r).2
    rw [← heq, (hasSuffix_definitionName d).1] at hsuffix
    cases hsuffix
  · have howned := (heldDefinition_mem hheld).1
    have hde : d = e := List.inj_on_of_nodup_map hnames (hp (mem_definitions_of_owned hd))
      (hq (mem_definitions_of_owned howned)) (definitionName_eq_iff.1 heq)
    rwa [hde]

/-- The bundle of a release has the same files in two packages exactly when the release owns the same
in both, provided that no two definitions have one name. -/
theorem fileOf_eq_iff (hnames : (package.definitions.map (·.name)).Nodup)
    (hq : q.definitions ⊆ package.definitions) :
    (∀ name, fileOf q r name = fileOf package r name) ↔
      ∀ d, d ∈ ownedDefinitions package r ↔ d ∈ ownedDefinitions q r := by
  constructor
  · intro hfiles d
    exact ⟨mem_owned_of_files hnames (List.Subset.refl _) hq fun name => (hfiles name).symm,
      mem_owned_of_files hnames hq (List.Subset.refl _) hfiles⟩
  · intro hsame name
    -- A file is that of the last definition with its name; since there is one at most, the order
    -- does not matter.
    have hfound : ∀ x : Package, x.definitions ⊆ package.definitions → ∀ d,
        (ownedDefinitions x r).reverse.find? (definitionName · = name) = some d ↔
          d ∈ ownedDefinitions x r ∧ definitionName d = name := by
      intro x hx d
      rw [find?_eq_some_iff_of_unique fun c hc e he hcn hen => ?_, List.mem_reverse,
        decide_eq_true_iff]
      refine List.inj_on_of_nodup_map hnames (hx (mem_definitions_of_owned (List.mem_reverse.1 hc)))
        (hx (mem_definitions_of_owned (List.mem_reverse.1 he))) (definitionName_eq_iff.1 ?_)
      exact (of_decide_eq_true hcn).trans (of_decide_eq_true hen).symm
    have hdefinition : (ownedDefinitions q r).reverse.find? (definitionName · = name) =
        (ownedDefinitions package r).reverse.find? (definitionName · = name) := by
      ext d
      rw [hfound q hq, hfound package (List.Subset.refl _), hsame]
    unfold fileOf
    rw [hdefinition]

end

/-- A version leads to the same release in the order of the versions. -/
theorem find?_inOrder (h : (package.releases.filterMap (·.version)).Nodup) (version : String) :
    (inOrder package).find? (·.version = some version) =
      package.releases.find? (·.version = some version) := by
  have hunique : ∀ r ∈ package.releases, ∀ r' ∈ package.releases,
      decide (r.version = some version) = true → decide (r'.version = some version) = true →
        r = r' := by
    intro r hr r' hr' hv hv'
    have hfind := find?_version h hr (of_decide_eq_true hv)
    rw [find?_version h hr' (of_decide_eq_true hv')] at hfind
    exact (Option.some.inj hfind).symm
  ext r
  rw [find?_eq_some_iff_of_unique hunique, find?_eq_some_iff_of_unique fun r hr r' hr' =>
    hunique r (mem_inOrder.1 hr) r' (mem_inOrder.1 hr'), mem_inOrder]

/-- What is read back of a package has the tree of the package exactly when each release owns the
same definitions in both. -/
theorem treeOf_reread_iff (h : Sound package) (hnames : (package.definitions.map (·.name)).Nodup) :
    treeOf (reread package) = treeOf package ↔ ∀ r ∈ package.releases, ∀ d,
      d ∈ ownedDefinitions package r ↔ d ∈ ownedDefinitions (reread package) r := by
  obtain ⟨-, hversions⟩ := List.nodup_cons.1 h.fresh
  have hfind : ∀ version : String, (reread package).releases.find? (·.version = some version) =
      package.releases.find? (·.version = some version) := find?_inOrder hversions
  constructor
  · intro htree r hr
    obtain ⟨version, hv, -, -⟩ := (h.releases r hr).version
    refine (fileOf_eq_iff hnames reread_definitions_subset).1 fun name => ?_
    have hplace := congrFun htree [version, name]
    rw [treeOf, treeOf, hfind, find?_version hversions hr hv] at hplace
    exact hplace
  · intro hsame
    refine treeOf_eq_of (fun name => ?_) fun version name => ?_
    · rw [treeOf, treeOf, hfind]
      rfl
    · rw [treeOf, treeOf, hfind]
      cases hr : package.releases.find? (·.version = some version) with
      | none => rfl
      | some r =>
        have hmem := List.mem_of_find?_eq_some hr
        exact (fileOf_eq_iff hnames reread_definitions_subset).2 (hsame r hmem) name

/-- When no two definitions serve a key that a release owns, the release owns the same, in the same
order, in what is read back. -/
theorem ownedDefinitions_reread (hr : r ∈ package.releases)
    (hnames : (package.definitions.map (·.name)).Nodup)
    (hunique : ∀ k ∈ r.owned, ∀ d ∈ package.definitions, ∀ d' ∈ package.definitions,
      k ∈ d.keys → k ∈ d'.keys → d = d') :
    ownedDefinitions (reread package) r = ownedDefinitions package r := by
  refine List.filterMap_congr fun k hk => ?_
  ext d
  have hone : ∀ d ∈ package.definitions, ∀ d' ∈ package.definitions,
      decide (k ∈ d.keys) = true → decide (k ∈ d'.keys) = true → d = d' := by
    intro d hd d' hd' hkd hkd'
    exact hunique k hk d hd d' hd' (of_decide_eq_true hkd) (of_decide_eq_true hkd')
  rw [find?_eq_some_iff_of_unique hone, find?_eq_some_iff_of_unique fun d hd d' hd' =>
    hone d (reread_definitions_subset hd) d' (reread_definitions_subset hd')]
  constructor
  · intro hgiven
    exact ⟨reread_definitions_subset hgiven.1, hgiven.2⟩
  · intro hgiven
    obtain ⟨hd, hserves⟩ := hgiven
    have howned : d ∈ ownedDefinitions package r :=
      List.mem_filterMap.2 ⟨k, hk, (find?_eq_some_iff_of_unique hone).2 ⟨hd, hserves⟩⟩
    exact ⟨(mem_reread_definitions hnames).2 ⟨r, hr, howned⟩, hserves⟩

end

/-! ## Written, read, and written again -/

/-- A directory in which nothing stands under the identifier of a package. -/
structure Vacant (files : FileSystem) (registry : Path) (id : String) (directory : Place) :
    Prop where
  tree : files.IsTree
  follow : files.follow registry = .ok directory
  leads : files.isDirectoryAt directory = true
  free : files.get? (directory ++ [id]) = none
  direct : files.Direct registry directory

/-- A copy of a sound package is written exactly when the paths of the package fit, and as the tree
of the package. -/
theorem create_copy {p p' : Package} (hcopy : p.Copy p') (hsound : Sound p) {registry : Path}
    {w : Workspace} {directory : Place} (hvacant : Vacant w.files registry p.id directory) :
    (((Manifest.new p' registry).create w).1.2 = .ok () ↔ PathsFit w.files registry p) ∧
    (((Manifest.new p' registry).create w).1.2 = .ok () → ∀ rel,
      ((Manifest.new p' registry).create w).2.files.get? (directory ++ [p.id] ++ rel) =
        treeOf p rel) := by
  have hl : w.files.LeadsTo registry directory := .of_follow hvacant.follow hvacant.leads
  have hc := created_create p' registry hvacant.tree
  have hfree := hvacant.free
  rw [← hcopy.id] at hfree ⊢
  rw [← pathsFit_copy_iff hcopy, ← treeOf_copy hcopy]
  -- Where it stands is the directory that the registry leads to, which is the same for both.
  have hwritten : ((Manifest.new p' registry).create w).1.2 = .ok () →
      PathsFit w.files registry p' ∧ ∀ rel,
        ((Manifest.new p' registry).create w).2.files.get? (directory ++ [p'.id] ++ rel) =
          treeOf p' rel := by
    intro hok
    rw [hok] at hc
    obtain ⟨-, hfits, directory', hl', h⟩ := stands_of_created hvacant.tree hc
    rw [hl'.unique hl] at h
    exact ⟨hfits, h.tree⟩
  exact ⟨⟨fun hok => (hwritten hok).1,
    hc.eq_ok hvacant.tree hl hfree hvacant.direct (hsound.copy hcopy)⟩, fun hok => (hwritten hok).2⟩

/-- What a package with two releases is taken from: `demo.v1` owns widgets in version `v3`, and
`demo.v2` in version `v1`. The definitions come back in the order of the releases, the second
first. -/
def gadgetParts (widgets gadgets : List String) : Except PackageFault Package :=
  Package.ofValues (.mapping none [(.text "packageName", .text "demo")])
    [.checked .release (owningWidgets "demo.v1" "1.0" "v3"),
      .checked .release (owningWidgets "demo.v2" "2.0" "v1")]
    [.checked .definition (servingWidgets "widgets.demo.io" widgets),
      .checked .definition (servingWidgets "gadgets.demo.io" gadgets)]

/-- A package in which no two definitions serve one key. -/
def gadgetPackage : Package := (gadgetParts ["v1"] ["v3"]).toOption.getD (barePackage "" [])

/-- A package both of whose definitions serve a key that a release owns. -/
def crossedPackage : Package :=
  (gadgetParts ["v1", "v2"] ["v1", "v3"]).toOption.getD (barePackage "" [])

theorem vacant_emptyRegistry : Vacant emptyRegistry (.ofText "reg") "demo" ["reg"] :=
  ⟨isTree_emptyRegistry, by decide +kernel, by decide, by decide,
    isTree_emptyRegistry.direct ⟨by decide +kernel, by decide⟩ (by decide +kernel)⟩

/-- When the releases of a package are in the order of their versions, only the definitions come back
in another order. -/
theorem reread_eq (package : Package)
    (h : package.releases.Pairwise fun r r' =>
      (VersionKey.keyOf (r'.version.getD "")).less (VersionKey.keyOf (r.version.getD "")) = false) :
    reread package = { package with
      definitions := keepFirst (package.releases.flatMap (heldDefinitions package)) } := by
  have horder : inOrder package = package.releases := by
    refine List.mergeSort_of_pairwise (h.imp fun hless => ?_)
    rw [hless]
    rfl
  rw [reread, horder]

end RegistryTree.Manifest
